import ProcEngine.Config.Yaml.Cursor
import ProcEngine.Json.Reader
/-!
# The texts of YAML scalars

A scalar is plain, quoted, or a block of lines. Inside the first two a line end stands for a blank,
and line ends after it for themselves. Every function gives the text and the place after it.
-/

namespace ProcEngine.Yaml

open ProcEngine.Json (hexDigit?)

/-! ### Folding -/

structure Fold where
  /-- The blanks before the first line end, in reverse. -/
  spaces : List Char := []
  breaks : Nat := 0

def Fold.text (f : Fold) : List Char :=
  match f.breaks with
  | 0 => f.spaces
  | 1 => [' ']
  | n + 2 => List.replicate (n + 1) '\n'

/-- Reads the blanks and line ends between words. A tab left of column `indent` may only be on a
line of blanks. -/
def scanFold (indent : Int) (f : Fold) : (fuel : Nat) → Cursor → Option (Fold × Cursor)
  | 0, _ => none
  | fuel + 1, c =>
    match c.head with
    | none => some (f, c)
    | some ch =>
      if isBreak ch then scanFold indent { spaces := [], breaks := f.breaks + 1 } fuel c.nextLine
      else if !isBlank ch then some (f, c)
      else if f.breaks = 0 then
        scanFold indent { f with spaces := ch :: f.spaces } fuel (c.blanks 1)
      else if ch = '\t' && (c.column : Int) < indent then do
        let g ← c.gap? true
        guard g.cursor.isAtBreak
        scanFold indent f fuel g.cursor
      else scanFold indent f fuel (c.blanks 1)

/-! ### Plain scalars -/

def continuesPlain (inFlow : Bool) (c : Cursor) : Bool :=
  match c.head with
  | some ':' => !(c.endsAt 1 || (inFlow && (c.peek 1).any isFlow))
  | some ch => !(inFlow && isFlow ch)
  | none => false

def scanWord (inFlow : Bool) (acc : List Char) : (fuel : Nat) → Cursor → List Char × Cursor
  | 0, c => (acc, c)
  | fuel + 1, c =>
    match c.head with
    | some ch =>
      if isBlank ch || isBreak ch || !continuesPlain inFlow c then (acc, c)
      else scanWord inFlow (ch :: acc) fuel (c.chars 1)
    | none => (acc, c)

/-- Reads a plain scalar whose further lines stand at column `indent` or right of it. -/
def scanPlain (inFlow : Bool) (indent : Int) (acc : List Char) (f : Fold) :
    (fuel : Nat) → Cursor → Option (List Char × Cursor)
  | 0, _ => none
  | fuel + 1, c => do
    if c.isAtDocument || c.head = some '#' then return (acc, c)
    guard (!(inFlow && c.head = some '-' && (c.peek 1).any isFlow))
    let (word, after) := scanWord inFlow [] c.rest.length c
    let acc := if word.isEmpty then acc else word ++ f.text ++ acc
    if !after.head.any fun ch => isBlank ch || isBreak ch then return (acc, after)
    let (f, next) ← scanFold indent {} (after.rest.length + 1) after
    if !inFlow && (next.column : Int) < indent then return (acc, next)
    scanPlain inFlow indent acc f fuel next

/-! ### Quoted scalars -/

def escapeDigits (ch : Char) : Option Nat :=
  match ch with
  | 'x' => some 2
  | 'u' => some 4
  | 'U' => some 8
  | _ => none

def escape? (ch : Char) : Option Char :=
  match ch with
  | '0' => some '\x00'
  | 'a' => some '\x07'
  | 'b' => some '\x08'
  | 't' | '\t' => some '\t'
  | 'n' => some '\n'
  | 'v' => some '\x0b'
  | 'f' => some '\x0c'
  | 'r' => some '\r'
  | 'e' => some '\x1b'
  | ' ' => some ' '
  | '"' => some '"'
  | '/' => some '/'
  | '\\' => some '\\'
  | 'N' => some '\u0085'
  | '_' => some '\u00a0'
  | 'L' => some '\u2028'
  | 'P' => some '\u2029'
  | _ => none

/-- The character of an escape, and how long that is after its backslash. -/
def scanEscape (cs : List Char) : Option (Char × Nat) := do
  let ch ← cs.head?
  match escapeDigits ch with
  | some n => do
    let digits := (cs.drop 1).take n
    guard (digits.length = n)
    let code ← digits.foldl (fun code d => do return (← code) * 16 + (← hexDigit? d)) (some 0)
    guard (code < 0xd800 || (0xdfff < code && code < 0x110000))
    return (Char.ofNat code, n + 1)
  | none => return (← escape? ch, 1)

inductive Stretch
  | blanks
  | quote
  /-- A line end after a backslash, which does not count. -/
  | joined

def scanStretch (single : Bool) (acc : List Char) : (fuel : Nat) → Cursor →
    Option (Stretch × List Char × Cursor)
  | 0, _ => none
  | fuel + 1, c =>
    match c.rest with
    | [] => some (.blanks, acc, c)
    | ch :: rest =>
      if isBlank ch || isBreak ch then some (.blanks, acc, c)
      else if single then
        if ch != '\'' then scanStretch single (ch :: acc) fuel (c.chars 1)
        else if rest.head? = some '\'' then scanStretch single ('\'' :: acc) fuel (c.chars 2)
        else some (.quote, acc, c.chars 1)
      else if ch = '"' then some (.quote, acc, c.chars 1)
      else if ch != '\\' then scanStretch single (ch :: acc) fuel (c.chars 1)
      else if rest.head?.any isBreak then some (.joined, acc, (c.chars 1).nextLine)
      else
        match scanEscape rest with
        | some (e, n) => scanStretch single (e :: acc) fuel (c.chars (n + 1))
        | none => none

/-- Skips blanks and line ends after one that does not count. -/
def skipJoined (indent : Int) (breaks : Nat) : (fuel : Nat) → Cursor → Option (Nat × Cursor)
  | 0, _ => none
  | fuel + 1, c =>
    match c.head with
    | none => some (breaks, c)
    | some ch =>
      if isBreak ch then skipJoined indent (breaks + 1) fuel c.nextLine
      else if !isBlank ch then some (breaks, c)
      else if ch = '\t' && (c.column : Int) < indent then none
      else skipJoined indent breaks fuel (c.blanks 1)

/-- Reads blanks and line ends inside quotes. A tab must not stand left of column `indent` on a new
line. -/
def scanQuotedFold (indent : Int) (f : Fold) : (fuel : Nat) → Cursor → Option (Fold × Cursor)
  | 0, _ => none
  | fuel + 1, c =>
    match c.head with
    | none => some (f, c)
    | some ch =>
      if isBreak ch then
        scanQuotedFold indent { spaces := [], breaks := f.breaks + 1 } fuel c.nextLine
      else if !isBlank ch then some (f, c)
      else if f.breaks = 0 then
        scanQuotedFold indent { f with spaces := ch :: f.spaces } fuel (c.blanks 1)
      else if ch = '\t' && (c.column : Int) < indent then none
      else scanQuotedFold indent f fuel (c.blanks 1)

def scanQuoted (single : Bool) (indent : Int) (acc : List Char) : (fuel : Nat) → Cursor →
    Option (List Char × Cursor)
  | 0, _ => none
  | fuel + 1, c => do
    guard (!c.isAtDocument && !c.isAtEnd && !((c.column : Int) < indent))
    match ← scanStretch single acc (c.rest.length + 1) c with
    | (.quote, acc, c) => return (acc, c)
    | (.blanks, acc, c) => do
      let (f, c) ← scanQuotedFold indent {} (c.rest.length + 1) c
      scanQuoted single indent (f.text ++ acc) fuel c
    | (.joined, acc, c) => do
      let (breaks, c) ← skipJoined indent 0 (c.rest.length + 1) c
      scanQuoted single indent (List.replicate breaks '\n' ++ acc) fuel c

/-! ### Blocks of lines -/

inductive Chomping
  | clip
  | strip
  | keep
  deriving DecidableEq

def chomping? (c : Cursor) : Option Chomping :=
  match c.head with
  | some '+' => some .keep
  | some '-' => some .strip
  | _ => none

def indentation? (c : Cursor) : Option Nat :=
  match c.head with
  | some d => if '0' ≤ d && d ≤ '9' then some (d.toNat - '0'.toNat) else none
  | none => none

/-- Reads what may follow the sign of a block, in either order. An indentation of nothing is a
mistake. -/
def scanHeader (c : Cursor) : Option (Chomping × Nat × Cursor) := do
  let (chomping, increment, c) :=
    match chomping? c, indentation? c with
    | some chomping, _ =>
      match indentation? (c.chars 1) with
      | some n => (chomping, some n, c.chars 2)
      | none => (chomping, none, c.chars 1)
    | none, some n =>
      match chomping? (c.chars 1) with
      | some chomping => (chomping, some n, c.chars 2)
      | none => (.clip, some n, c.chars 1)
    | none, none => (.clip, none, c)
  guard (increment != some 0)
  return (chomping, increment.getD 0, c)

/-- Skips indentation up to column `indent`, and empty lines, which are counted. -/
def skipIndentation (indent breaks : Nat) : (fuel : Nat) → Cursor → Nat × Cursor
  | 0, c => (breaks, c)
  | fuel + 1, c =>
    let c := c.blanks ((c.rest.takeWhile (· == ' ')).take (indent - c.column)).length
    if c.head.any isBreak then skipIndentation indent (breaks + 1) fuel c.nextLine else (breaks, c)

/-- Finds the column of the first line of a block: that of its first character, but right of the
blanks of empty lines before it. -/
def findIndentation (deepest breaks : Nat) : (fuel : Nat) → Cursor → Nat × Nat × Cursor
  | 0, c => (deepest, breaks, c)
  | fuel + 1, c =>
    let c := c.blanks (c.rest.takeWhile (· == ' ')).length
    let deepest := max deepest c.column
    if c.head.any isBreak then findIndentation deepest (breaks + 1) fuel c.nextLine
    else (deepest, breaks, c)

/-- The lines of a block as they are read: the text in reverse, whether the last line began with a
blank, whether it had an end, and how many empty lines followed. -/
structure Lines where
  acc : List Char := []
  blank : Bool := false
  ended : Bool := false
  breaks : Nat

/-- Adds a line. In a folded block the end of the line before it is a blank, unless one of the two
begins with a blank. -/
def Lines.add (literal : Bool) (l : Lines) (line : List Char) : List Char :=
  let empties := List.replicate l.breaks '\n'
  let between :=
    if !literal && l.ended && !l.blank && !line.head?.any isBlank then
      if l.breaks = 0 then [' '] else empties
    else empties ++ (if l.ended then ['\n'] else [])
  line.reverse ++ between ++ l.acc

def scanLines (literal : Bool) (indent : Nat) (l : Lines) : (fuel : Nat) → Cursor → Lines × Cursor
  | 0, c => (l, c)
  | fuel + 1, c =>
    if c.column != indent || c.isAtEnd || (indent = 0 && c.isAtDocument) then (l, c)
    else
      let line := c.rest.takeWhile fun ch => !isBreak ch
      let acc := l.add literal line
      let c := c.chars line.length
      let blank := line.head?.any isBlank
      if c.isAtEnd then ({ acc, blank, ended := false, breaks := 0 }, c)
      else
        let (breaks, next) := skipIndentation indent 0 (c.rest.length + 1) c.nextLine
        scanLines literal indent { acc, blank, ended := true, breaks } fuel next

def scanBlock (literal : Bool) (outer : Int) (start : Cursor) : Option (List Char × Cursor) := do
  let (chomping, increment, c) ← scanHeader start
  let c := (← c.gap? true).cursor
  guard c.isAtBreak
  let ended := !c.isAtEnd
  let c := if ended then c.nextLine else c
  guard (c.head != some '\t')
  let fuel := c.rest.length + 1
  let (indent, breaks, c) :=
    if increment = 0 then
      let (deepest, breaks, c) := findIndentation 0 0 fuel c
      (max (max deepest (outer + 1).toNat) (if 0 < outer then 1 else 0), breaks, c)
    else
      let indent := if 0 ≤ outer then outer.toNat + increment else increment
      let (breaks, c) := skipIndentation indent 0 fuel c
      (indent, breaks, c)
  if c.isAtEnd then
    let text : List Char := match chomping with
      | .strip => []
      | .clip => if c.line = start.line then [] else ['\n']
      | .keep =>
        if c.line = start.line then [] else if breaks = 0 then ['\n']
        else List.replicate breaks '\n'
    return (text, c)
  guard (!(c.column < indent && outer < (c.column : Int)))
  let (l, c) := scanLines literal indent { breaks } fuel c
  let tail : List Char :=
    (if chomping = .strip then []
      else (if l.ended then ['\n'] else []) ++ (if c.isAtEnd && max indent 1 ≤ c.column then
        ['\n'] else [])) ++
    (if chomping = .keep then List.replicate l.breaks '\n' else [])
  return (l.acc.reverse ++ tail, c)

end ProcEngine.Yaml
