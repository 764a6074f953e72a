import ProcEngine.Config.Setting
import ProcEngine.Json.Reader
import ProcEngine.Text.Blank
import ProcEngine.Text.Word
/-!
# Patterns

A filter may compare a field with a pattern: a regular expression. Nothing is ever matched here, but
a pattern has to be one. This module says which texts are.

A pattern reads characters of any script unless a group or a flag takes that back, but no tables of
scripts are at hand: what would need them (classes of characters by property, letters of either
case) is a mistake. Patterns come out of a filter and hold no closing brace and no comma, so that
nothing which needs one can be complete.
-/

namespace ProcEngine.Log.Pattern

open ProcEngine.Json (Input hexDigit?)

/-- What the flags at a place of a pattern allow. -/
structure Mode where
  /-- Blanks and comments do not count. -/
  spaced : Bool := false
  /-- Letters stand for either case. -/
  anyCase : Bool := false
  /-- Characters of any script are read. -/
  anyScript : Bool := true
  /-- Word boundaries of any script are admitted. -/
  boundaries : Bool

def skipSpace (m : Mode) : (fuel : Nat) → Input → Input
  | 0, cs => cs
  | fuel + 1, cs =>
    if !m.spaced then cs
    else
      match Text.trimLeft cs with
      | '#' :: rest => skipSpace m fuel ((rest.dropWhile (· != '\n')).drop 1)
      | cs => cs

def skip (m : Mode) (cs : Input) : Input := skipSpace m (cs.length + 1) cs

/-! ### Escapes -/

/-- What stands for characters or for a place in a pattern. -/
inductive Atom
  | char (c : Char)
  | set
  | place

/-- Reads a character by its number, given in so many digits. -/
def numbered? (digits : Nat) (cs : Input) : Option (Atom × Input) := do
  guard (digits ≤ cs.length)
  let n ← (cs.take digits).foldl (fun n c => do return (← n) * 16 + (← hexDigit? c)) (some 0)
  guard (n < 0xd800 || (0xdfff < n && n < 0x110000))
  return (.char (Char.ofNat n), cs.drop digits)

/-- Whether a backslash may stand before the character to no effect. -/
def isMark (c : Char) : Bool := c.toNat < 0x80 && !c.isAlphanum && c != '<' && c != '>'

def escape? (m : Mode) : Input → Option (Atom × Input)
  | [] => none
  | c :: rest =>
    match c with
    | 'x' => numbered? 2 rest
    | 'u' => numbered? 4 rest
    | 'U' => numbered? 8 rest
    | 'd' | 's' | 'w' => if m.anyScript then none else some (.set, rest)
    | 'a' => some (.char '\x07', rest)
    | 'f' => some (.char '\x0c', rest)
    | 't' => some (.char '\t', rest)
    | 'n' => some (.char '\n', rest)
    | 'r' => some (.char '\r', rest)
    | 'v' => some (.char '\x0b', rest)
    | 'A' | 'z' => some (.place, rest)
    | 'b' | 'B' | '<' | '>' => if m.anyScript && !m.boundaries then none else some (.place, rest)
    | c => if isMark c then some (.char c, rest) else none

/-! ### Sets of characters -/

def classNames : List String :=
  ["alnum", "alpha", "ascii", "blank", "cntrl", "digit", "graph", "lower", "print", "punct",
    "space", "upper", "word", "xdigit"]

/-- What follows a class by name, which stands between `[:` and `:]`. -/
def afterClass? (cs : Input) : Option Input :=
  match cs with
  | '[' :: ':' :: rest =>
    let rest := if rest.head? = some '^' then rest.drop 1 else rest
    match rest.dropWhile (· != ':') with
    | ':' :: ']' :: after =>
      if classNames.contains (String.ofList (rest.takeWhile (· != ':'))) then some after else none
    | _ => none
  | _ => none

def setItem? (m : Mode) : Input → Option (Atom × Input)
  | [] => none
  | '\\' :: rest => escape? m rest
  | c :: rest => if m.anyScript || c.toNat < 0x80 then some (.char c, rest) else none

/-- What follows one character of a set, or a range of them. -/
def afterRange? (m : Mode) (cs : Input) : Option Input := do
  let (first, rest) ← setItem? m cs
  let plain : Option Input := match first with
    | .place => none
    | .char _ | .set => some (skip m rest)
  match skip m rest with
  | [] => none
  | '-' :: rest =>
    match skip m rest with
    | ']' :: _ | '-' :: _ => plain
    | [] => none
    | rest => do
      let (last, rest) ← setItem? m rest
      match first, last with
      | .char a, .char b => if a.toNat ≤ b.toNat then some rest else none
      | _, _ => none
  | _ => plain

/-- What follows the opening of a set: its bracket, whether it is the complement, and the characters
that count as members only there. -/
def afterOpening? (m : Mode) (cs : Input) : Option Input := do
  let cs := skip m cs
  guard (!(cs.head? = some '^' && !m.anyScript))
  let cs := if cs.head? = some '^' then skip m (cs.drop 1) else cs
  let dashes := cs.takeWhile (· == '-')
  match dashes, skip m (cs.drop dashes.length) with
  | [], ']' :: rest => some (skip m rest)
  | _, rest => some rest

/-- What follows a set, given how many sets are open. -/
def afterSet? (m : Mode) : (fuel : Nat) → (opened : Nat) → Input → Option Input
  | 0, _, _ => none
  | fuel + 1, opened, cs =>
    match skip m cs with
    | [] => none
    | '[' :: rest =>
      match afterClass? ('[' :: rest) with
      | some after => afterSet? m fuel opened after
      | none => do afterSet? m fuel (opened + 1) (← afterOpening? m rest)
    | ']' :: rest => if opened ≤ 1 then some rest else afterSet? m fuel (opened - 1) rest
    | '&' :: '&' :: rest | '-' :: '-' :: rest | '~' :: '~' :: rest => afterSet? m fuel opened rest
    | cs => do afterSet? m fuel opened (← afterRange? m cs)

/-! ### Groups -/

def isNameChar (isFirst : Bool) (c : Char) : Bool :=
  c == '_' || (if isFirst then Text.isAlphabetic c else c == '.' || c == '[' || c == ']' ||
    Text.isWordChar c)

def groupName? (cs : Input) : Option (List Char × Input) :=
  match cs.takeWhile (· != '>'), cs.dropWhile (· != '>') with
  | c :: name, '>' :: rest =>
    if isNameChar true c && name.all (isNameChar false) then some (c :: name, rest) else none
  | _, _ => none

/-- Reads flags up to the sign that ends them, given those read already. -/
def flags? (m : Mode) (seen : List Char) : Input → Option (Mode × Bool × Input)
  | [] => none
  | c :: rest =>
    let on := !seen.contains '-'
    if c = ')' || c = ':' then
      if seen.head? = some '-' || (c = ')' && seen.isEmpty) then none else some (m, c = ':', rest)
    else if seen.contains c then none
    else
      match c with
      | '-' | 's' | 'm' | 'U' | 'R' => flags? m (c :: seen) rest
      | 'i' => flags? { m with anyCase := on } (c :: seen) rest
      | 'u' => flags? { m with anyScript := on } (c :: seen) rest
      | 'x' => flags? { m with spaced := on } (c :: seen) rest
      | _ => none

inductive Opening
  | group (name : List Char) (m : Mode) (rest : Input)
  | flags (m : Mode) (rest : Input)

def opening? (m : Mode) (cs : Input) : Option Opening :=
  match skip m cs with
  | '?' :: '=' :: _ | '?' :: '!' :: _ | '?' :: '<' :: '=' :: _ | '?' :: '<' :: '!' :: _ => none
  | '?' :: 'P' :: '<' :: rest | '?' :: '<' :: rest =>
    (groupName? rest).map fun (name, rest) => .group name m rest
  | '?' :: rest =>
    (flags? m [] rest).map fun
      | (m, true, rest) => .group [] m rest
      | (m, false, rest) => .flags m rest
  | rest => some (.group [] m rest)

/-! ### Patterns -/

def Atom.isAllowed (m : Mode) : Atom → Bool
  | char _ | set => !(m.anyCase && m.anyScript)
  | place => true

/-- Reads a pattern to its end. `outer` holds the modes around the open groups, `names` the names
that groups have got, and `repeatable` tells whether there is something before this place to
repeat. -/
def reads (names : List (List Char)) : (fuel : Nat) → Mode → (outer : List Mode) →
    (repeatable : Bool) → Input → Bool
  | 0, _, _, _, _ => false
  | fuel + 1, m, outer, repeatable, cs =>
    match skip m cs with
    | [] => outer.isEmpty
    | '(' :: rest =>
      match opening? m rest with
      | none => false
      | some (.flags m rest) => reads names fuel m outer false rest
      | some (.group name inner rest) =>
        if name.isEmpty then reads names fuel inner (m :: outer) false rest
        else !names.contains name && reads (name :: names) fuel inner (m :: outer) false rest
    | ')' :: rest =>
      match outer with
      | [] => false
      | m :: outer => reads names fuel m outer true rest
    | '|' :: rest => reads names fuel m outer false rest
    | '[' :: rest =>
      Atom.set.isAllowed m &&
        ((afterOpening? m rest).bind fun rest => afterSet? m (rest.length + 1) 1 rest).any
          fun rest =>
          reads names fuel m outer true rest
    | '\x7b' :: _ => false
    | '.' :: rest => m.anyScript && reads names fuel m outer true rest
    | '^' :: rest | '$' :: rest => reads names fuel m outer true rest
    | '\\' :: rest =>
      (escape? m rest).any fun (a, rest) => a.isAllowed m && reads names fuel m outer true rest
    | c :: rest =>
      if c = '?' || c = '*' || c = '+' then
        repeatable && reads names fuel m outer true (if rest.head? = some '?' then rest.drop 1
          else rest)
      else (Atom.char c).isAllowed m && reads names fuel m outer true rest

/-- Whether a text is a pattern, with or without word boundaries of any script. -/
def isPattern (boundaries : Bool) (s : List Char) : Bool :=
  reads [] (s.length + 1) { boundaries } [] false s

example : (["a|(b*)?", "[]a-z]+$", "(?P<n>x)"].all fun s => isPattern false s.toList) = true := by
  decide +kernel
example : (["(", "*", "[", "a)", "[z-a]", "\\w", "(?i)a"].any fun s => isPattern true s.toList) =
    false := by
  decide +kernel

end ProcEngine.Log.Pattern
