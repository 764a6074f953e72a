import ProcEngine.Config.Document
import ProcEngine.Json.Reader
import ProcEngine.Text.Blank
/-!
# Reading TOML

Every function takes what is left of the text and gives what is left after it; `none` stands for any
mistake. Dates and times are taken as texts, in one form however they were written.
-/

namespace ProcEngine.Toml

open ProcEngine.Json (Input hexDigit?)

/-! ### Blanks, comments and lines -/

def isBlank (c : Char) : Bool := c == ' ' || c == '\t'

def skipBlanks : Input → Input := List.dropWhile isBlank

/-- Whether a comment or a string of one line may hold the character. -/
def isPlain (c : Char) : Bool := c == '\t' || (0x20 ≤ c.toNat && c.toNat != 0x7f)

def skipComment : Input → Input
  | '#' :: rest => rest.dropWhile isPlain
  | cs => cs

/-- What follows the end of the line, which must have nothing but a comment left. -/
def endLine (cs : Input) : Option Input :=
  match skipComment (skipBlanks cs) with
  | [] => some []
  | '\n' :: rest => some rest
  | '\r' :: '\n' :: rest => some rest
  | _ => none

def skipLines : (fuel : Nat) → Input → Input
  | 0, cs => cs
  | fuel + 1, cs =>
    match skipComment (skipBlanks cs) with
    | '\n' :: rest => skipLines fuel rest
    | '\r' :: '\n' :: rest => skipLines fuel rest
    | cs => cs

/-! ### Strings -/

def hexChar? (cs : List Char) : Option Char := do
  let n ← cs.foldl (fun n c => do return (← n) * 16 + (← hexDigit? c)) (some 0)
  if h : n.isValidChar then some (Char.ofNatAux n h) else none

/-- Skips the blanks and line ends after a backslash at the end of a line. -/
def skipFold (cs : Input) : Input := cs.dropWhile fun c => isBlank c || c == '\n' || c == '\r'

def escape? : Input → Option (Char × Input)
  | 'b' :: rest => some ('\x08', rest)
  | 't' :: rest => some ('\t', rest)
  | 'n' :: rest => some ('\n', rest)
  | 'f' :: rest => some ('\x0c', rest)
  | 'r' :: rest => some ('\r', rest)
  | '"' :: rest => some ('"', rest)
  | '\\' :: rest => some ('\\', rest)
  | 'u' :: rest =>
    if rest.length < 4 then none else (hexChar? (rest.take 4)).map fun c => (c, rest.drop 4)
  | 'U' :: rest =>
    if rest.length < 8 then none else (hexChar? (rest.take 8)).map fun c => (c, rest.drop 8)
  | _ => none

def basicString (acc : List Char) : (fuel : Nat) → Input → Option (String × Input)
  | 0, _ => none
  | fuel + 1, cs =>
    match cs with
    | '"' :: rest => some (String.ofList acc.reverse, rest)
    | '\\' :: rest => do
      let (c, rest) ← escape? rest
      basicString (c :: acc) fuel rest
    | c :: rest => if isPlain c then basicString (c :: acc) fuel rest else none
    | [] => none

/-- A text of several lines. Up to two quotes may stand before the three that end it. -/
def longString (quote : Char) (acc : List Char) : (fuel : Nat) → Input → Option (String × Input)
  | 0, _ => none
  | fuel + 1, cs =>
    match cs with
    | a :: b :: c :: rest =>
      if a == quote && b == quote && c == quote then
        let extra := (rest.takeWhile (· == quote)).length
        if 2 < extra then none
        else some (String.ofList (List.replicate extra quote ++ acc).reverse, rest.drop extra)
      else if a == '\\' && quote == '"' then
        match skipBlanks (b :: c :: rest) with
        | '\n' :: rest => longString quote acc fuel (skipFold rest)
        | '\r' :: '\n' :: rest => longString quote acc fuel (skipFold rest)
        | _ => do
          let (e, rest) ← escape? (b :: c :: rest)
          longString quote (e :: acc) fuel rest
      else if isPlain a || a == '\n' then longString quote (a :: acc) fuel (b :: c :: rest)
      else if a == '\r' && b == '\n' then longString quote ('\n' :: acc) fuel (c :: rest)
      else none
    | _ => none

def literalString (cs : Input) : Option (String × Input) :=
  match cs.dropWhile fun c => isPlain c && c != '\'' with
  | '\'' :: rest => some (String.ofList (cs.takeWhile fun c => isPlain c && c != '\''), rest)
  | _ => none

/-- The line end right after the quotes that open a long text does not count. -/
def dropFirstLine : Input → Input
  | '\n' :: rest => rest
  | '\r' :: '\n' :: rest => rest
  | cs => cs

def scanText (cs : Input) : Option (String × Input) :=
  match cs with
  | '"' :: '"' :: '"' :: rest => longString '"' [] (rest.length + 1) (dropFirstLine rest)
  | '\'' :: '\'' :: '\'' :: rest => longString '\'' [] (rest.length + 1) (dropFirstLine rest)
  | '"' :: rest => basicString [] (rest.length + 1) rest
  | '\'' :: rest => literalString rest
  | _ => none

/-! ### Keys -/

def isBareKey (c : Char) : Bool :=
  ('a' ≤ c && c ≤ 'z') || ('A' ≤ c && c ≤ 'Z') || ('0' ≤ c && c ≤ '9') || c == '_' || c == '-'

def simpleKey (cs : Input) : Option (String × Input) :=
  match cs with
  | '"' :: rest => basicString [] (rest.length + 1) rest
  | '\'' :: rest => literalString rest
  | cs =>
    let name := cs.takeWhile isBareKey
    if name.isEmpty then none else some (String.ofList name, cs.dropWhile isBareKey)

def scanDots : (fuel : Nat) → Input → Option (List String × Input)
  | 0, _ => none
  | fuel + 1, cs => do
    let (first, rest) ← simpleKey (skipBlanks cs)
    match skipBlanks rest with
    | '.' :: rest =>
      let (others, rest) ← scanDots fuel rest
      return (first :: others, rest)
    | rest => return ([first], rest)

/-- How deep values may be nested, and how many names a key may join, less one. -/
def maxDepth : Nat := 79

/-- Reads a key, which may join names by dots. -/
def scanKey (cs : Input) : Option (List String × Input) := do
  let (path, rest) ← scanDots cs.length cs
  guard (path.length < maxDepth + 1)
  return (path, rest)

/-! ### Plain values -/

/-- Digits in which single underscores may stand between digits. -/
def ungrouped? (isDigit : Char → Bool) (cs : List Char) : Option (List Char) :=
  let rec go : List Char → Option (List Char)
    | [] => none
    | [c] => if isDigit c then some [c] else none
    | c :: '_' :: rest => if isDigit c then (go rest).map (c :: ·) else none
    | c :: rest => if isDigit c then (go rest).map (c :: ·) else none
  go cs

def isDigit (c : Char) : Bool := '0' ≤ c && c ≤ '9'

/-- A decimal whole number without a sign and without leading zeros. -/
def whole? (cs : List Char) : Option (List Char) :=
  match ungrouped? isDigit cs with
  | some ('0' :: _ :: _) => none
  | digits => digits

def based? (base : Nat) (cs : List Char) : Option Int64 := do
  let small (c : Char) : Bool := (hexDigit? c).any (· < base)
  let digits ← ungrouped? small cs
  let n := digits.foldl (fun n c => n * base + (hexDigit? c).getD 0) 0
  if n < UInt64.size / 2 then some (Int64.ofInt n) else none

def integer? (cs : List Char) : Option Int64 :=
  match cs with
  | '0' :: 'x' :: rest => based? 16 rest
  | '0' :: 'o' :: rest => based? 8 rest
  | '0' :: 'b' :: rest => based? 2 rest
  | cs =>
    let (_, rest) := Setting.signed cs
    do
      let digits ← whole? rest
      Setting.int? (String.ofList (cs.take (cs.length - rest.length) ++ digits))

def fraction? : List Char → Option (List Char)
  | [] => some []
  | '.' :: rest => (ungrouped? isDigit rest).map ('.' :: ·)
  | _ => none

def exponent? : List Char → Option (List Char)
  | [] => some []
  | e :: rest =>
    let (_, digits) := Setting.signed rest
    (ungrouped? isDigit digits).map fun ds => e :: rest.take (rest.length - digits.length) ++ ds

def float? (cs : List Char) : Option Float := do
  let (negative, rest) := Setting.signed cs
  let isE (c : Char) : Bool := c == 'e' || c == 'E'
  let mantissa := rest.takeWhile fun c => !isE c
  let tail := rest.dropWhile fun c => !isE c
  let x ← match rest with
    | ['i', 'n', 'f'] => some (1.0 / 0.0)
    | ['n', 'a', 'n'] => some (0.0 / 0.0)
    | _ => do
      let whole ← whole? (mantissa.takeWhile (· != '.'))
      let fraction ← fraction? (mantissa.dropWhile (· != '.'))
      let exponent ← exponent? tail
      guard (!(fraction.isEmpty && exponent.isEmpty))
      let x ← Setting.decimal? (whole ++ fraction ++ exponent)
      guard (negative || x.isFinite)
      return x
  return if negative then -x else x

def daysIn (year month : Nat) : Nat :=
  if month = 2 then if year % 4 = 0 ∧ (year % 100 ≠ 0 ∨ year % 400 = 0) then 29 else 28
  else if month = 4 ∨ month = 6 ∨ month = 9 ∨ month = 11 then 30
  else 31

def twoDigits (low high : Nat) (a b : Char) : Bool :=
  match Setting.digitsOf? [a, b] with
  | some n => low ≤ n && n ≤ high
  | none => false

/-- The offset of a time from universal time, in its usual form. -/
def offset? : List Char → Option (List Char)
  | [] => some []
  | [z] => if z == 'Z' || z == 'z' then some ['Z'] else none
  | [s, a, b, ':', c, d] =>
    if (s == '+' || s == '-') && twoDigits 0 23 a b && twoDigits 0 59 c d then
      some [if [a, b, c, d].all (· == '0') then '+' else s, a, b, ':', c, d]
    else none
  | _ => none

/-- A part of a second has nine digits at most and no zeros at its end. -/
def secondPart (digits : List Char) : List Char :=
  match ((digits.take 9).reverse.dropWhile (· == '0')).reverse with
  | [] => []
  | digits => '.' :: digits

/-- The end of a time, after its seconds. -/
def timeEnd? (offset : List Char → Option (List Char)) : List Char → Option (List Char)
  | '.' :: rest =>
    let digits := rest.takeWhile isDigit
    if digits.isEmpty then none else (offset (rest.drop digits.length)).map (secondPart digits ++ ·)
  | cs => offset cs

def time? (offset : List Char → Option (List Char)) : List Char → Option (List Char)
  | a :: b :: ':' :: c :: d :: ':' :: e :: f :: rest =>
    if twoDigits 0 23 a b && twoDigits 0 59 c d && twoDigits 0 60 e f then
      (timeEnd? offset rest).map ([a, b, ':', c, d, ':', e, f] ++ ·)
    else none
  | _ => none

def date? : List Char → Option (List Char)
  | [a, b, c, d, '-', e, f, '-', g, h] => do
    let year ← Setting.digitsOf? [a, b, c, d]
    let month ← Setting.digitsOf? [e, f]
    guard (1 ≤ month && month ≤ 12 && twoDigits 1 (daysIn year month) g h)
    return [a, b, c, d, '-', e, f, '-', g, h]
  | _ => none

/-- A date, a time or both, in the usual form. -/
def dateTime? (cs : List Char) : Option (List Char) :=
  match date? (cs.take 10), cs.drop 10 with
  | some date, [] => some date
  | some date, t :: time =>
    if t == 'T' || t == 't' || t == ' ' then (time? offset? time).map fun time =>
      date ++ 'T' :: time else none
  | none, _ => time? (fun cs => if cs.isEmpty then some [] else none) cs

def isTokenChar (c : Char) : Bool :=
  isBareKey c || c == '+' || c == '.' || c == ':'

/-- The characters of a plain value. A date may be followed by a blank and a time. -/
def token (cs : Input) : List Char × Input :=
  let first := cs.takeWhile isTokenChar
  let rest := cs.dropWhile isTokenChar
  match rest with
  | ' ' :: d :: more =>
    if (date? first).isSome && isDigit d then
      (first ++ ' ' :: (d :: more).takeWhile isTokenChar, (d :: more).dropWhile isTokenChar)
    else (first, rest)
  | _ => (first, rest)

def plain? (cs : List Char) : Option Setting :=
  if cs = "true".toList then some (.bool true)
  else if cs = "false".toList then some (.bool false)
  else ((dateTime? cs).map fun cs => .text (String.ofList cs)) <|> ((integer? cs).map .int) <|>
    ((float? cs).map .float)

/-! ### Values -/

mutual

/-- Reads a value in which `depth` more containers may be nested. -/
def scanValue (depth : Nat) : (fuel : Nat) → Input → Option (Node × Input)
  | 0, _ => none
  | fuel + 1, cs =>
    match cs with
    | '[' :: rest =>
      if depth = 0 then none else (scanItems (depth - 1) fuel rest).map fun rest =>
        (.leaf .list, rest)
    | '\x7b' :: rest =>
      if depth = 0 then none
      else
        match skipBlanks rest with
        | '\x7d' :: rest => some (.table .braces [], rest)
        | rest =>
          (scanEntries (depth - 1) fuel [] rest).map fun (entries, rest) =>
            (.table .braces entries, rest)
    | '"' :: _ | '\'' :: _ => (scanText cs).map fun (s, rest) => (.leaf (.text s), rest)
    | cs =>
      let (word, rest) := token cs
      (plain? word).map fun s => (.leaf s, rest)

/-- Reads the items of an array up to its closing bracket; the last one may be followed by a
comma. -/
def scanItems (depth : Nat) : (fuel : Nat) → Input → Option Input
  | 0, _ => none
  | fuel + 1, cs =>
    match skipLines cs.length cs with
    | ']' :: rest => some rest
    | cs => do
      let (_, rest) ← scanValue depth fuel cs
      match skipLines rest.length rest with
      | ',' :: rest => scanItems depth fuel rest
      | ']' :: rest => some rest
      | _ => none

/-- Reads the entries of a table in braces up to the closing one. -/
def scanEntries (depth : Nat) : (fuel : Nat) → Entries → Input → Option (Entries × Input)
  | 0, _, _ => none
  | fuel + 1, entries, cs => do
    let (path, rest) ← scanKey cs
    let '=' :: rest := rest | none
    let (v, rest) ← scanValue depth fuel (skipBlanks rest)
    let entries ← assign path v entries
    match skipBlanks rest with
    | ',' :: rest => scanEntries depth fuel entries rest
    | '\x7d' :: rest => some (entries, rest)
    | _ => none

end

/-! ### Documents -/

/-- Reads a header after its opening brackets, and the brackets and the line end after it. -/
def scanHeader (double : Bool) (cs : Input) : Option (List String × Input) := do
  let (path, rest) ← scanKey cs
  let ']' :: rest := rest | none
  match double, rest with
  | false, rest => return (path, ← endLine rest)
  | true, ']' :: rest => return (path, ← endLine rest)
  | true, _ => none

def scanDocument : (fuel : Nat) → (header : List String) → Node → Input → Option Node
  | 0, _, _, _ => none
  | fuel + 1, header, root, cs =>
    match skipLines cs.length cs with
    | [] => some root
    | '[' :: '[' :: rest => do
      let (path, rest) ← scanHeader true rest
      scanDocument fuel path (← openItem path root) rest
    | '[' :: rest => do
      let (path, rest) ← scanHeader false rest
      scanDocument fuel path (← openTable path root) rest
    | cs => do
      let (path, rest) ← scanKey cs
      let '=' :: rest := rest | none
      let rest := skipBlanks rest
      let (v, rest) ← scanValue maxDepth (rest.length + 1) rest
      scanDocument fuel header (← assignAt header path v root) (← endLine rest)

def parse (text : String) : Option (List (String × Setting)) :=
  let cs := Text.withoutMark text.toList
  match scanDocument (cs.length + 1) [] (.table .header []) cs with
  | some (.table _ entries) => some (entries.map fun (key, n) => (key, n.setting))
  | _ => none

end ProcEngine.Toml
