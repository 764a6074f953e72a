import ProcEngine.Json.Basic
/-!
# Reading JSON

A strict reader: no comments, no trailing commas, no leading zeros, nothing but blanks around the
value. Every function takes what is left of the text and gives what is left after it.
-/

namespace ProcEngine.Json

abbrev Input := List Char

def isBlank (c : Char) : Bool := c == ' ' || c == '\n' || c == '\t' || c == '\r'

def skipBlanks : Input → Input := List.dropWhile isBlank

/-! ### Strings -/

def hexDigit? (c : Char) : Option Nat :=
  if '0' ≤ c && c ≤ '9' then some (c.toNat - '0'.toNat)
  else if 'a' ≤ c && c ≤ 'f' then some (c.toNat - 'a'.toNat + 10)
  else if 'A' ≤ c && c ≤ 'F' then some (c.toNat - 'A'.toNat + 10)
  else none

def hex4? (a b c d : Char) : Option Nat := do
  return ((← hexDigit? a) * 16 + (← hexDigit? b)) * 256 + (← hexDigit? c) * 16 + (← hexDigit? d)

def escape? : Char → Option Char
  | '"' => some '"'
  | '\\' => some '\\'
  | '/' => some '/'
  | 'b' => some '\x08'
  | 'f' => some '\x0c'
  | 'n' => some '\n'
  | 'r' => some '\r'
  | 't' => some '\t'
  | _ => none

/-- A string as far as it has been read, the last character first. -/
structure Scanned where
  chars : List Char := []
  /-- The first half of a surrogate pair, if it was the last thing read. -/
  half : Option Nat := none
  /-- Whether a half has been left without its other half. -/
  broken : Bool := false

def Scanned.char (s : Scanned) (c : Char) : Scanned :=
  { chars := c :: s.chars, half := none, broken := s.broken || s.half.isSome }

/-- Takes a code unit that was written by number. -/
def Scanned.unit (s : Scanned) (n : Nat) : Scanned :=
  if 0xD800 ≤ n && n < 0xDC00 then { s with half := some n, broken := s.broken || s.half.isSome }
  else if 0xDC00 ≤ n && n < 0xE000 then
    match s.half with
    | some high =>
      { s with
        chars := Char.ofNat (0x10000 + (high - 0xD800) * 0x400 + (n - 0xDC00)) :: s.chars
        half := none }
    | none => { s with broken := true }
  else s.char (Char.ofNat n)

def Scanned.value (s : Scanned) : Option String :=
  if s.broken || s.half.isSome then none else some (String.ofList s.chars.reverse)

/-- Reads a string whose opening quote has been read. -/
def scanString (s : Scanned) : Input → Option (Option String × Input)
  | '"' :: rest => some (s.value, rest)
  | '\\' :: 'u' :: a :: b :: c :: d :: rest =>
    match hex4? a b c d with
    | some n => scanString (s.unit n) rest
    | none => none
  | '\\' :: c :: rest =>
    match escape? c with
    | some e => scanString (s.char e) rest
    | none => none
  | c :: rest => if c.toNat < 0x20 then none else scanString (s.char c) rest
  | [] => none

/-! ### Numbers -/

def isDigit (c : Char) : Bool := '0' ≤ c && c ≤ '9'

def digits (cs : Input) : List Nat × Input :=
  ((cs.takeWhile isDigit).map fun c => c.toNat - '0'.toNat, cs.dropWhile isDigit)

/-- A whole part has no leading zero. -/
def scanWhole (cs : Input) : Option (List Nat × Input) :=
  match digits cs with
  | ([], _) => none
  | (0 :: _ :: _, _) => none
  | scanned => some scanned

def scanFraction : Input → Option (Option (List Nat) × Input)
  | '.' :: rest =>
    match digits rest with
    | ([], _) => none
    | (ds, rest) => some (some ds, rest)
  | cs => some (none, cs)

def scanSign : Input → Bool × Input
  | '-' :: rest => (true, rest)
  | '+' :: rest => (false, rest)
  | cs => (false, cs)

def scanExponent : Input → Option (Option (Bool × List Nat) × Input)
  | c :: rest =>
    if c == 'e' || c == 'E' then
      let (negative, rest) := scanSign rest
      match digits rest with
      | ([], _) => none
      | (ds, rest) => some (some (negative, ds), rest)
    else some (none, c :: rest)
  | [] => some (none, [])

def scanNumber (negative : Bool) (cs : Input) : Option (Json × Input) := do
  let (whole, cs) ← scanWhole cs
  let (fraction, cs) ← scanFraction cs
  let (exponent, cs) ← scanExponent cs
  return (match Numeral.value? { negative, whole, fraction, exponent } with
    | some n => number n
    | none => unreadable, cs)

/-! ### Values -/

def scanKeyword (word : List Char) (j : Json) (cs : Input) : Option (Json × Input) :=
  if word.isPrefixOf cs then some (j, cs.drop word.length) else none

def ofScanned : Option String → Json
  | some s => string s
  | none => unreadable

mutual

def scanValue : (fuel : Nat) → Input → Option (Json × Input)
  | 0, _ => none
  | fuel + 1, cs =>
    match cs with
    | '"' :: rest => (scanString {} rest).map fun (s, rest) => (ofScanned s, rest)
    | '[' :: rest =>
      match skipBlanks rest with
      | ']' :: rest => some (array [], rest)
      | rest => (scanItems fuel rest).map fun (items, rest) => (array items, rest)
    | '\x7b' :: rest =>
      match skipBlanks rest with
      | '\x7d' :: rest => some (object [], rest)
      | rest => (scanMembers fuel rest).map fun (members, rest) => (object members, rest)
    | 'n' :: _ => scanKeyword "null".toList null cs
    | 't' :: _ => scanKeyword "true".toList (bool true) cs
    | 'f' :: _ => scanKeyword "false".toList (bool false) cs
    | '-' :: rest => scanNumber true rest
    | cs => scanNumber false cs

/-- Reads the items of an array that has at least one, up to its closing bracket. -/
def scanItems : (fuel : Nat) → Input → Option (List Json × Input)
  | 0, _ => none
  | fuel + 1, cs => do
    let (item, rest) ← scanValue fuel cs
    match skipBlanks rest with
    | ',' :: rest =>
      let (items, rest) ← scanItems fuel (skipBlanks rest)
      return (item :: items, rest)
    | ']' :: rest => return ([item], rest)
    | _ => none

/-- Reads the members of an object that has at least one, up to its closing brace. -/
def scanMembers : (fuel : Nat) → Input → Option (List (Option String × Json) × Input)
  | 0, _ => none
  | fuel + 1, cs => do
    let '"' :: rest := cs | none
    let (key, rest) ← scanString {} rest
    let ':' :: rest := skipBlanks rest | none
    let (value, rest) ← scanValue fuel (skipBlanks rest)
    match skipBlanks rest with
    | ',' :: rest =>
      let (members, rest) ← scanMembers fuel (skipBlanks rest)
      return ((key, value) :: members, rest)
    | '\x7d' :: rest => return ([(key, value)], rest)
    | _ => none

end

/-- Reads a whole text. Every level and every item takes a character at least, so the length of the
text bounds both. -/
def parse (text : String) : Option Json :=
  let cs := text.toList
  match scanValue (2 * cs.length + 2) (skipBlanks cs) with
  | some (j, rest) => if (skipBlanks rest).isEmpty then some j else none
  | none => none

end ProcEngine.Json
