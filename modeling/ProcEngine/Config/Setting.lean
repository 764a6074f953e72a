import ProcEngine.Decimal.Text
/-!
# Settings

A setting is a value that a configuration source gives to a name. Sources differ in what they can
say, so a setting is taken for a word or a text as far as that makes sense: a word may be given as a
text, a truth value or a float, which is rounded.
-/

namespace ProcEngine

inductive Setting
  | null
  | bool (b : Bool)
  | int (i : Int64)
  | float (x : Float)
  | text (s : String)
  | list
  | table

namespace Setting

def digitsOf? (cs : List Char) : Option Nat :=
  if cs.isEmpty || !cs.all (fun c => '0' ≤ c && c ≤ '9') then none
  else some (cs.foldl (fun n c => n * 10 + (c.toNat - '0'.toNat)) 0)

def signed : List Char → Bool × List Char
  | '-' :: rest => (true, rest)
  | '+' :: rest => (false, rest)
  | cs => (false, cs)

def int? (s : String) : Option Int64 := do
  let (negative, rest) := signed s.toList
  let n ← digitsOf? rest
  if negative then if n ≤ UInt64.size / 2 then some (Int64.ofInt (-n)) else none
  else if n < UInt64.size / 2 then some (Int64.ofInt n) else none

/-- A word may carry a plus sign. -/
def word? (s : String) : Option UInt64 := do
  let n ← match s.toList with
    | '+' :: rest => digitsOf? rest
    | cs => digitsOf? cs
  if n < UInt64.size then some (UInt64.ofNat n) else none

def lower (s : String) : String := String.ofList (s.toList.map Char.toLower)

/-- The exponent at the end of a float, zero if there is none. -/
def exponent? : List Char → Option Int
  | [] => some 0
  | e :: rest => do
    guard (e == 'e' || e == 'E')
    let (negative, rest) := signed rest
    let n ← digitsOf? rest
    return if negative then -(n : Int) else n

/-- `m * 10 ^ e`, kept from growing without need where it is zero or infinite anyway. -/
def scaled (m : Nat) (e : Int) : Float :=
  if m = 0 then 0
  else if e < -20000 then 0
  else if 20000 < e then 1.0 / 0.0
  else if e < 0 then Float.ofScientific m true e.natAbs
  else Float.ofScientific m false e.toNat

def isDigit (c : Char) : Bool := '0' ≤ c && c ≤ '9'

/-- A decimal with a digit at least on one side of its point. -/
def decimal? (cs : List Char) : Option Float := do
  let whole := cs.takeWhile isDigit
  let rest := cs.dropWhile isDigit
  let (fraction, rest) := match rest with
    | '.' :: rest => (rest.takeWhile isDigit, rest.dropWhile isDigit)
    | rest => ([], rest)
  let m ← digitsOf? (whole ++ fraction)
  let e ← exponent? rest
  return scaled m (e - fraction.length)

def float? (s : String) : Option Float := do
  let (negative, rest) := signed s.toList
  let x ← match lower (String.ofList rest) with
    | "inf" | "infinity" => some (1.0 / 0.0)
    | "nan" => some (0.0 / 0.0)
    | _ => decimal? rest
  return if negative then -x else x

/-- What a bare text is taken for: a truth value, an integer or a float if it reads as one. -/
def ofText (s : String) : Setting :=
  match lower s, int? s, float? s with
  | "true", _, _ => bool true
  | "false", _, _ => bool false
  | _, some i, _ => int i
  | _, none, some x => float x
  | _, none, none => text s

def toWord? : Setting → Option UInt64
  | bool b => some (if b then 1 else 0)
  | int i => if i < 0 then none else some (UInt64.ofNat i.toInt.toNat)
  | float x => some x.round.toUInt64
  | text s =>
    match lower s with
    | "true" | "on" | "yes" => some 1
    | "false" | "off" | "no" => some 0
    | _ => word? s
  | null | list | table => none

def toText? : Setting → Option String
  | bool b => some (if b then "true" else "false")
  | int i => some (toString i.toInt)
  | float x => some (Decimal.text .plain x)
  | text s => some s
  | null | list | table => none

end Setting

end ProcEngine
