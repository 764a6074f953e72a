/-!
# JSON numbers

A number is a word, a negative integer of 64 bits, or a float. Which one is decided by how it is
written: without a point and an exponent it is an integer if it fits and is not `-0`, and a float
otherwise.

A float is read the short way: the leading digits are gathered in a word as long as they fit, the
digits after that only move the point, and one multiplication or division by a power of ten gives
the result. It may therefore differ from the nearest float in its last digits.
-/

namespace ProcEngine.Json

inductive Number
  | nat (n : UInt64)
  | neg (i : Int64)
  | float (x : Float)
  deriving DecidableEq

/-- A number as it is written: the digits before the point, those after it, and the exponent. -/
structure Numeral where
  negative : Bool
  whole : List Nat
  fraction : Option (List Nat) := none
  /-- Whether the exponent is negative, and its digits. -/
  exponent : Option (Bool × List Nat) := none

structure Gathered where
  word : Nat := 0
  shift : Int := 0
  deriving DecidableEq

def fits (word digit : Nat) : Bool := word * 10 + digit < UInt64.size

/-- Once a digit before the point does not fit, it and all after it only shift. -/
def gatherWhole (g : Gathered) : List Nat → Gathered
  | [] => g
  | d :: rest =>
    if fits g.word d then gatherWhole { g with word := g.word * 10 + d } rest
    else { g with shift := g.shift + 1 + rest.length }

/-- Once a digit after the point does not fit, it and all after it are dropped. -/
def gatherFraction (g : Gathered) : List Nat → Gathered
  | [] => g
  | d :: rest =>
    if fits g.word d then gatherFraction { word := g.word * 10 + d, shift := g.shift - 1 } rest
    else g

def powerOfTen (n : Nat) : Float := Float.ofScientific 1 false n

/-- Divides by `10 ^ 308` as long as the exponent is below `-308`. -/
def scaleDown (x : Float) (shift : Nat) : (fuel : Nat) → Float
  | 0 => x
  | fuel + 1 =>
    if shift ≤ 308 then x / powerOfTen shift
    else if x == 0 then x
    else scaleDown (x / powerOfTen 308) (shift - 308) fuel

def Gathered.toFloat? (g : Gathered) : Option Float :=
  let x := (UInt64.ofNat g.word).toFloat
  if 0 ≤ g.shift then
    if g.shift ≤ 308 then
      let y := x * powerOfTen g.shift.toNat
      if y.isInf then none else some y
    else if x == 0 then some x else none
  else some (scaleDown x (-g.shift).toNat ((-g.shift).toNat / 308 + 1))

def natOfDigits (ds : List Nat) : Nat := ds.foldl (fun n d => n * 10 + d) 0

/-- Moves the point by the written exponent. An exponent beyond 32 bits gives zero or is out of
range. -/
def Gathered.scaled? (g : Gathered) : Option (Bool × List Nat) → Option Float
  | none => g.toFloat?
  | some (negative, digits) =>
    let e := natOfDigits digits
    if e < 0x80000000 then
      { g with shift := if negative then g.shift - e else g.shift + e }.toFloat?
    else if g.word = 0 || negative then some 0
    else none

def Numeral.value? (n : Numeral) : Option Number :=
  let g := gatherWhole {} n.whole
  let signed (x : Float) : Number := .float (if n.negative then -x else x)
  match n.fraction, n.exponent with
  | none, none =>
    if g.shift = 0 then
      if !n.negative then some (.nat (UInt64.ofNat g.word))
      else if g.word = 0 || UInt64.size / 2 < g.word then
        some (signed (UInt64.ofNat g.word).toFloat)
      else some (.neg (Int64.ofInt (-g.word)))
    else g.toFloat?.map signed
  | fraction, exponent => ((gatherFraction g (fraction.getD [])).scaled? exponent).map signed

end ProcEngine.Json
