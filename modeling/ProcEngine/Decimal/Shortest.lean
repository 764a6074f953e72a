/-!
# Shortest decimals

The decimal with the fewest digits that reads back as a given binary64 number, and of those the
nearest to it. A positive number is `mantissa * 2 ^ exponent`; the reals that round to it form an
interval around it, whose ends count exactly when the mantissa is even. For one digit, two digits
and so on, the two neighbours of the number on that decimal grid are tried: if any point of a grid
lies in the interval, then one of those two does, so the first grid with a hit has the fewest
digits.

All comparisons are exact, in natural numbers.
-/

namespace ProcEngine.Decimal

structure Shortest where
  digits : Nat
  exponent : Int
  deriving DecidableEq

/-- A positive binary64 number, `mantissa * 2 ^ exponent`. -/
structure Binary where
  mantissa : Nat
  exponent : Int
  /-- Whether the next smaller number is only half as far away as the next larger one. -/
  closeBelow : Bool

def leadingBit : Nat := 0x10000000000000

def Binary.ofBits (bits : UInt64) : Binary :=
  let fraction : Nat := bits.toNat % leadingBit
  let biased : Nat := bits.toNat / leadingBit % 2048
  if biased = 0 then ⟨fraction, -1074, false⟩
  else ⟨fraction + leadingBit, (biased : Int) - 1075, fraction = 0 && biased != 1⟩

/-- A ratio of natural numbers, the exact form of a number in units of a power of ten. -/
structure Ratio where
  num : Nat
  den : Nat

/-- `m * 2 ^ e / 10 ^ k`. -/
def Ratio.ofBinary (m : Nat) (e k : Int) : Ratio :=
  ⟨m * Nat.pow 2 e.toNat * Nat.pow 10 (-k).toNat, Nat.pow 2 (-e).toNat * Nat.pow 10 k.toNat⟩

def Ratio.lt (a b : Ratio) : Bool := a.num * b.den < b.num * a.den

def Ratio.le (a b : Ratio) : Bool := a.num * b.den ≤ b.num * a.den

def Binary.covers (b : Binary) (n : Nat) (k : Int) : Bool :=
  let low := Ratio.ofBinary (4 * b.mantissa - if b.closeBelow then 1 else 2) (b.exponent - 2) k
  let high := Ratio.ofBinary (4 * b.mantissa + 2) (b.exponent - 2) k
  if b.mantissa % 2 = 0 then low.le ⟨n, 1⟩ && Ratio.le ⟨n, 1⟩ high
  else low.lt ⟨n, 1⟩ && Ratio.lt ⟨n, 1⟩ high

/-- The neighbour of `b` on the grid of multiples of `10 ^ k` that reads back as `b`, the nearer one
if both do and the upper one if they are equally near. -/
def Binary.onGrid? (b : Binary) (k : Int) : Option Nat :=
  let value := Ratio.ofBinary b.mantissa b.exponent k
  let below := value.num / value.den
  let above := below + 1
  match b.covers below k, b.covers above k with
  | true, false => some below
  | false, true => some above
  | true, true => if 2 * (value.num % value.den) < value.den then some below else some above
  | false, false => none

def scaleUp (num den : Nat) : (bound : Nat) → Nat
  | 0 => 0
  | bound + 1 => if den ≤ num * 10 then 1 else scaleUp (num * 10) den bound + 1

/-- The largest `e` with `10 ^ e ≤ b`; no number is below `10 ^ (-324)`. -/
def Binary.leading (b : Binary) : Int :=
  let whole := Ratio.ofBinary b.mantissa b.exponent 0
  if whole.den ≤ whole.num then ((Nat.toDigits 10 (whole.num / whole.den)).length : Int) - 1
  else -(scaleUp whole.num whole.den 324 : Int)

/-- Tries grids of `n`, `n + 1`, … digits. A hit on the next power of ten has one digit less. -/
def Binary.search (b : Binary) (leading : Int) : (grids n : Nat) → Shortest
  | 0, _ => ⟨b.mantissa, b.exponent⟩
  | grids + 1, n =>
    let k := leading - n + 1
    match b.onGrid? k with
    | some d => if d = Nat.pow 10 n then ⟨Nat.pow 10 (n - 1), k + 1⟩ else ⟨d, k⟩
    | none => b.search leading grids (n + 1)

def Binary.shortest (b : Binary) : Shortest := b.search b.leading 17 1

end ProcEngine.Decimal
