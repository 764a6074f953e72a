/-!
# Between integers and floats

Widening rounds to the nearest float, to the even one of two equally near. Narrowing drops the
fraction, takes what lies outside the range to its nearer end, and takes a number that is not one to
zero.
-/

namespace ProcEngine

def widen (i : Int64) : Float :=
  if i < 0 then -(UInt64.ofNat i.toInt.natAbs).toFloat else (UInt64.ofNat i.toInt.natAbs).toFloat

def narrow (x : Float) : Int64 :=
  if x < 0 then
    let n := (-x).toUInt64
    if n < 0x8000000000000000 then Int64.ofInt (-(n.toNat : Int)) else Int64.minValue
  else
    let n := x.toUInt64
    if n < 0x8000000000000000 then Int64.ofInt n.toNat else Int64.maxValue

example : (widen 9007199254740993).toBits = 0x4340000000000000 := by decide +kernel
example : narrow (-2.75) = -2 ∧ narrow 1e300 = Int64.maxValue ∧ narrow (0.0 / 0.0) = 0 := by
  decide +kernel
example : narrow (widen Int64.maxValue) = Int64.maxValue ∧ narrow (widen Int64.minValue) =
    Int64.minValue := by decide +kernel

end ProcEngine
