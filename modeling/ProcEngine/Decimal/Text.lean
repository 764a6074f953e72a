import ProcEngine.Decimal.Shortest
/-!
# The text of a binary64 number

A number is written with its shortest decimal. `Layout` holds what the two written forms decide
differently: `plain` never uses an exponent and writes a whole number without a point, `literal`
always keeps a digit after the point and turns to an exponent from `1e16` on and below `1e-4`.
-/

namespace ProcEngine.Decimal

structure Layout where
  /-- What follows the digits of a whole number. -/
  whole : String
  /-- Whether a number whose leading digit stands for `10 ^ e` is written with an exponent. -/
  exponential : Int → Bool

def Layout.plain : Layout := ⟨"", fun _ => false⟩

def Layout.literal : Layout := ⟨".0", fun e => 16 ≤ e || e < -4⟩

def zeros (n : Nat) : String := String.ofList (List.replicate n '0')

/-- `digits * 10 ^ exponent` without an exponent. -/
def positional (layout : Layout) (digits : String) (exponent : Int) : String :=
  let point := (digits.length : Int) + exponent
  if 0 ≤ exponent then digits ++ zeros exponent.toNat ++ layout.whole
  else if point ≤ 0 then "0." ++ zeros (-point).toNat ++ digits
  else (digits.take point.toNat).toString ++ "." ++ (digits.drop point.toNat).toString

/-- `d.ddde±x`, without a point if there is one digit. -/
def exponential (digits : String) (leading : Int) : String :=
  let tail := (digits.drop 1).toString
  (digits.take 1).toString ++ (if tail.isEmpty then "" else "." ++ tail) ++ s!"e{leading}"

def magnitude (layout : Layout) (s : Shortest) : String :=
  let digits := toString s.digits
  let leading := (digits.length : Int) + s.exponent - 1
  if layout.exponential leading then exponential digits leading
  else positional layout digits s.exponent

def text (layout : Layout) (x : Float) : String :=
  let bits := x.toBits
  let sign := if 0x8000000000000000 ≤ bits then "-" else ""
  if x.isNaN then "NaN"
  else if x.isInf then sign ++ "inf"
  else if x == 0 then sign ++ "0" ++ layout.whole
  else sign ++ magnitude layout (Binary.ofBits bits).shortest

example : text .plain 0.1 = "0.1" := by decide +kernel
example : text .plain 100 = "100" := by decide +kernel
example : text .literal 1e16 = "1e16" := by decide +kernel
example : text .literal (-0.00001) = "-1e-5" := by decide +kernel

end ProcEngine.Decimal
