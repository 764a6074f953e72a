import ProcEngine.Decimal.Text
import ProcEngine.Fault
import ProcEngine.Number
/-!
# Values

The values that script code computes with, their text, their order and their arithmetic. Two
integers stay integers and wrap; an integer beside a null is taken through a float and back; every
other mix of numbers gives a float.
-/

namespace ProcEngine

inductive Value
  | null
  | int (i : Int64)
  | float (x : Float)
  | text (s : String)
  | object (o : ObjectRef)
  | proc (p : ProcRef)
  deriving DecidableEq, Inhabited

namespace Value

def kind : Value → Kind
  | null => .null
  | int _ => .int
  | float _ => .float
  | text _ => .text
  | object _ => .object
  | proc _ => .proc

def ofBool (b : Bool) : Value := int (if b then 1 else 0)

def ofObject : Option ObjectRef → Value
  | none => null
  | some o => object o

def isNull : Value → Bool
  | null => true
  | _ => false

/-- Null, zero and the empty text are false; all else is true. -/
def isTruthy : Value → Bool
  | null => false
  | int i => i != 0
  | float x => x != 0
  | text s => !s.isEmpty
  | object _ | proc _ => true

def display : Value → String
  | null => "null"
  | int i => toString i.toInt
  | float x => Decimal.text .plain x
  | text s => s
  | object o => o.text
  | proc p => p.name

def asObject : Value → Except Fault ObjectRef
  | object o => .ok o
  | v => .error (.notAnObject v.kind)

def asInt : Value → Except Fault Int64
  | int i => .ok i
  | float x => .ok (narrow x)
  | null => .ok 0
  | v => .error (.typeMismatch (.notANumber v.kind))

def asFloat? : Value → Option Float
  | int i => some (widen i)
  | float x => some x
  | null => some 0
  | _ => none

/-- Whether a value counts as an integer beside a null or another integer. -/
def isIntegral : Value → Bool
  | int _ | null => true
  | _ => false

/-- Arithmetic by way of floats. -/
def viaFloat (op : Operator) (f : Float → Float → Float) (a b : Value) : Except Fault Value :=
  match a, b with
  | null, null => .ok (int 0)
  | a, b =>
    match a.asFloat?, b.asFloat? with
    | some x, some y =>
      .ok (if a.isIntegral && b.isIntegral then int (narrow (f x y)) else float (f x y))
    | _, _ => .error (.typeMismatch (.operands op a.kind b.kind))

/-- Adds numbers and joins texts; a null after a text is dropped. -/
def add : Value → Value → Except Fault Value
  | int a, int b => .ok (int (a + b))
  | text a, text b => .ok (text (a ++ b))
  | text a, null => .ok (text a)
  | a, b => viaFloat .add (· + ·) a b

def sub : Value → Value → Except Fault Value
  | int a, int b => .ok (int (a - b))
  | a, b => viaFloat .sub (· - ·) a b

def mul : Value → Value → Except Fault Value
  | int a, int b => .ok (int (a * b))
  | a, b => viaFloat .mul (· * ·) a b

/-- Texts by code point, numbers as floats. -/
def lessThan : Value → Value → Except Fault Bool
  | text a, text b => .ok (a < b)
  | a, b =>
    match a.asFloat?, b.asFloat? with
    | some x, some y => .ok (x < y)
    | _, _ => .error (.typeMismatch (.comparison a.kind b.kind))

/-- Equality as script code sees it: an integer equals a float of its value after rounding, a float
that is not a number equals nothing, and a proc is equal to itself alone. -/
def equals : Value → Value → Bool
  | null, null => true
  | int a, int b => a == b
  | int a, float b => widen a == b
  | float a, int b => widen b == a
  | float a, float b => a == b
  | text a, text b => a == b
  | object a, object b => a == b
  | proc a, proc b => a.id == b.id
  | _, _ => false

end Value

namespace KindSet

def admits (s : KindSet) (v : Value) : Bool := s.accepts v.kind

end KindSet

end ProcEngine
