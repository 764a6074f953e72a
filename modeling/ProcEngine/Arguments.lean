import ProcEngine.Value
/-!
# Arguments

A call passes values by position and by parameter name. Binding lays them out in parameter order:
positional values beyond the last parameter are kept, parameters that nothing was passed for are
null, and a value passed by name wins over one in the same position.
-/

namespace ProcEngine

abbrev Names (α : Type) := Std.ExtTreeMap String α

structure Signature where
  name : String
  params : List String := []
  /-- The kinds of the first parameters; a parameter beyond the list takes anything. -/
  kinds : List KindSet := []

structure Arguments where
  positional : List Value := []
  named : Names Value := ∅

namespace Arguments

def size (a : Arguments) : Nat := a.positional.length + a.named.size

def isEmpty (a : Arguments) : Bool := a.size == 0

/-- The positional argument at `i`, null if none was passed. -/
def get (a : Arguments) (i : Nat) : Value := a.positional[i]?.getD .null

/-- A name passed that is no parameter. -/
def stray? (a : Arguments) (sig : Signature) : Option String :=
  a.named.keys.find? fun name => !sig.params.contains name

/-- The value bound at `i`. Where two parameters share a name, the first one gets the named
value. -/
def slot (a : Arguments) (sig : Signature) (i : Nat) : Value :=
  match sig.params[i]? with
  | some name => if sig.params.idxOf name = i then a.named[name]?.getD (a.get i) else a.get i
  | none => a.get i

def layout (a : Arguments) (sig : Signature) : List Value :=
  (List.range (max sig.params.length a.positional.length)).map (a.slot sig)

/-- The first value that its parameter refuses, with its index. -/
def refused? (kinds : List KindSet) (bound : List Value) : Option (Nat × Value) :=
  ((kinds.zip bound).zipIdx.find? fun p => !p.1.1.admits p.1.2).map fun p => (p.2, p.1.2)

def bind (a : Arguments) (sig : Signature) : Except Fault (List Value) :=
  match a.stray? sig with
  | some name => .error (.unknownArgument sig.name name)
  | none =>
    match refused? sig.kinds (a.layout sig) with
    | some (i, v) => .error (.typeMismatch (.argument sig.params[i]? sig.name v.kind))
    | none => .ok (a.layout sig)

end Arguments

end ProcEngine
