/-!
# Kinds

`Kind` says what a value is. `ParamKind` says what a parameter asks for; it does not tell integers
from floats.
-/

namespace ProcEngine

inductive Kind
  | null
  | int
  | float
  | text
  | object
  | proc
  deriving DecidableEq

def Kind.name : Kind → String
  | null => "null"
  | int => "int"
  | float => "float"
  | text => "text"
  | object => "object"
  | proc => "proc"

inductive ParamKind
  | num
  | text
  | obj
  | proc
  deriving DecidableEq

/-- The kind that a parameter has to list for a value of this kind to be accepted; null needs
none. -/
def Kind.paramKind? : Kind → Option ParamKind
  | null => none
  | int | float => some .num
  | text => some .text
  | object => some .obj
  | proc => some .proc

def ParamKind.bit : ParamKind → Nat
  | num => 1
  | text => 2
  | obj => 4
  | proc => 8

/-- The kinds that one parameter lists. An empty list accepts anything. -/
structure KindSet where
  listed : List ParamKind
  deriving DecidableEq

namespace KindSet

def any : KindSet := ⟨[]⟩

def accepts (s : KindSet) (k : Kind) : Bool :=
  match k.paramKind? with
  | none => true
  | some p => s.listed.isEmpty || s.listed.contains p

/-- The set as a number: the sum of the bits of the kinds in it. -/
def bits (s : KindSet) : Nat :=
  ([.num, .text, .obj, .proc].filter s.listed.contains).foldl (fun n k => n + k.bit) 0

end KindSet

end ProcEngine
