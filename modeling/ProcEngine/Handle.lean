import Std.Data.ExtTreeMap
/-!
# Handles

What values and tables use to name an object, a proc or a context. A handle owns nothing: an object
handle carries the generation its slot had when the object was allocated, so that it stops resolving
once the slot is freed, whatever the slot holds later.
-/

namespace ProcEngine

structure ObjectRef where
  index : UInt32
  generation : UInt32
  deriving DecidableEq, Inhabited

/-- Two handles are the same proc exactly when their ids agree; the name is carried along for
display. -/
structure ProcRef where
  id : Nat
  name : String
  deriving DecidableEq, Inhabited

/-- Contexts are numbered from 1 in the order of their creation. -/
abbrev ContextId := Nat

/-- Handles are ordered by slot, then by generation. -/
instance : Ord ObjectRef :=
  ⟨compareLex (compareOn ObjectRef.index) (compareOn ObjectRef.generation)⟩

instance : Std.TransOrd ObjectRef :=
  inferInstanceAs
    (Std.TransCmp (compareLex (compareOn ObjectRef.index) (compareOn ObjectRef.generation)))

instance : Std.LawfulEqOrd ObjectRef where
  compare_self {a} := by
    change (compare a.index a.index).then (compare a.generation a.generation) = .eq
    simp
  eq_of_compare {a b} h := by
    obtain ⟨i, g⟩ := a
    obtain ⟨j, k⟩ := b
    change (compare i j).then (compare g k) = .eq at h
    rw [Ordering.then_eq_eq] at h
    rw [Std.LawfulEqCmp.eq_of_compare h.1, Std.LawfulEqCmp.eq_of_compare h.2]

def hexadecimal (n : Nat) : String := String.ofList (Nat.toDigits 16 n)

def ObjectRef.text (o : ObjectRef) : String :=
  s!"[0x{hexadecimal o.index.toNat}:{o.generation.toNat}]"

def ContextId.text (c : ContextId) : String := s!"ctx#{c}"

example : (ObjectRef.mk 26 3).text = "[0x1a:3]" := by decide +kernel

end ProcEngine
