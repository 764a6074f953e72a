import ProcEngine.Proofs.Carried
import ProcEngine.Proofs.Object.Faithful
/-!
# The definitions that a table knows

Those of the registered types, and those of the objects, whose types need not be registered any
more. Working on the objects makes no new ones.
-/

namespace ProcEngine.ObjectTable

inductive Defines (t : ObjectTable) (d : Definition) : Prop
  | registered {path : String} : t.types[path]? = some d → Defines t d
  | inhabited {slot : Slot} {object : Object} : slot ∈ t.slots → object ∈ slot.object →
    object.definition = d →
    Defines t d

variable {t t' : ObjectTable} {o : ObjectRef} {d : Definition}

theorem definition_eq_ok : t.definition o = .ok d ↔ ∃ object, t.get? o = some object ∧
    object.definition = d := by
  simp only [ObjectTable.definition, ObjectTable.get]
  cases t.get? o with
  | none => simp [bind, Except.bind]
  | some object => simp [bind, Except.bind, pure, Except.pure]

theorem mem_modifySlot {index : UInt32} {f : Slot → Slot} {slot : Slot}
    (h : slot ∈ (t.modifySlot index f).slots) :
    slot ∈ t.slots ∨ ∃ old ∈ t.slots, slot = f old := by
  obtain ⟨i, hi⟩ := Array.mem_iff_getElem?.mp h
  rw [modifySlot, Array.getElem?_modify] at hi
  split at hi
  · obtain ⟨old, hold, rfl⟩ := Option.map_eq_some_iff.mp hi
    exact Or.inr ⟨old, Array.mem_of_getElem? hold, rfl⟩
  · exact Or.inl (Array.mem_of_getElem? hi)

namespace Defines

theorem of_get? {object : Object} (h : t.get? o = some object) : t.Defines object.definition := by
  simp only [get?] at h
  split at h
  · rename_i slot hslot
    split at h
    · exact .inhabited (Array.mem_of_getElem? hslot) h rfl
    · cases h
  · cases h

theorem of_stored {name : String} {q : Object × Value} (h : t.stored o name = .ok q) :
    t.Defines q.1.definition :=
  of_get? (t.get?_of_stored h)

theorem of_definition (h : t.definition o = .ok d) : t.Defines d := by
  obtain ⟨object, hobject, rfl⟩ := definition_eq_ok.mp h
  exact of_get? hobject

/-- A table with the same types knows no more if whatever is in its slots is known. -/
theorem of_slots (h : t'.Defines d) (htypes : t'.types = t.types)
    (hslots : ∀ slot ∈ t'.slots, ∀ object ∈ slot.object, t.Defines object.definition) :
    t.Defines d := by
  cases h with
  | registered hd => exact .registered (htypes ▸ hd)
  | inhabited hslot hobject hd => exact hd ▸ hslots _ hslot _ hobject

theorem of_modifySlot {index : UInt32} {f : Slot → Slot} (h : (t.modifySlot index f).Defines d)
    (hf : ∀ slot ∈ t.slots, ∀ object ∈ (f slot).object, t.Defines object.definition) :
    t.Defines d := by
  refine h.of_slots rfl fun slot hslot object hobject => ?_
  obtain hslot | ⟨old, hold, rfl⟩ := mem_modifySlot hslot
  · exact .inhabited hslot hobject rfl
  · exact hf old hold object hobject

theorem of_assign {name : String} {v : Value} (h : (t.assign o name v).Defines d) :
    t.Defines d := by
  refine h.of_modifySlot fun slot hslot object hobject => ?_
  obtain ⟨old, hold, rfl⟩ := Option.map_eq_some_iff.mp hobject
  exact .inhabited hslot hold rfl

theorem of_retire (h : (t.retire o).Defines d) : t.Defines d := by
  have hdropped : (t.dropId o).types = t.types ∧ (t.dropId o).slots = t.slots := by
    rw [dropId]
    split <;> exact ⟨rfl, rfl⟩
  have hfreed : ((t.dropId o).modifySlot o.index
      fun slot => { generation := slot.generation + 1, object := none }).Defines d :=
    h.of_slots rfl fun slot hslot object hobject => .inhabited hslot hobject rfl
  refine (hfreed.of_modifySlot fun slot _ object hobject => by cases hobject).of_slots hdropped.1 ?_
  rw [hdropped.2]
  exact fun slot hslot object hobject => .inhabited hslot hobject rfl

theorem of_takeSlot (h : t.takeSlot.2.Defines d) : t.Defines d := by
  rw [takeSlot] at h
  split at h
  · exact h.of_slots rfl fun slot hslot object hobject => .inhabited hslot hobject rfl
  · refine h.of_slots rfl fun slot hslot object hobject => ?_
    obtain hslot | rfl := Array.mem_push.mp hslot
    · exact .inhabited hslot hobject rfl
    · cases hobject

theorem of_allocate {path : String} {q : ObjectRef × ObjectTable} (hq : t.allocate path = .ok q)
    (h : q.2.Defines d) :
    t.Defines d := by
  simp only [ObjectTable.allocate, type] at hq
  split at hq <;> cases hq
  rename_i d' hd'
  have htypes : t.takeSlot.2.types = t.types := by
    rw [takeSlot]
    split <;> rfl
  refine of_takeSlot (h.of_modifySlot fun slot _ object hobject => ?_)
  cases hobject
  exact .registered (htypes ▸ hd')

theorem of_referenceId {q : UInt32 × ObjectTable} (hq : t.referenceId o = .ok q)
    (h : q.2.Defines d) :
    t.Defines d := by
  obtain ⟨object, _, hq⟩ := Except.of_bind_eq_ok hq
  split at hq <;> cases hq
  · exact h
  · exact h.of_slots rfl fun slot hslot object hobject => .inhabited hslot hobject rfl

end Defines

/-- Whatever is done to the objects, no more definitions become known. -/
theorem Evolves.defines (h : t.Evolves t') (hd : t'.Defines d) : t.Defines d := by
  induction h with
  | refl => exact hd
  | tail _ hchange ih =>
    cases hchange with
    | assign => exact ih hd.of_assign
    | retire => exact ih hd.of_retire
    | allocate hq => exact ih (.of_allocate hq hd)
    | referenceId hq => exact ih (.of_referenceId hq hd)

end ProcEngine.ObjectTable
