import ProcEngine.Proofs.Object.Refinement
/-!
# Deletion and the hooks that run meanwhile

Between the time at which an object is found alive and the one at which its slot is freed the hook
of its deletion may do what it likes with the table. If it leaves the object alone, what is retired
then is that object and nothing else. If it deletes the object itself, the slot is freed a second
time, with whoever has come to live there.
-/

namespace ProcEngine

open History

def Store.condemning (s : Store) (o : ObjectRef) : Store :=
  { s with deeds := .condemned o :: s.deeds }

/-- What the end of a deletion does to the store that the hook has left: it retires the object, once
and alone. -/
structure Retires (o : ObjectRef) (s s' : Store) : Prop where
  alive : (s.objects.get? o).isSome
  once : (destroyed s'.deeds).count o = 1
  /-- The slot moves on by one generation and is vacant. -/
  slot : s'.objects.slots[o.index.toNat]? = some { generation := o.generation + 1, object := none }
  free : s'.objects.free = o.index :: s.objects.free
  free_nodup : s'.objects.free.Nodup
  others : ∀ o' ≠ o, s'.objects.get? o' = s.objects.get? o'
  /-- All the objects that there are have been made and not been deleted, and are counted. -/
  living : ∀ o', o' ∈ living s'.deeds ↔ (s'.objects.get? o').isSome
  size : s'.objects.size = (History.living s'.deeds).length

theorem Faithful.retires {s : Store} (hf : Faithful s.objects s.deeds) {o : ObjectRef}
    (halive : (s.objects.get? o).isSome)
    (htimes : timesFreed o.index (.destroyed o :: s.deeds) < 2 ^ 32) :
    Retires o s { s with objects := s.objects.retire o, deeds := .destroyed o :: s.deeds } := by
  have hretired := hf.destroyed halive htimes
  obtain ⟨object, ho⟩ := Option.isSome_iff_exists.mp halive
  obtain ⟨slot, hslot, hgeneration, _⟩ := s.objects.get?_eq_some.mp ho
  exact {
    alive := halive
    once := by
      show (o :: History.destroyed s.deeds).count o = 1
      rw [List.count_cons_self, List.count_eq_zero.mpr (hf.not_destroyed ho).2]
    slot := by
      rw [s.objects.retire_slot, if_pos rfl, hslot, Option.map_some, hgeneration]
    free := s.objects.retire_free o
    free_nodup := hretired.free_nodup
    others := fun o' hne => by rw [s.objects.get?_retire halive, if_neg hne]
    living := hretired.alive
    size := hretired.size }

namespace Store

variable {s s' : Store} {o : ObjectRef} {object : Object} {fuel : Nat}

/-- A deletion that succeeds has run its hook, and has then retired the object whatever had become
of it. -/
theorem delete_ok {serve : (r : TableRequest) → Act Store r.Answer}
    (hget : s.objects.get? o = some object)
    (h : delete serve o s = .ok () s') : ∃ s₁, deletion serve object.definition o (s.condemning o) =
      .ok () s₁ ∧
      s' = { s₁ with objects := s₁.objects.retire o, deeds := .destroyed o :: s₁.deeds } := by
  rw [delete_eq, hget] at h
  dsimp only at h
  rw [condemning]
  cases hrun : deletion serve object.definition o { s with deeds := .condemned o :: s.deeds } with
  | ok u s₁ =>
    rw [hrun] at h
    cases h
    exact ⟨s₁, rfl, rfl⟩
  | fault e s₁ | breach b s₁ | exhausted =>
    rw [hrun] at h
    cases h

/-- A deletion that succeeds retires its object once and nothing else, whatever the hooks do
meanwhile, unless an object is deleted while its deletion is under way. -/
theorem delete_retires_once (hf : Faithful s.objects s.deeds)
    (hget : s.objects.get? o = some object)
    (hdelete : serve (fuel + 1) (.delete o) s = .ok () s') (hslots : s'.objects.slots.size < 2 ^ 32)
    (hfreed : ∀ index, timesFreed index s'.deeds < 2 ^ 32) (honce : ¬ Reentrant s'.deeds) :
    ∃ s₁, deletion (serve fuel) object.definition o (s.condemning o) = .ok () s₁ ∧
      Retires o s₁ s' := by
  obtain ⟨s₁, hhook, rfl⟩ := delete_ok hget hdelete
  have hsound := (Sound.of_bounds hslots hfreed honce).before (s := s₁) (List.suffix_cons _ _)
    (Nat.le_of_eq (s₁.objects.retire_size o).symm)
  obtain ⟨hf₁, halive⟩ :=
    Mirrors.outlives (Mirrors.serve fuel) (Growing.serve fuel) hf hget hhook hsound
  exact ⟨s₁, hhook, hf₁.retires halive (hfreed o.index)⟩

/-! ### Two hooks -/

def mob (deleted : ObjectRef → Program TableCalls Unit) : Definition where
  path := "/mob"
  parent := none
  vars := (∅ : Names Value).insert "armed" (.int 1)
  procs := ∅
  initializer := none
  hooks := some { Hooks.none with deleted }

def holding (d : Definition) : Store where
  objects := (ObjectTable.allocateOf { types := (∅ : Names Definition).insert d.path d } d).2
  deeds := [.made ⟨0, 0⟩ d]

theorem holding_faithful (d : Definition) : Faithful (holding d).objects (holding d).deeds := by
  have hempty := Faithful.empty ((∅ : Names Definition).insert d.path d)
  exact hempty.made (hempty.takes d (by simp [ObjectTable.allocateOf, ObjectTable.takeSlot]))

def replace (_ : ObjectRef) : Program TableCalls Unit := do
  let _ : ObjectRef ← Program.request (i := TableCalls) (.allocate "/mob")

/-- Deletes the object that is being deleted, and allocates another one if it is to `refill` the
slot. The object is disarmed so that this ends. -/
def relapse (refill : Bool) (o : ObjectRef) : Program TableCalls Unit := do
  let armed : Value ← Program.request (i := TableCalls) (.read o "armed")
  if armed.isTruthy then
    Program.request (i := TableCalls) (.write o "armed" .null)
    Program.request (i := TableCalls) (.delete o)
    if refill then replace o

theorem replaced_mob_retires : ∃ s₁ s',
    serve 4 (.delete ⟨0, 0⟩) (holding (mob replace)) = .ok () s' ∧
    deletion (serve 3) (mob replace) ⟨0, 0⟩ ((holding (mob replace)).condemning ⟨0, 0⟩) =
      .ok () s₁ ∧
    Retires ⟨0, 0⟩ s₁ s' ∧ s'.objects.isAlive ⟨1, 0⟩ ∧ s'.objects.size = 1 := by
  let deeds : List Deed :=
    [.destroyed ⟨0, 0⟩, .made ⟨1, 0⟩ (mob replace), .condemned ⟨0, 0⟩, .made ⟨0, 0⟩ (mob replace)]
  let table : ObjectTable := {
    types := (∅ : Names Definition).insert "/mob" (mob replace)
    slots := #[⟨1, none⟩, ⟨0, some { definition := mob replace }⟩]
    free := [0] }
  have hfreed (index : UInt32) : timesFreed index deeds < 2 ^ 32 :=
    Nat.lt_of_le_of_lt List.countP_le_length (by decide)
  have hdelete : serve 4 (.delete ⟨0, 0⟩) (holding (mob replace)) = .ok ()
      { objects := table, deeds } := rfl
  obtain ⟨s₁, hhook, hretires⟩ :=
    delete_retires_once (holding_faithful (mob replace)) rfl hdelete (by decide) hfreed
    (by simp [deeds, Reentrant, dying])
  exact ⟨s₁, _, hdelete, hhook, hretires, rfl, rfl⟩

/-- If the hook deletes the object that is being deleted the slot is freed twice, and the next two
objects share it. Who has been allocated there meanwhile is lost, though nobody has deleted it. -/
theorem relapsed_mob_retires_twice :
    (∃ s', serve 9 (.delete ⟨0, 0⟩) (holding (mob (relapse false))) = .ok () s' ∧
      (destroyed s'.deeds).count ⟨0, 0⟩ = 2 ∧ s'.objects.slots[0]?.map Slot.generation = some 2 ∧
      s'.objects.free = [0, 0] ∧
      ∃ o t t', s'.objects.allocate "/mob" = .ok (o, t) ∧ t.allocate "/mob" = .ok (o, t')) ∧
    ∃ s', serve 9 (.delete ⟨0, 0⟩) (holding (mob (relapse true))) = .ok () s' ∧
      ⟨0, 1⟩ ∈ living s'.deeds ∧ ¬ s'.objects.isAlive ⟨0, 1⟩ :=
  ⟨⟨_, rfl, by decide, by decide +kernel, rfl, _, _, _, rfl, rfl⟩, _, rfl, by decide,
    by decide +kernel⟩

end Store

end ProcEngine
