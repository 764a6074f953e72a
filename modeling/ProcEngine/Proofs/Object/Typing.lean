import ProcEngine.Proofs.Object.Addressing
/-!
# An object keeps its type

A new object is of the type that it is allocated with and has no values of its own. It keeps the
type for as long as it lives; when it is gone its handle stays empty as long as the generations of
its slot do not come round.
-/

namespace ProcEngine

open History

/-- An object is of the type with which it was made. -/
theorem History.definition?_of_made {h h' : List Deed} {o : ObjectRef} {d : Definition}
    (hsuffix : .made o d :: h <:+ h') (hnodup : (made h').Nodup) : definition? o h' = some d := by
  have hmade : (made h').Nodup → o ∈ made h' ∧ definition? o h' = some d := by
    refine of_suffix (P := fun h' => (made h').Nodup → o ∈ made h' ∧ definition? o h' = some d)
      (fun deed h' ih hnodup => ?_) hsuffix fun _ =>
        ⟨List.mem_cons_self, by rw [definition?_made, if_pos rfl]⟩
    cases deed with
    | made o' d' =>
      obtain ⟨hnew, hnodup⟩ := List.nodup_cons.mp hnodup
      obtain ⟨ho, hd⟩ := ih hnodup
      refine ⟨List.mem_cons_of_mem _ ho, ?_⟩
      have hother : o' ≠ o := by
        rintro rfl
        exact hnew ho
      rw [definition?_made, if_neg hother, hd]
    | _ => exact ih hnodup
  exact (hmade hnodup).2

theorem ObjectTable.referenceId_slots {t t' : ObjectTable} {o : ObjectRef} {id : UInt32}
    (h : t.referenceId o = .ok (id, t')) : t'.free = t.free ∧ t'.slots = t.slots := by
  simp only [ObjectTable.referenceId, bind, Except.bind] at h
  (repeat' split at h) <;> cases h <;> exact ⟨rfl, rfl⟩

namespace Store

variable {s s' : Store} {o : ObjectRef} {d : Definition}

theorem table_of_referenceId {id : UInt32} (h : referenceId o s = .ok id s') :
    ∃ t, s.objects.referenceId o = .ok (id, t) ∧
      s' = { s with objects := t, deeds := .numbered o :: s.deeds } := by
  rw [referenceId_eq] at h
  cases hid : s.objects.referenceId o with
  | error e =>
    rw [hid] at h
    cases h
  | ok q =>
    rw [hid] at h
    cases h
    exact ⟨q.2, rfl, rfl⟩

/-! ### Slots -/

/-- What is to be used again and what is about to be freed lies in slots that there are. -/
structure Inside (s : Store) : Prop where
  free : ∀ i ∈ s.objects.free, i.toNat < s.objects.slots.size
  dying : ∀ o ∈ History.dying s.deeds, o.index.toNat < s.objects.slots.size

theorem size_le_allocateOf (t : ObjectTable) (d : Definition) :
    t.slots.size ≤ (t.allocateOf d).2.slots.size := by
  rw [show (t.allocateOf d).2.slots.size =
    t.takeSlot.2.slots.size from ObjectTable.size_modifySlot _ _ _,
    ObjectTable.takeSlot]
  split
  · exact Nat.le_refl _
  · rw [Array.size_push]
    exact Nat.le_succ _

theorem Turn.size_le (h : s.Turn s') : s.objects.slots.size ≤ s'.objects.slots.size := by
  cases h with
  | registered | noted | condemned | spared => exact Nat.le_refl _
  | allocated hrun =>
    rw [allocate_eq] at hrun
    split at hrun <;> cases hrun
    exact size_le_allocateOf _ _
  | @assigned o name q v hstored => exact Nat.le_of_eq (ObjectTable.size_modifySlot _ _ _).symm
  | numbered hrun =>
    obtain ⟨t, ht, rfl⟩ := table_of_referenceId hrun
    exact Nat.le_of_eq (congrArg Array.size (ObjectTable.referenceId_slots ht).2.symm)
  | destroyed => exact Nat.le_of_eq (s.objects.retire_size _).symm

theorem Turn.inside (h : s.Turn s') (hin : s.Inside) : s'.Inside := by
  have hsize := h.size_le
  have hfree {i : UInt32} (hi : i ∈ s.objects.free) := Nat.lt_of_lt_of_le (hin.free i hi) hsize
  have hdying {o : ObjectRef} (ho : o ∈ History.dying s.deeds) :=
    Nat.lt_of_lt_of_le (hin.dying o ho) hsize
  cases h with
  | registered | noted | assigned => exact ⟨fun _ => hfree, fun _ => hdying⟩
  | allocated hrun =>
    rw [allocate_eq] at hrun
    split at hrun <;> cases hrun
    exact ⟨fun i hi => hfree ((s.objects.takeSlot_inside hin.free).2.2 i hi), fun _ => hdying⟩
  | numbered hrun =>
    obtain ⟨t, ht, rfl⟩ := table_of_referenceId hrun
    exact ⟨fun i hi => hfree ((ObjectTable.referenceId_slots ht).1 ▸ hi), fun _ => hdying⟩
  | @condemned o halive =>
    obtain ⟨slot, hslot, _⟩ := s.objects.isAlive_iff.mp halive
    exact ⟨fun _ => hfree,
      List.forall_mem_cons.mpr ⟨(Array.getElem?_eq_some_iff.mp hslot).1, hin.dying⟩⟩
  | spared => exact ⟨fun _ => hfree, fun _ ho => hdying (List.mem_of_mem_erase ho)⟩
  | @destroyed o ho =>
    refine ⟨fun i hi => ?_, fun _ ho => hdying (List.mem_of_mem_erase ho)⟩
    obtain rfl | hi := List.mem_cons.mp (s.objects.retire_free o ▸ hi)
    · exact hdying ho
    · exact hfree hi

theorem Inside.passes (hin : s.Inside) (h : s.Passes s') : s'.Inside := by
  induction h with
  | refl => exact hin
  | tail _ hturn ih => exact hturn.inside ih

theorem Passes.inside (h : Passes {} s) : s.Inside :=
  Inside.passes ⟨by simp, by simp [History.dying]⟩ h

/-! ### Objects and what has been done to them -/

/-- The bounds within which the slots and their generations tell all objects apart. -/
structure Roomy (s : Store) : Prop where
  slots : s.objects.slots.size < 2 ^ 32
  freed : ∀ index, timesFreed index s.deeds < 2 ^ 32
  once : ¬ Reentrant s.deeds

theorem Turn.roomy (h : s.Turn s') (hroomy : s'.Roomy) : s.Roomy where
  slots := Nat.lt_of_le_of_lt h.size_le hroomy.slots
  freed index :=
    Nat.lt_of_le_of_lt ((destroyed_suffix h.deeds).sublist.countP_le) (hroomy.freed index)
  once hre := hroomy.once (hre.mono h.deeds)

/-- The objects are what has been made of them, and outlive the hooks of their deletions. -/
structure Orderly (s : Store) : Prop where
  faithful : Faithful s.objects s.deeds
  dying : ∀ o ∈ History.dying s.deeds, s.objects.isAlive o

theorem Turn.orderly (h : s.Turn s') (hroomy : s'.Roomy) (hs : s.Orderly) : s'.Orderly := by
  have hbefore := h.roomy hroomy
  obtain ⟨hf, hdying⟩ := hs
  cases h with
  | registered d => exact ⟨{ hf with }, hdying⟩
  | noted => exact ⟨hf, hdying⟩
  | allocated hrun =>
    rw [allocate_eq] at hrun
    split at hrun <;> cases hrun
    rename_i d _
    have htakes := hf.takes d hroomy.slots
    refine ⟨hf.made htakes, fun o ho => ?_⟩
    rw [ObjectTable.isAlive, Faithful.get?_of_takes htakes]
    split
    · rfl
    · exact hdying o ho
  | @assigned o name q v hstored =>
    have halive : s.objects.isAlive o := by
      rw [ObjectTable.isAlive, s.objects.get?_of_stored hstored]
      rfl
    exact ⟨hf.assigned halive name v,
      fun o' ho' => (s.objects.isAlive_assign name v halive).trans (hdying o' ho')⟩
  | numbered hrun =>
    obtain ⟨t, ht, rfl⟩ := table_of_referenceId hrun
    obtain ⟨t', ht', _, hslots, hf'⟩ := hf.referenceId (alive_of_referenceId hrun)
    cases ht.symm.trans ht'
    refine ⟨hf', fun o ho => ?_⟩
    have halive := hdying o ho
    simp only [ObjectTable.isAlive, ObjectTable.get?] at halive ⊢
    rwa [hslots]
  | condemned halive =>
    exact ⟨{ hf with }, List.forall_mem_cons.mpr ⟨halive, hdying⟩⟩
  | spared => exact ⟨{ hf with }, fun o ho => hdying o (List.mem_of_mem_erase ho)⟩
  | @destroyed o ho =>
    refine ⟨hf.destroyed (hdying o ho) (hroomy.freed _), fun o' ho' => ?_⟩
    -- No deletion is under way twice, so that the object which goes is not among those that are
    -- still to go.
    obtain ⟨hne, ho'⟩ := (dying_nodup hbefore.once).mem_erase_iff.mp ho'
    exact (s.objects.isAlive_retire (hdying o ho)).mpr ⟨hdying o' ho', hne⟩

theorem Passes.orderly (h : s.Passes s') (hroomy : s'.Roomy) (hs : s.Orderly) : s'.Orderly := by
  induction h with
  | refl => exact hs
  | tail _ hturn ih => exact hturn.orderly hroomy (ih (hturn.roomy hroomy))

theorem Orderly.empty : Orderly {} := ⟨Faithful.empty ∅, by simp [History.dying]⟩

/-- An object that was made of a type is of that type, or is gone. -/
theorem Orderly.definition (hs : s.Orderly) {h : List Deed} (hmade : .made o d :: h <:+ s.deeds) :
    s.objects.definition o = .ok d ∨ s.objects.definition o = .error (.deletedObject o) := by
  cases hget : s.objects.get? o with
  | none =>
    right
    simp only [ObjectTable.definition, ObjectTable.get, hget]
    rfl
  | some object =>
    left
    have hobject := (hs.faithful.object o object hget).1
    rw [definition?_of_made hmade hs.faithful.made_nodup] at hobject
    obtain rfl := Option.some.inj hobject
    simp only [ObjectTable.definition, ObjectTable.get, hget]
    rfl

end Store

end ProcEngine
