import Mathlib.Algebra.Group.Nat.Defs
import ProcEngine.Proofs.Context.Construction
import ProcEngine.Proofs.Object.Definitions
/-!
# Refused and accepted deletions

The hook of a deletion may refuse it, and be asked again as often as anyone likes; once it has
agreed the object is gone and its hook never runs for it again. Another object can be made under the
handle only after as many further deletions in the slot as there are generations, so that this needs
no bound on the number of objects or of deletions.
-/

namespace ProcEngine

open History

/-! ### Runs of the hook -/

namespace History

/-- The objects whose deletions have begun. -/
def condemned : List Deed → List ObjectRef
  | [] => []
  | .condemned o :: h => o :: condemned h
  | _ :: h => condemned h

def spared : List Deed → List ObjectRef
  | [] => []
  | .spared o :: h => o :: spared h
  | _ :: h => spared h

/-- How often the object has been deleted since it was made. -/
def retirements (o : ObjectRef) : List Deed → Nat
  | [] => 0
  | .made o' _ :: h => if o' = o then 0 else retirements o h
  | .destroyed o' :: h => if o' = o then retirements o h + 1 else retirements o h
  | _ :: h => retirements o h

/-- An object has been deleted from inside the hook of another deletion of it, directly or not. -/
def Undercut : List Deed → Prop
  | [] => False
  | .destroyed o :: h => o ∈ (dying h).erase o ∨ Undercut h
  | _ :: h => Undercut h

theorem Undercut.mono {h h' : List Deed} (hsuffix : h <:+ h') (hundercut : Undercut h) :
    Undercut h' := by
  refine of_suffix (fun d h hu => ?_) hsuffix hundercut
  cases d with
  | destroyed o => exact Or.inr hu
  | _ => exact hu

end History

theorem ObjectTable.takeSlot_of_slot {t : ObjectTable} {i : Nat} {slot : Slot}
    (hslot : t.slots[i]? = some slot) :
    t.takeSlot.2.slots[i]? = some slot := by
  obtain hsame | ⟨hbeyond, _⟩ := t.takeSlot_slot i
  · rw [hsame, hslot]
  · rw [Array.getElem?_eq_none hbeyond] at hslot
    cases hslot

namespace Store

variable {s s' : Store} {o : ObjectRef}

/-- The object has not been deleted in between. -/
def Alone (o : ObjectRef) (s s' : Store) : Prop :=
  (destroyed s'.deeds).count o = (destroyed s.deeds).count o

theorem Passes.runs_add_up (h : Passes {} s) (o : ObjectRef) :
    (condemned s.deeds).count o = (spared s.deeds).count o + (destroyed s.deeds).count o +
      (dying s.deeds).count o := by
  have hends {o' : ObjectRef} {l : List ObjectRef} (ho' : o' ∈ l) :
      l.count o = (l.erase o').count o + if o' = o then 1 else 0 := by
    rw [(List.perm_cons_erase ho').count_eq, List.count_cons]
    simp
  induction h with
  | refl => rfl
  | tail _ hturn ih =>
    cases hturn with
    | registered | noted | assigned => exact ih
    | allocated hrun =>
      rw [allocate_eq] at hrun
      split at hrun <;> cases hrun
      exact ih
    | numbered hrun =>
      obtain ⟨t, _, rfl⟩ := table_of_referenceId hrun
      exact ih
    | @condemned o' =>
      simp only [condemning, condemned, spared, destroyed, dying, List.count_cons, ih]
      omega
    | @spared o' ho' =>
      have hdying := hends ho'
      simp only [pardoning, condemned, spared, destroyed, dying, List.count_cons, ih, beq_iff_eq]
      omega
    | @destroyed o' ho' =>
      have hdying := hends ho'
      simp only [retiring, condemned, spared, destroyed, dying, List.count_cons, ih, beq_iff_eq]
      omega

/-! ### Generations -/

/-- The generation of a slot moves on by one for every object that is deleted in it, and for nothing
else. -/
theorem Turn.generation (h : s.Turn s') {i : UInt32} {slot : Slot}
    (hslot : s.objects.slots[i.toNat]? = some slot) :
    ∃ slot', s'.objects.slots[i.toNat]? = some slot' ∧
      slot'.generation + UInt32.ofNat (timesFreed i s.deeds) =
        slot.generation + UInt32.ofNat (timesFreed i s'.deeds) := by
  cases h with
  | registered | noted | condemned | spared => exact ⟨slot, hslot, rfl⟩
  | allocated hrun =>
    rw [allocate_eq] at hrun
    split at hrun <;> cases hrun
    rw [ObjectTable.allocateOf_slot, ObjectTable.takeSlot_of_slot hslot]
    split
    · exact ⟨_, rfl, rfl⟩
    · exact ⟨slot, rfl, rfl⟩
  | assigned =>
    rw [assigning, ObjectTable.assign, ObjectTable.slot_modifySlot, hslot]
    split
    · exact ⟨_, rfl, rfl⟩
    · exact ⟨slot, rfl, rfl⟩
  | numbered hrun =>
    obtain ⟨t, ht, rfl⟩ := table_of_referenceId hrun
    exact ⟨slot, by rw [(ObjectTable.referenceId_slots ht).2, hslot], rfl⟩
  | @destroyed o' ho' =>
    rw [retiring, ObjectTable.retire_slot, hslot]
    dsimp only
    rw [timesFreed_destroyed]
    split
    · refine ⟨_, rfl, ?_⟩
      rw [UInt32.ofNat_add]
      grind
    · exact ⟨slot, rfl, rfl⟩

theorem Passes.generation (h : s.Passes s') {i : UInt32} {slot : Slot}
    (hslot : s.objects.slots[i.toNat]? = some slot) :
    ∃ slot', s'.objects.slots[i.toNat]? = some slot' ∧
      slot'.generation + UInt32.ofNat (timesFreed i s.deeds) =
        slot.generation + UInt32.ofNat (timesFreed i s'.deeds) := by
  induction h with
  | refl => exact ⟨slot, hslot, rfl⟩
  | tail _ hturn ih =>
    obtain ⟨slot₁, hslot₁, hgeneration₁⟩ := ih
    obtain ⟨slot₂, hslot₂, hgeneration₂⟩ := hturn.generation hslot₁
    exact ⟨slot₂, hslot₂, by grind⟩

/-- A handle that has been retired names nothing before its slot has been freed as often as there
are generations. -/
theorem retired_returns (halive : s.objects.isAlive o) (h : (s.retiring o).Passes s')
    (hagain : s'.objects.isAlive o) : timesFreed o.index s.deeds + 2 ^ 32 ≤
      timesFreed o.index s'.deeds := by
  obtain ⟨slot, hslot, hgeneration, _⟩ := s.objects.isAlive_iff.mp halive
  have hfreed : (s.retiring o).objects.slots[o.index.toNat]? =
      some { generation := o.generation + 1, object := none } := by
    rw [retiring, ObjectTable.retire_slot, if_pos rfl, hslot, ← hgeneration]
    rfl
  obtain ⟨slot', hslot', hsum⟩ := h.generation hfreed
  obtain ⟨slot'', hslot'', hgeneration', _⟩ := s'.objects.isAlive_iff.mp hagain
  obtain rfl := Option.some.inj (hslot'.symm.trans hslot'')
  have hgrown : timesFreed o.index (s.retiring o).deeds ≤ timesFreed o.index s'.deeds :=
    (destroyed_suffix h.deeds).sublist.countP_le
  have hnow : timesFreed o.index (s.retiring o).deeds = timesFreed o.index s.deeds + 1 := by
    rw [retiring, timesFreed_destroyed, if_pos rfl]
  -- The generation is back where it was, so that the deletions since are a multiple of all
  -- generations.
  have hsame : UInt32.ofNat (timesFreed o.index s.deeds) =
      UInt32.ofNat (timesFreed o.index s'.deeds) := by
    rw [hnow, UInt32.ofNat_add, hgeneration'] at hsum
    grind
  have hmod := congrArg UInt32.toNat hsame
  rw [UInt32.toNat_ofNat', UInt32.toNat_ofNat'] at hmod
  omega

theorem alive_of_condemned (h : s.Passes s')
    (hagain : (condemned s.deeds).count o < (condemned s'.deeds).count o) :
    ∃ s₁, s.Passes s₁ ∧ s₁.objects.isAlive o ∧ s₁.Passes s' := by
  induction h with
  | refl => exact absurd hagain (Nat.lt_irrefl _)
  | @tail s₁ s₂ hpasses hturn ih =>
    by_cases hbefore : (condemned s.deeds).count o < (condemned s₁.deeds).count o
    · obtain ⟨s₀, hearlier, halive, hlater⟩ := ih hbefore
      exact ⟨s₀, hearlier, halive, hlater.tail hturn⟩
    · have hfirst := hturn
      cases hturn with
      | @condemned o' halive =>
        have hself : o' = o := by
          by_contra hne
          rw [condemning, condemned, List.count_cons_of_ne hne] at hagain
          exact hbefore hagain
        exact ⟨s₁, hpasses, hself ▸ halive, .single hfirst⟩
      | allocated hrun =>
        rw [allocate_eq] at hrun
        split at hrun <;> cases hrun
        exact absurd hagain hbefore
      | numbered hrun =>
        obtain ⟨t, _, rfl⟩ := table_of_referenceId hrun
        exact absurd hagain hbefore
      | _ => exact absurd hagain hbefore

theorem Turn.born (h : s.Turn s') (hin : s.Inside) (halive : s'.objects.isAlive o) :
    s.objects.isAlive o ∨ (made s.deeds).count o < (made s'.deeds).count o := by
  cases h with
  | registered | noted | condemned | spared => exact Or.inl halive
  | allocated hrun =>
    rw [allocate_eq] at hrun
    split at hrun <;> cases hrun
    obtain rfl | hold := (s.objects.isAlive_allocateOf _ hin.free).mp halive
    · exact Or.inr (by simp [made])
    · exact Or.inl hold
  | @assigned o' name q v hstored =>
    have hassigned : s.objects.isAlive o' := by
      rw [ObjectTable.isAlive, s.objects.get?_of_stored hstored]
      rfl
    exact Or.inl ((s.objects.isAlive_assign name v hassigned).symm.trans halive)
  | numbered hrun =>
    obtain ⟨t, ht, rfl⟩ := table_of_referenceId hrun
    have halive : t.isAlive o := halive
    rw [ObjectTable.isAlive_iff, (ObjectTable.referenceId_slots ht).2] at halive
    exact Or.inl (s.objects.isAlive_iff.mpr halive)
  | @destroyed o' ho' =>
    obtain ⟨slot, hslot, hgeneration, hobject⟩ := (s.objects.retire o').isAlive_iff.mp halive
    rw [ObjectTable.retire_slot] at hslot
    split at hslot
    · obtain ⟨_, _, rfl⟩ := Option.map_eq_some_iff.mp hslot
      cases hobject
    · exact Or.inl (s.objects.isAlive_iff.mpr ⟨slot, hslot, hgeneration, hobject⟩)

theorem Passes.born (h : s.Passes s') (hin : s.Inside) (hgone : ¬ s.objects.isAlive o)
    (halive : s'.objects.isAlive o) : (made s.deeds).count o < (made s'.deeds).count o := by
  induction h with
  | refl => exact absurd halive hgone
  | @tail s₁ s₂ hpasses hturn ih =>
    obtain hold | hnew := hturn.born (hin.passes hpasses) halive
    · exact Nat.lt_of_lt_of_le (ih hold) ((made_suffix hturn.deeds).sublist.count_le o)
    · exact Nat.lt_of_le_of_lt ((made_suffix (Passes.deeds hpasses)).sublist.count_le o) hnew

/-! ### What a hook leaves of an object that it does not delete -/

theorem eq_of_isAlive {t : ObjectTable} {o o' : ObjectRef} (halive : t.isAlive o)
    (halive' : t.isAlive o') (hindex : o.index = o'.index) : o = o' := by
  obtain ⟨slot, hslot, hgeneration, _⟩ := t.isAlive_iff.mp halive
  obtain ⟨slot', hslot', hgeneration', _⟩ := t.isAlive_iff.mp halive'
  rw [hindex, hslot'] at hslot
  cases hslot
  obtain ⟨index, generation⟩ := o
  obtain ⟨index', generation'⟩ := o'
  exact congrArg₂ ObjectRef.mk hindex (hgeneration.symm.trans hgeneration')

/-- Unless the object is deleted, it stays what it is under its handle and keeps its reference
id. -/
structure Spares (o : ObjectRef) (s s' : Store) : Prop where
  deeds : s.deeds <:+ s'.deeds
  size : s.objects.slots.size ≤ s'.objects.slots.size
  alive : Alone o s s' → s.objects.isAlive o → s'.objects.isAlive o
  idOf : Alone o s s' → ∀ id, s.objects.idOf[o]? = some id → s'.objects.idOf[o]? = some id
  definition : Alone o s s' → s'.objects.slots.size ≤ 2 ^ 32 → o.index ∉ s.objects.free → ∀ d,
    s.objects.definition o = .ok d → o.index ∉ s'.objects.free ∧ s'.objects.definition o = .ok d

namespace Spares

theorem refl (o : ObjectRef) (s : Store) : Spares o s s where
  deeds := List.suffix_refl _
  size := Nat.le_refl _
  alive _ halive := halive
  idOf _ _ hid := hid
  definition _ _ hfree _ hd := ⟨hfree, hd⟩

theorem trans {s'' : Store} (h : Spares o s s') (h' : Spares o s' s'') : Spares o s s'' := by
  have hsplit (halone : Alone o s s'') : Alone o s s' ∧ Alone o s' s'' := by
    have hfirst := (destroyed_suffix h.deeds).sublist.count_le o
    have hsecond := (destroyed_suffix h'.deeds).sublist.count_le o
    simp only [Alone] at halone ⊢
    omega
  exact {
    deeds := h.deeds.trans h'.deeds
    size := Nat.le_trans h.size h'.size
    alive := fun halone halive => h'.alive (hsplit halone).2 (h.alive (hsplit halone).1 halive)
    idOf := fun halone id hid => h'.idOf (hsplit halone).2 id (h.idOf (hsplit halone).1 id hid)
    definition := fun halone hsize hfree d hd => by
      obtain ⟨hfree', hd'⟩ := h.definition (hsplit halone).1 (Nat.le_trans h'.size hsize) hfree d hd
      exact h'.definition (hsplit halone).2 hsize hfree' d hd' }

instance : Std.Refl (Spares o) := ⟨refl o⟩

instance : Trans (Spares o) (Spares o) (Spares o) := ⟨trans⟩

/-- A change of the table that leaves who is alive, the ids and the slots to be used again as they
are. -/
theorem of_table (hdeeds : s.deeds <:+ s'.deeds)
    (hsize : s.objects.slots.size ≤ s'.objects.slots.size)
    (hfree : s'.objects.free = s.objects.free)
    (hid : ∀ id, s.objects.idOf[o]? = some id → s'.objects.idOf[o]? = some id)
    (hobject : ∀ object, s.objects.get? o = some object →
      ∃ object', s'.objects.get? o = some object' ∧ object'.definition = object.definition) :
      Spares o s s' where
  deeds := hdeeds
  size := hsize
  alive _ halive := by
    obtain ⟨object, hget⟩ := Option.isSome_iff_exists.mp halive
    obtain ⟨object', hget', _⟩ := hobject object hget
    rw [ObjectTable.isAlive, hget']
    rfl
  idOf _ := hid
  definition _ _ htaken d hd := by
    obtain ⟨object, hget, hd⟩ := ObjectTable.definition_eq_ok.mp hd
    obtain ⟨object', hget', hsame⟩ := hobject object hget
    exact ⟨hfree ▸ htaken, ObjectTable.definition_eq_ok.mpr ⟨object', hget', hsame.trans hd⟩⟩

theorem allocated {path : String} {o' : ObjectRef} (hrun : allocate path s = .ok o' s') :
    Spares o s s' := by
  have hsuffix := (Turn.allocated hrun).deeds
  have hgrown := (Turn.allocated hrun).size_le
  rw [allocate_eq] at hrun
  split at hrun <;> cases hrun
  refine {
    deeds := hsuffix
    size := hgrown
    alive := fun _ halive => ?_
    idOf := fun _ id hid => ?_
    definition := fun _ hsize hfree d' hd' => ?_ }
  · obtain ⟨slot, hslot, hgeneration, hobject⟩ := s.objects.isAlive_iff.mp halive
    refine (ObjectTable.isAlive_iff _).mpr ?_
    rw [ObjectTable.allocateOf_slot, ObjectTable.takeSlot_of_slot hslot]
    split
    · exact ⟨_, rfl, hgeneration, rfl⟩
    · exact ⟨slot, rfl, hgeneration, hobject⟩
  · exact (congrArg (·[o]?) s.objects.takeSlot_maps.1).trans hid
  · obtain ⟨object, hget, hd⟩ := ObjectTable.definition_eq_ok.mp hd'
    obtain ⟨slot, hslot, hgeneration, hobject⟩ := s.objects.get?_eq_some.mp hget
    have hinside : o.index.toNat < s.objects.slots.size := (Array.getElem?_eq_some_iff.mp hslot).1
    have hother : s.objects.takeSlot.1 ≠ o.index ∧ o.index ∉ s.objects.takeSlot.2.free := by
      have hsize' : s.objects.takeSlot.2.slots.size ≤ 2 ^ 32 :=
        Nat.le_trans (Nat.le_of_eq (ObjectTable.size_modifySlot _ _ _).symm) hsize
      simp only [ObjectTable.takeSlot] at hsize' ⊢
      split at hsize' <;> rename_i hlist
      · rw [hlist, List.mem_cons, not_or] at hfree
        exact ⟨Ne.symm hfree.1, hfree.2⟩
      · rw [Array.size_push] at hsize'
        have hfits : s.objects.slots.size < 2 ^ 32 := by omega
        refine ⟨fun heq => ?_, hfree⟩
        rw [← heq, UInt32.toNat_ofNat_of_lt' hfits] at hinside
        exact absurd hinside (Nat.lt_irrefl _)
    refine ⟨hother.2, ObjectTable.definition_eq_ok.mpr ⟨object, ?_, hd⟩⟩
    refine (ObjectTable.get?_eq_some _).mpr ⟨slot, ?_, hgeneration, hobject⟩
    rw [ObjectTable.allocateOf_slot, if_neg hother.1, ObjectTable.takeSlot_of_slot hslot]

theorem numbered {o' : ObjectRef} {id : UInt32} (hrun : referenceId o' s = .ok id s') :
    Spares o s s' := by
  obtain ⟨t, ht, rfl⟩ := table_of_referenceId hrun
  obtain ⟨hfree, hslots⟩ := ObjectTable.referenceId_slots ht
  have hget : t.get? o = s.objects.get? o := by simp only [ObjectTable.get?, hslots]
  refine of_table (List.suffix_cons _ _)
    (Nat.le_of_eq (congrArg Array.size hslots.symm)) hfree ?_ ?_
  · intro id' hid'
    obtain ⟨_, _, ht⟩ := Except.of_bind_eq_ok ht
    split at ht <;> cases ht
    · exact hid'
    · rename_i hnew
      have hne : o' ≠ o := by
        rintro rfl
        rw [hnew] at hid'
        cases hid'
      rwa [Std.ExtTreeMap.getElem?_insert, if_neg (by simpa using hne)]
  · intro object hobject
    exact ⟨object, hget.trans hobject, rfl⟩

theorem assigned {o' : ObjectRef} {name : String} {q : Object × Value} (v : Value)
    (hstored : s.objects.stored o' name = .ok q) : Spares o s (s.assigning o' name v) := by
  have halive : (s.objects.get? o').isSome := by
    rw [s.objects.get?_of_stored hstored]
    rfl
  have hsize : s.objects.slots.size ≤ (s.assigning o' name v).objects.slots.size :=
    (Turn.assigned v hstored).size_le
  refine of_table (List.suffix_cons _ _) hsize rfl (fun _ hid => hid) ?_
  intro object hobject
  show ∃ object', (s.objects.assign o' name v).get? o = some object' ∧ _
  rw [s.objects.get?_assign name v halive]
  split
  · rename_i hself
    rw [← hself, hobject]
    exact ⟨_, rfl, rfl⟩
  · exact ⟨object, hobject, rfl⟩

theorem bridges (o : ObjectRef) : Bridges (Spares o) where
  turn {s s'} h hdying := by
    have hlength := congrArg List.length hdying
    cases h with
    | registered | noted =>
      exact of_table (List.suffix_refl _) (Nat.le_refl _) rfl (fun _ hid => hid) fun object hget =>
        ⟨object, hget, rfl⟩
    | allocated hrun => exact allocated hrun
    | assigned v hstored => exact assigned v hstored
    | numbered hrun => exact numbered hrun
    | condemned => simp [condemning, dying] at hlength
    | spared ho' | destroyed ho' =>
      have hpos := List.length_pos_of_mem ho'
      simp only [pardoning, retiring, dying, List.length_erase_of_mem ho'] at hlength
      omega
  spared {s s₁ o'} _ h := {
    deeds := ((List.suffix_cons _ _).trans h.deeds).trans (List.suffix_cons _ _)
    size := h.size
    alive := h.alive
    idOf := h.idOf
    definition := h.definition }
  destroyed {s s₁ o'} halive' h := by
    have hsuffix := ((List.suffix_cons (Deed.condemned o') s.deeds).trans h.deeds).trans
      (List.suffix_cons (Deed.destroyed o') s₁.deeds)
    have hsize : s.objects.slots.size ≤ (s₁.retiring o').objects.slots.size :=
      Nat.le_trans h.size (Nat.le_of_eq (s₁.objects.retire_size o').symm)
    by_cases hself : o' = o
    · -- Here the object itself is deleted.
      have hnot : ¬ Alone o s (s₁.retiring o') := by
        have hgrown : (destroyed s.deeds).count o ≤ (destroyed s₁.deeds).count o :=
          (destroyed_suffix
            ((List.suffix_cons (Deed.condemned o') s.deeds).trans h.deeds)).sublist.count_le o
        subst hself
        simp only [Alone, retiring, destroyed, List.count_cons_self]
        omega
      exact ⟨hsuffix, hsize, fun halone => (hnot halone).elim, fun halone => (hnot halone).elim,
        fun halone => (hnot halone).elim⟩
    · have halone : Alone o s (s₁.retiring o') → Alone o (s.condemning o') s₁ := by
        intro halone
        simp only [Alone, retiring, destroyed, List.count_cons_of_ne hself] at halone
        exact halone
      have hslot (halive : s.objects.isAlive o) :
          (s₁.retiring o').objects.slots[o.index.toNat]? = s₁.objects.slots[o.index.toNat]? := by
        have hindex : o'.index ≠ o.index := fun heq => hself (eq_of_isAlive halive' halive heq)
        rw [retiring, ObjectTable.retire_slot, if_neg hindex]
      refine ⟨hsuffix, hsize, fun halone' halive => ?_, fun halone' id hid => ?_,
        fun halone' hsize' hfree d hd => ?_⟩
      · have hkept := h.alive (halone halone') halive
        rw [ObjectTable.isAlive_iff] at hkept ⊢
        rwa [hslot halive]
      · exact (s₁.objects.retire_idOf (Ne.symm hself)).trans (h.idOf (halone halone') id hid)
      · have halive : s.objects.isAlive o := by
          obtain ⟨object, hget, _⟩ := ObjectTable.definition_eq_ok.mp hd
          rw [ObjectTable.isAlive, hget]
          rfl
        have hindex : o'.index ≠ o.index := fun heq => hself (eq_of_isAlive halive' halive heq)
        have hsize₁ : s₁.objects.slots.size ≤ 2 ^ 32 :=
          Nat.le_trans (Nat.le_of_eq (s₁.objects.retire_size o').symm) hsize'
        obtain ⟨hfree', hd'⟩ := h.definition (halone halone') hsize₁ hfree d hd
        refine ⟨?_, ?_⟩
        · rw [retiring, ObjectTable.retire_free, List.mem_cons, not_or]
          exact ⟨Ne.symm hindex, hfree'⟩
        · obtain ⟨object, hget, hd'⟩ := ObjectTable.definition_eq_ok.mp hd'
          refine ObjectTable.definition_eq_ok.mpr ⟨object, ?_, hd'⟩
          rw [ObjectTable.get?_eq_some] at hget ⊢
          rwa [hslot halive]

end Spares

/-! ### What runs keep -/

theorem takeSlot_free {t : ObjectTable} (hnodup : t.free.Nodup) :
    t.takeSlot.1 ∉ t.takeSlot.2.free ∧ t.takeSlot.2.free.Nodup ∧
    ∀ i ∈ t.takeSlot.2.free, i ∈ t.free := by
  simp only [ObjectTable.takeSlot]
  split <;> rename_i hlist
  · rw [hlist] at hnodup ⊢
    obtain ⟨hnew, hrest⟩ := List.nodup_cons.mp hnodup
    exact ⟨hnew, hrest, fun i hi => List.mem_cons_of_mem _ hi⟩
  · simp [hlist]

/-- Slots that are to be used again are vacant, and an object that is gone has been deleted once. -/
structure Settled (s : Store) : Prop where
  free_nodup : s.objects.free.Nodup
  taken : ∀ o, s.objects.isAlive o → o.index ∉ s.objects.free
  dying : ∀ o ∈ History.dying s.deeds, s.objects.isAlive o
  once : ∀ o ∈ made s.deeds, retirements o s.deeds = if s.objects.isAlive o then 0 else 1

theorem Settled.of_table (hs : s.Settled) (hfree : s'.objects.free = s.objects.free)
    (halive : ∀ o, s'.objects.isAlive o = s.objects.isAlive o)
    (hdying : ∀ o ∈ History.dying s'.deeds, s'.objects.isAlive o)
    (hmade : made s'.deeds = made s.deeds)
    (hretired : ∀ o, retirements o s'.deeds = retirements o s.deeds) : s'.Settled where
  free_nodup := hfree ▸ hs.free_nodup
  taken o ho := hfree ▸ hs.taken o (halive o ▸ ho)
  dying := hdying
  once o ho := by rw [hretired, hs.once o (hmade ▸ ho), halive]

theorem Turn.settled (h : s.Turn s') (hin : s.Inside) (honce : ¬ Undercut s'.deeds)
    (hs : s.Settled) : s'.Settled := by
  cases h with
  | registered | noted => exact hs.of_table rfl (fun _ => rfl) hs.dying rfl fun _ => rfl
  | condemned halive =>
    exact hs.of_table rfl (fun _ => rfl) (List.forall_mem_cons.mpr ⟨halive, hs.dying⟩) rfl fun _ =>
      rfl
  | spared =>
    exact hs.of_table rfl (fun _ => rfl)
      (fun o ho => hs.dying o (List.mem_of_mem_erase ho)) rfl fun _ => rfl
  | @assigned o name q v hstored =>
    have halive (o' : ObjectRef) : (s.objects.assign o name v).isAlive o' =
        s.objects.isAlive o' := by
      refine s.objects.isAlive_assign name v ?_
      rw [ObjectTable.isAlive, s.objects.get?_of_stored hstored]
      rfl
    exact hs.of_table rfl halive (fun o' ho' => (halive o').trans (hs.dying o' ho')) rfl fun _ =>
      rfl
  | numbered hrun =>
    obtain ⟨t, ht, rfl⟩ := table_of_referenceId hrun
    obtain ⟨hfree, hslots⟩ := ObjectTable.referenceId_slots ht
    have halive (o' : ObjectRef) : t.isAlive o' = s.objects.isAlive o' := by
      simp only [ObjectTable.isAlive, ObjectTable.get?, hslots]
    exact hs.of_table hfree halive (fun o' ho' => (halive o').trans (hs.dying o' ho')) rfl fun _ =>
      rfl
  | allocated hrun =>
    rw [allocate_eq] at hrun
    split at hrun <;> cases hrun
    rename_i d _
    have halive (o : ObjectRef) := s.objects.isAlive_allocateOf (o := o) d hin.free
    -- The slot of a new object is free no longer, and the object has not been deleted yet.
    obtain ⟨hnew, hnodup, hfree⟩ := takeSlot_free hs.free_nodup
    refine {
      free_nodup := hnodup
      taken := fun o ho => ?_
      dying := fun o ho => (halive o).mpr (Or.inr (hs.dying o ho))
      once := fun o ho => ?_ }
    · rcases (halive o).mp ho with rfl | hold
      · exact hnew
      · exact fun hmem => hs.taken o hold (hfree _ hmem)
    · by_cases hself : (s.objects.allocateOf d).1 = o
      · rw [if_pos ((halive o).mpr (Or.inl hself.symm)), retirements, if_pos hself]
      · have hsame : (s.objects.allocateOf d).2.isAlive o ↔ s.objects.isAlive o := by
          rw [halive, or_iff_right (Ne.symm hself)]
        have hold : o ∈ made s.deeds := (List.mem_cons.mp ho).resolve_left (Ne.symm hself)
        rw [retirements, if_neg hself, hs.once o hold]
        simp only [hsame]
  | @destroyed o ho =>
    have hgone := hs.dying o ho
    have halive (o' : ObjectRef) : (s.objects.retire o).isAlive o' ↔
        s.objects.isAlive o' ∧ o' ≠ o :=
      s.objects.isAlive_retire hgone
    -- No other deletion of the object is under way, so that it was alive until now and its slot was
    -- not free.
    have hself : o ∉ (History.dying s.deeds).erase o := (not_or.mp honce).1
    refine {
      free_nodup := ?_
      taken := fun o' ho' => ?_
      dying := fun o' ho' => ?_
      once := fun o' ho' => ?_ }
    · rw [retiring, ObjectTable.retire_free]
      exact List.nodup_cons.mpr ⟨hs.taken o hgone, hs.free_nodup⟩
    · obtain ⟨hold, hne⟩ := (halive o').mp ho'
      rw [retiring, ObjectTable.retire_free, List.mem_cons, not_or]
      exact ⟨fun heq => hne (eq_of_isAlive hold hgone heq), hs.taken o' hold⟩
    · refine (halive o').mpr ⟨hs.dying o' (List.mem_of_mem_erase ho'), ?_⟩
      rintro rfl
      exact hself ho'
    · have hold := hs.once o' ho'
      rw [retiring, retirements]
      by_cases heq : o = o'
      · subst heq
        have hnot : ¬ (s.objects.retire o).isAlive o := fun hagain => ((halive o).mp hagain).2 rfl
        rw [if_pos rfl, hold, if_pos hgone, if_neg hnot]
      · have hsame : (s.objects.retire o).isAlive o' ↔ s.objects.isAlive o' := by
          rw [halive, and_iff_left (Ne.symm heq)]
        rw [if_neg heq, hold]
        simp only [hsame]

theorem Passes.settled (h : Passes {} s) (honce : ¬ Undercut s.deeds) : s.Settled := by
  induction h with
  | refl =>
    exact ⟨List.nodup_nil, fun _ _ => List.not_mem_nil, by simp [History.dying], by simp [made]⟩
  | tail hpasses hturn ih =>
    exact hturn.settled (Passes.inside hpasses) honce (ih fun hundercut =>
      honce (hundercut.mono hturn.deeds))

/-! ### Deletions -/

def concluding (o : ObjectRef) : Outcome Store Unit → Outcome Store Unit
  | .ok _ s => .ok () (s.retiring o)
  | .fault e s => .fault e (s.pardoning o)
  | .breach b s => .breach b s
  | .exhausted => .exhausted

theorem serve_delete {object : Object} (hget : s.objects.get? o = some object) (fuel : Nat) :
    serve (fuel + 1) (.delete o) s =
      concluding o (deletion (serve fuel) object.definition o (s.condemning o)) := by
  show delete (serve fuel) o s = _
  rw [delete_eq, hget]
  dsimp only
  rw [condemning]
  cases deletion (serve fuel) object.definition o { s with deeds := .condemned o :: s.deeds } <;>
    rfl

/-- The object is gone, `s'` being what its deletion has made of `s`. -/
structure Retired (o : ObjectRef) (s s' : Store) : Prop where
  gone : ¬ s'.objects.isAlive o
  idOf : s'.objects.idOf[o]? = none
  objectOf : s.objects.Paired → ∀ id, s'.objects.ofReferenceId id ≠ some o
  slot : s'.objects.slots[o.index.toNat]? = some { generation := o.generation + 1, object := none }
  free : s'.objects.free = o.index :: s.objects.free
  others : ∀ o' ≠ o, s'.objects.get? o' = s.objects.get? o'
  /-- However it goes on, the hook does not run again for the object and it does not come back to
  life. Only when the generations of the slot have come round, another object can be made that has
  the same handle. -/
  never : ∀ s₂, s'.Passes s₂ →
    s₂.objects.isAlive o ∨ (condemned s'.deeds).count o < (condemned s₂.deeds).count o →
      (made s'.deeds).count o < (made s₂.deeds).count o ∧
        timesFreed o.index s.deeds + 2 ^ 32 ≤ timesFreed o.index s₂.deeds

theorem retired_of_isAlive (halive : s.objects.isAlive o) (hin : (s.retiring o).Inside) :
    Retired o s (s.retiring o) := by
  have hgone : ¬ (s.retiring o).objects.isAlive o :=
    fun hagain => ((s.objects.isAlive_retire halive).mp hagain).2 rfl
  have hid : (s.objects.retire o).idOf[o]? = none := by
    show (s.objects.dropId o).idOf[o]? = none
    rw [ObjectTable.idOf_dropId, if_pos rfl]
  obtain ⟨slot, hslot, hgeneration, _⟩ := s.objects.isAlive_iff.mp halive
  exact {
    gone := hgone
    idOf := hid
    objectOf := fun hpaired id hback => by
      have hpair : (s.objects.dropId o).objectOf[id]? = some o := hback
      rw [hpaired.dropId o, show (s.objects.dropId o).idOf[o]? = none from hid] at hpair
      cases hpair
    slot := by
      rw [retiring, ObjectTable.retire_slot, if_pos rfl, hslot, ← hgeneration]
      rfl
    free := s.objects.retire_free o
    others := fun o' hne => by rw [retiring, s.objects.get?_retire halive, if_neg hne]
    never := fun s₂ hpasses hagain => by
      obtain ⟨s₁, hearlier, hagain, hlater⟩ : ∃ s₁, (s.retiring o).Passes s₁ ∧
        s₁.objects.isAlive o ∧ s₁.Passes s₂ := by
        obtain hagain | hagain := hagain
        · exact ⟨s₂, hpasses, hagain, .refl⟩
        · exact alive_of_condemned hpasses hagain
      have hmade := hearlier.born hin hgone hagain
      have hfreed := retired_returns halive hearlier hagain
      exact ⟨Nat.lt_of_lt_of_le hmade ((made_suffix hlater.deeds).sublist.count_le o),
        Nat.le_trans hfreed (destroyed_suffix hlater.deeds).sublist.countP_le⟩ }

/-- What the deletion of a living object comes to. -/
structure DeletesOnce (fuel : Nat) (o : ObjectRef) (object : Object) (s : Store) : Prop where
  /-- The hook runs once, and what becomes of the object is up to it. -/
  hook : serve (fuel + 1) (.delete o) s =
    concluding o (deletion (serve fuel) object.definition o (s.condemning o))
  /-- A hook that fails and does not delete the object leaves it alive, with the id that it had. The
  next deletion runs its hook again. -/
  refused : ∀ e s₁, deletion (serve fuel) object.definition o (s.condemning o) = .fault e s₁ →
    Alone o s s₁ →
    serve (fuel + 1) (.delete o) s = .fault e (s₁.pardoning o) ∧
      (∀ id, s.objects.idOf[o]? = some id → s₁.objects.idOf[o]? = some id) ∧
      ∃ object', s₁.objects.get? o = some object' ∧
        (¬ Undercut s.deeds → s₁.objects.slots.size ≤ 2 ^ 32 →
          object'.definition = object.definition) ∧
        ∀ fuel', serve (fuel' + 1) (.delete o) (s₁.pardoning o) =
          concluding o (deletion (serve fuel') object'.definition o ((s₁.pardoning o).condemning o))
  accepted : ∀ s₁, deletion (serve fuel) object.definition o (s.condemning o) = .ok () s₁ →
    Alone o s s₁ →
    serve (fuel + 1) (.delete o) s = .ok () (s₁.retiring o) ∧ Retired o s₁ (s₁.retiring o)
  /-- A script that deletes goes on or ends its context with the fault, with the objects as they are
  then. -/
  script :
    ∀ (m : Moment) (top : Activation) (f : ScriptFrame) (callers : List Activation)
      (rest : List Value),
    m.Executes .del top f callers → f.operands = .object o :: rest → m.fuel = fuel + 1 →
      m.runtime.store = s →
      (∀ s', serve (fuel + 1) (.delete o) s = .ok () s' → m.report = .ok
        (top.withFrame (.script { f with position := f.position + 1, operands := rest }), .proceed)
        { m.runtime with store := s' }) ∧
      ∀ e s', serve (fuel + 1) (.delete o) s = .fault e s' →
        m.EndsWith e { m.runtime with store := s' }

theorem Passes.deletesOnce (h : Passes {} s) {object : Object}
    (hget : s.objects.get? o = some object) (fuel : Nat) :
    DeletesOnce fuel o object s := by
  have halive : s.objects.isAlive o := by
    rw [ObjectTable.isAlive, hget]
    rfl
  have hspares {s₁ : Store}
      (hrun : (deletion (serve fuel) object.definition o (s.condemning o)).state? = some s₁) :
      Spares o (s.condemning o) s₁ :=
    Act.Preserves.deletion ((Spares.bridges o).serve fuel) object.definition o _ s₁ hrun
  refine {
    hook := serve_delete hget fuel
    refused := fun e s₁ hrun halone => ?_
    accepted := fun s₁ hrun halone => ?_
    script := ?_ }
  · have hkept : Spares o (s.condemning o) s₁ := hspares (by rw [hrun]; rfl)
    obtain ⟨object', hget'⟩ := Option.isSome_iff_exists.mp (hkept.alive halone halive)
    refine ⟨by rw [serve_delete hget fuel, hrun]; rfl, hkept.idOf halone, object', hget', ?_,
      fun fuel' => ?_⟩
    · intro honce hsize
      have hd : s.objects.definition o = .ok object.definition :=
        ObjectTable.definition_eq_ok.mpr ⟨object, hget, rfl⟩
      obtain ⟨_, hd'⟩ := hkept.definition halone hsize ((h.settled honce).taken o halive) _ hd
      obtain ⟨object'', hget'', hsame⟩ := ObjectTable.definition_eq_ok.mp hd'
      obtain rfl := Option.some.inj (hget'.symm.trans hget'')
      exact hsame
    · exact serve_delete (s := s₁.pardoning o) hget' fuel'
  · have hkept : Spares o (s.condemning o) s₁ := hspares (by rw [hrun]; rfl)
    have hdelete : serve (fuel + 1) (.delete o) s = .ok () (s₁.retiring o) := by
      rw [serve_delete hget fuel, hrun]
      rfl
    have hreached : Passes {} (s₁.retiring o) :=
      .trans h (Serving.serve _ _ s _ (by rw [hdelete]; rfl)).passes
    exact ⟨hdelete, retired_of_isAlive (hkept.alive halone halive) (Passes.inside hreached)⟩
  · rintro m top f callers rest hexecutes hoperands hfuel rfl
    have hexec : { f with position := f.position + 1 }.exec top.src top.usr .del =
        .ok (.delete o, { f with position := f.position + 1, operands := rest }) := by
      simp only [ScriptFrame.exec, ScriptFrame.pop, hoperands, bind, Except.bind]
      rfl
    have hreport := hexecutes.report hexec
    rw [hfuel] at hreport
    refine ⟨fun s' hdelete => ?_, fun e s' hdelete => Moment.outcome_of_fault hexecutes.stack ?_⟩
    · rw [hreport]
      simp only [Activation.meet, Act.bind_apply, Runtime.onStore, hdelete]
      rfl
    · rw [hreport]
      simp only [Activation.meet, Act.bind_apply, Runtime.onStore, hdelete]

/-- What deletions and their hooks come to in a store. -/
structure Deletions (s : Store) : Prop where
  living : ∀ fuel o object, s.objects.get? o = some object → DeletesOnce fuel o object s
  absent : ∀ fuel o, s.objects.get? o = none → serve (fuel + 1) (.delete o) s = .ok () s
  runs : ∀ o, (condemned s.deeds).count o =
    (spared s.deeds).count o + (destroyed s.deeds).count o + (dying s.deeds).count o
  /-- The hook of an object has succeeded once if the object is gone, and not at all if it lives. -/
  once : ¬ Undercut s.deeds → ∀ o ∈ made s.deeds, retirements o s.deeds =
    if s.objects.isAlive o then 0 else 1

/-- A deletion that its hook refuses leaves the object alive, to be deleted later, and one that is
accepted retires it for good: over any run the hook of an object that does not delete the object
itself succeeds once if the object is deleted, and else never. -/
theorem Passes.deletions (h : Passes {} s) :
    s.Deletions ∧ ∀ fuel r s', (serve fuel r s).state? = some s' → Passes {} s' := by
  refine ⟨?_, fun fuel r s' hs' => .trans h (Serving.serve fuel r s s' hs').passes⟩
  exact {
    living := fun fuel o object hget => h.deletesOnce hget fuel
    absent := fun fuel o hnone => by
      show delete (serve fuel) o s = _
      rw [delete_eq, hnone]
      rfl
    runs := h.runs_add_up
    once := fun honce => (h.settled honce).once }

/-! ### A hook that has to be asked twice -/

/-- Refuses while the object is armed, and disarms it. Another object is there before this one is
gone. -/
def yield (o : ObjectRef) : Program TableCalls Unit := do
  let armed : Value ← Program.request (i := TableCalls) (.read o "armed")
  replace o
  if armed.isTruthy then
    Program.request (i := TableCalls) (.write o "armed" .null)
    Program.fail (.hook "armed")

theorem holding_passes (d : Definition) : Passes {} (holding d) := by
  have hrun : allocate d.path { objects := ObjectTable.register {} d } = .ok ⟨0, 0⟩
      (holding d) := by
    rw [allocate_eq, show (ObjectTable.register {} d).types[d.path]? =
      some d from Std.ExtTreeMap.getElem?_insert_self]
    rfl
  exact .tail (.single (.registered d)) (.allocated hrun)

theorem yielding_mob_is_deleted_once : ∃ s₁ s₂,
    serve 4 (.delete ⟨0, 0⟩) (holding (mob yield)) = .fault (.hook "armed") s₁ ∧
    s₁.objects.isAlive ⟨0, 0⟩ ∧
      s₁.Deletions ∧ serve 4 (.delete ⟨0, 0⟩) s₁ = .ok () s₂ ∧ s₂.Deletions ∧
      retirements ⟨0, 0⟩ s₁.deeds = 0 ∧ retirements ⟨0, 0⟩ s₂.deeds = 1 ∧
      (condemned s₂.deeds).count ⟨0, 0⟩ = 2 ∧ (spared s₂.deeds).count ⟨0, 0⟩ = 1 := by
  obtain ⟨_, hcontinues⟩ := Passes.deletions (holding_passes (mob yield))
  obtain ⟨s₁, hfirst, halive, hzero, s₂, hsecond, hone, htwo, hspared⟩ : ∃ s₁,
      serve 4 (.delete ⟨0, 0⟩) (holding (mob yield)) = .fault (.hook "armed") s₁ ∧
        s₁.objects.isAlive ⟨0, 0⟩ ∧
        retirements ⟨0, 0⟩ s₁.deeds = 0 ∧ ∃ s₂, serve 4 (.delete ⟨0, 0⟩) s₁ = .ok () s₂ ∧
        retirements ⟨0, 0⟩ s₂.deeds = 1 ∧ (condemned s₂.deeds).count ⟨0, 0⟩ = 2 ∧
        (spared s₂.deeds).count ⟨0, 0⟩ = 1 := ⟨_, rfl, rfl, rfl, _, rfl, rfl, rfl, rfl⟩
  obtain ⟨hdeletions₁, hcontinues₁⟩ := Passes.deletions (hcontinues 4 _ s₁ (by rw [hfirst]; rfl))
  obtain ⟨hdeletions₂, _⟩ := Passes.deletions (hcontinues₁ 4 _ s₂ (by rw [hsecond]; rfl))
  exact ⟨s₁, s₂, hfirst, halive, hdeletions₁, hsecond, hdeletions₂, hzero, hone, htwo, hspared⟩

end Store

end ProcEngine
