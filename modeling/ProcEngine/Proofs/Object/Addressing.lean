import Mathlib.Data.List.Basic
import ProcEngine.Proofs.Object.Turns
/-!
# Reference ids address living objects

An object has the id that it was given first for as long as it lives, and nobody has that id before
it or after it. The ids are given out in the order in which objects are first asked for theirs, so
that the id of an object is its place in that order (`Addressed`); the map back finds it while the
object lives and nothing once it has been destroyed. Objects are told apart by their handles here,
whatever the number of slots.
-/

namespace ProcEngine

open History

/-! ### The order in which ids are given out -/

namespace History

variable {h h' : List Deed} {o : ObjectRef}

theorem numbered_cons (o : ObjectRef) (h : List Deed) :
    numbered (.numbered o :: h) = if o ∈ numbered h then numbered h else numbered h ++ [o] := rfl

theorem numbered_mono (hsuffix : h <:+ h') : numbered h <+: numbered h' := by
  refine of_suffix (P := (numbered h <+: numbered ·))
    (fun d h' hp => ?_) hsuffix (List.prefix_refl _)
  cases d with
  | numbered o =>
    rw [numbered_cons]
    split
    · exact hp
    · exact hp.trans (List.prefix_append _ _)
  | _ => exact hp

theorem mem_numbered_cons : o ∈ numbered (.numbered o :: h) := by
  rw [numbered_cons]
  split
  · assumption
  · exact List.mem_append_right _ List.mem_cons_self

/-- An object keeps its place. -/
theorem idxOf_numbered (hsuffix : h <:+ h') (ho : o ∈ numbered h) :
    (numbered h').idxOf o = (numbered h).idxOf o := by
  obtain ⟨later, hlater⟩ := numbered_mono hsuffix
  rw [← hlater, List.idxOf_append, if_pos ho]

theorem idxOf_numbered_cons : (numbered (.numbered o :: h)).idxOf o = (numbered h).idxOf o := by
  rw [numbered_cons]
  split
  · rfl
  · rename_i hnew
    rw [List.idxOf_append, if_neg hnew, List.idxOf_cons_self, List.idxOf_eq_length hnew,
      Nat.zero_add]

/-- No deletion is under way twice unless one has been begun inside the other. -/
theorem dying_nodup (honce : ¬ Reentrant h) : (dying h).Nodup := by
  induction h with
  | nil => exact List.nodup_nil
  | cons d h ih =>
    cases d with
    | condemned o =>
      have honce : o ∉ dying h ∧ ¬ Reentrant h := not_or.mp honce
      exact List.nodup_cons.mpr ⟨honce.1, ih honce.2⟩
    | spared o | destroyed o => exact (ih honce).erase o
    | _ => exact ih honce

end History

/-- The bounds within which ids and generations do not run out, and an object outlives the hook of
its deletion. -/
structure Store.InBounds (s : Store) : Prop where
  ids : (numbered s.deeds).length < 2 ^ 32
  freed : ∀ index, timesFreed index s.deeds < 2 ^ 32
  once : ¬ Reentrant s.deeds

theorem Store.InBounds.before {s s' : Store} (h : s'.InBounds) (hdeeds : s.deeds <:+ s'.deeds) :
    s.InBounds where
  ids := Nat.lt_of_le_of_lt (numbered_mono hdeeds).length_le h.ids
  freed index := Nat.lt_of_le_of_lt ((destroyed_suffix hdeeds).sublist.countP_le) (h.freed index)
  once hre := h.once (hre.mono hdeeds)

/-! ### Who is alive -/

namespace ObjectTable

variable (t : ObjectTable) {o o' : ObjectRef}

theorem isAlive_iff : t.isAlive o ↔
    ∃ slot, t.slots[o.index.toNat]? = some slot ∧ slot.generation = o.generation ∧
      slot.object.isSome := by
  rw [isAlive, Option.isSome_iff_exists]
  constructor
  · rintro ⟨object, ho⟩
    obtain ⟨slot, hslot, hgeneration, hobject⟩ := t.get?_eq_some.mp ho
    exact ⟨slot, hslot, hgeneration, by rw [hobject]; rfl⟩
  · rintro ⟨slot, hslot, hgeneration, hobject⟩
    obtain ⟨object, hobject⟩ := Option.isSome_iff_exists.mp hobject
    exact ⟨object, t.get?_eq_some.mpr ⟨slot, hslot, hgeneration, hobject⟩⟩

theorem isAlive_assign (name : String) (v : Value) (halive : t.isAlive o) :
    (t.assign o name v).isAlive o' = t.isAlive o' := by
  rw [isAlive, t.get?_assign name v halive]
  split
  · rename_i heq
    rw [heq, Option.isSome_map, isAlive]
  · rfl

theorem isAlive_retire (halive : t.isAlive o) : (t.retire o).isAlive o' ↔
    t.isAlive o' ∧ o' ≠ o := by
  rw [isAlive, t.get?_retire halive, isAlive]
  split <;> simp [*]

/-- Taking a slot for a new object changes no slot, but there may be one more. -/
theorem takeSlot_slot (i : Nat) :
    t.takeSlot.2.slots[i]? = t.slots[i]? ∨ t.slots.size ≤ i ∧ t.takeSlot.2.slots[i]? = some {} := by
  simp only [takeSlot]
  split
  · exact Or.inl rfl
  · rw [Array.getElem?_push]
    split
    · exact Or.inr ⟨by omega, rfl⟩
    · exact Or.inl rfl

theorem takeSlot_maps :
    t.takeSlot.2.idOf = t.idOf ∧ t.takeSlot.2.objectOf = t.objectOf ∧
    t.takeSlot.2.nextId = t.nextId := by
  simp only [takeSlot]
  split <;> exact ⟨rfl, rfl, rfl⟩

theorem takeSlot_inside (hfree : ∀ i ∈ t.free, i.toNat < t.slots.size) :
    t.takeSlot.1.toNat < t.takeSlot.2.slots.size ∧ t.slots.size ≤ t.takeSlot.2.slots.size ∧
      ∀ i ∈ t.takeSlot.2.free, i ∈ t.free := by
  simp only [takeSlot]
  split
  · rename_i index rest heq
    rw [heq] at hfree
    exact ⟨hfree index List.mem_cons_self, Nat.le_refl _,
      fun i hi => heq ▸ List.mem_cons_of_mem _ hi⟩
  · rw [Array.size_push, UInt32.toNat_ofNat']
    exact ⟨Nat.lt_succ_of_le (Nat.mod_le _ _), Nat.le_succ _, fun i hi => hi⟩

theorem allocateOf_slot (d : Definition) (i : UInt32) :
    (t.allocateOf d).2.slots[i.toNat]? =
      if t.takeSlot.1 = i then
        t.takeSlot.2.slots[i.toNat]?.map fun slot =>
          { slot with object := some { definition := d } }
      else t.takeSlot.2.slots[i.toNat]? :=
  slot_modifySlot _ _ _ _

/-- The new object has nothing but its type, and the others are as they were. -/
theorem get?_allocateOf (d : Definition) (hfree : ∀ i ∈ t.free, i.toNat < t.slots.size)
    (o : ObjectRef) :
    (t.allocateOf d).2.get? o = if o = (t.allocateOf d).1 then some { definition := d }
      else t.get? o := by
  obtain ⟨slot, hslot⟩ : ∃ slot, t.takeSlot.2.slots[t.takeSlot.1.toNat]? = some slot :=
    ⟨_, Array.getElem?_eq_getElem (t.takeSlot_inside hfree).1⟩
  have hplace : (t.allocateOf d).2.slots[t.takeSlot.1.toNat]? =
      some { slot with object := some { definition := d } } := by
    rw [allocateOf_slot, if_pos rfl, hslot]
    rfl
  have hnew : (t.allocateOf d).1 = ⟨t.takeSlot.1, slot.generation⟩ := by
    show ObjectRef.mk t.takeSlot.1
      (((t.allocateOf d).2.slots[t.takeSlot.1.toNat]?.getD {}).generation) = _
    rw [hplace]
    rfl
  obtain ⟨index, generation⟩ := o
  rw [hnew]
  by_cases hi : t.takeSlot.1 = index
  · subst hi
    simp only [get?, hplace, ObjectRef.mk.injEq, true_and]
    by_cases hgeneration : slot.generation = generation
    · rw [if_pos hgeneration, if_pos hgeneration.symm]
    · -- A handle of another generation names nothing in the slot, now or before.
      rw [if_neg hgeneration, if_neg (Ne.symm hgeneration)]
      obtain hsame | ⟨hlast, _⟩ := t.takeSlot_slot t.takeSlot.1.toNat
      · simp only [← hsame, hslot, if_neg hgeneration]
      · rw [Array.getElem?_eq_none hlast]
  · have hother : (⟨index, generation⟩ : ObjectRef) ≠ ⟨t.takeSlot.1, slot.generation⟩ := by
      rintro heq
      exact hi (congrArg ObjectRef.index heq).symm
    rw [if_neg hother, get?, get?, allocateOf_slot, if_neg hi]
    obtain hsame | ⟨hlast, hvacant⟩ := t.takeSlot_slot index.toNat
    · rw [hsame]
    · rw [hvacant, Array.getElem?_eq_none hlast]
      simp only [ite_self]

/-- Nobody but the new object comes to life. -/
theorem isAlive_allocateOf (d : Definition) (hfree : ∀ i ∈ t.free, i.toNat < t.slots.size) :
    (t.allocateOf d).2.isAlive o ↔ o = (t.allocateOf d).1 ∨ t.isAlive o := by
  rw [isAlive, t.get?_allocateOf d hfree, isAlive]
  split <;> simp [*]

/-! ### The two maps -/

theorem idOf_dropId : (t.dropId o).idOf[o']? = if o' = o then none else t.idOf[o']? := by
  split
  · rename_i heq
    rw [heq, dropId]
    cases hid : t.idOf[o]? with
    | none => exact hid
    | some id => exact Std.ExtTreeMap.getElem?_erase_self
  · rename_i hne
    exact t.dropId_idOf hne

/-- The maps lead to each other: an object to its id, and the id back to the object. -/
def Paired : Prop :=
  ∀ (o : ObjectRef) (id : UInt32), t.objectOf[id]? = some o ↔ t.idOf[o]? = some id

variable {t}

theorem Paired.dropId (hpaired : t.Paired) (o : ObjectRef) : (t.dropId o).Paired := by
  intro o' id'
  rw [idOf_dropId, ObjectTable.dropId]
  cases hid : t.idOf[o]? with
  | none =>
    rw [hpaired]
    split
    · rename_i heq
      rw [heq, hid]
    · rfl
  | some id =>
    dsimp only
    rw [Std.ExtTreeMap.getElem?_erase]
    simp only [Std.compare_eq_iff_eq]
    split <;> rename_i hsame <;> split <;> rename_i heq
    · exact iff_of_false (by simp) (by simp)
    · refine iff_of_false (by simp) fun hid' => heq ?_
      rw [← hpaired, ← hsame, (hpaired o id).mpr hid, Option.some.injEq] at hid'
      exact hid'.symm
    · rw [hpaired, heq, hid, Option.some.injEq]
      exact iff_of_false hsame (by simp)
    · exact hpaired o' id'

theorem Paired.insert (hpaired : t.Paired) {id : UInt32} (hnew : t.idOf[o]? = none)
    (hfree : t.objectOf[id]? = none) :
    ({ t with nextId := id + 1, idOf := t.idOf.insert o id, objectOf := t.objectOf.insert id o } :
      ObjectTable).Paired := by
  intro o' id'
  dsimp only
  rw [Std.ExtTreeMap.getElem?_insert, Std.ExtTreeMap.getElem?_insert]
  simp only [Std.compare_eq_iff_eq]
  split <;> rename_i hsame <;> split <;> rename_i heq
  · simp [hsame, heq]
  · rw [← hpaired, ← hsame, hfree]
    simp [heq]
  · rw [hpaired, ← heq, hnew]
    simp [hsame]
  · exact hpaired o' id'

end ObjectTable

/-! ### What every turn keeps -/

/-- The ids of a table, by what has been done to its objects. That a handle never comes to life
again rests on the generations, and that it is alive when its deletion ends on there being no other
deletion of it. -/
structure Addressed (t : ObjectTable) (h : List Deed) : Prop where
  free : ∀ i ∈ t.free, i.toNat < t.slots.size
  generation : ∀ (i : UInt32) slot, t.slots[i.toNat]? = some slot → slot.generation.toNat =
    timesFreed i h
  untouched : ∀ i : UInt32, t.slots.size ≤ i.toNat → timesFreed i h = 0
  past : ∀ o ∈ destroyed h, o.generation.toNat < timesFreed o.index h
  dying : ∀ o ∈ History.dying h, t.isAlive o
  numbered : ∀ o ∈ History.numbered h, t.isAlive o ∨ o ∈ destroyed h
  idOf : ∀ o : ObjectRef, t.idOf[o]? =
    if t.isAlive o ∧ o ∈ History.numbered h then some (UInt32.ofNat ((History.numbered h).idxOf o))
    else none
  paired : t.Paired
  nextId : t.nextId = UInt32.ofNat (History.numbered h).length

namespace Addressed

variable {t : ObjectTable} {h : List Deed} {o : ObjectRef}

theorem empty (types : Names Definition) : Addressed { types } [] where
  free := by simp
  generation := by simp
  untouched _ _ := rfl
  past := by simp [destroyed]
  dying := by simp [History.dying]
  numbered := by simp [History.numbered]
  idOf := by simp [History.numbered]
  paired o id := by simp
  nextId := rfl

theorem idOf_of_mem (ha : Addressed t h) (halive : t.isAlive o) (ho : o ∈ History.numbered h) :
    t.idOf[o]? = some (UInt32.ofNat ((History.numbered h).idxOf o)) := by
  rw [ha.idOf, if_pos ⟨halive, ho⟩]

theorem of_idOf (ha : Addressed t h) {id : UInt32} (hid : t.idOf[o]? = some id) :
    t.isAlive o ∧ o ∈ History.numbered h ∧ id = UInt32.ofNat ((History.numbered h).idxOf o) := by
  rw [ha.idOf] at hid
  split at hid
  · rename_i hand
    exact ⟨hand.1, hand.2, (Option.some.inj hid).symm⟩
  · cases hid

theorem allocated (ha : Addressed t h) (d : Definition) :
    Addressed (t.allocateOf d).2 (.made (t.allocateOf d).1 d :: h) := by
  obtain ⟨hinside, hgrown, hfree⟩ := t.takeSlot_inside ha.free
  have hsize : (t.allocateOf d).2.slots.size = t.takeSlot.2.slots.size :=
    ObjectTable.size_modifySlot _ _ _
  obtain ⟨hidOf, hobjectOf, hnextId⟩ := t.takeSlot_maps
  have halive (o : ObjectRef) := t.isAlive_allocateOf (o := o) d ha.free
  have hslot (i : UInt32) (slot : Slot) (hslot : t.takeSlot.2.slots[i.toNat]? = some slot) :
      slot.generation.toNat = timesFreed i h := by
    obtain hsame | ⟨hlast, hvacant⟩ := t.takeSlot_slot i.toNat
    · exact ha.generation i slot (hsame ▸ hslot)
    · rw [hvacant] at hslot
      cases hslot
      exact (ha.untouched i hlast).symm
  have hgeneration (i : UInt32) (slot : Slot)
      (hi : (t.allocateOf d).2.slots[i.toNat]? = some slot) :
      slot.generation.toNat = timesFreed i h := by
    rw [ObjectTable.allocateOf_slot] at hi
    split at hi
    · obtain ⟨slot', hslot', rfl⟩ := Option.map_eq_some_iff.mp hi
      exact hslot i slot' hslot'
    · exact hslot i slot hi
  exact {
    free := fun i hi => by
      rw [hsize]
      exact Nat.lt_of_lt_of_le (ha.free i (hfree i hi)) hgrown
    generation := hgeneration
    untouched := fun i hi => ha.untouched i (Nat.le_trans hgrown (hsize ▸ hi))
    past := ha.past
    dying := fun o ho => (halive o).mpr (Or.inr (ha.dying o ho))
    numbered := fun o ho => (ha.numbered o ho).imp_left fun ho => (halive o).mpr (Or.inr ho)
    idOf := fun o => by
      rw [show (t.allocateOf d).2.idOf = t.idOf from hidOf, ha.idOf]
      congr 1
      refine propext (and_congr_left fun ho => ?_)
      refine ⟨fun hold => (halive o).mpr (Or.inr hold), fun hnow => ?_⟩
      -- An object that is alive now has the generation of its slot, and so has not been destroyed.
      refine (ha.numbered o ho).resolve_right fun hgone => ?_
      obtain ⟨slot, hslot, hsame, _⟩ := ObjectTable.isAlive_iff _ |>.mp hnow
      have hnow := hgeneration o.index slot hslot
      have hpast := ha.past o hgone
      rw [hsame] at hnow
      omega
    paired := fun o id => by
      rw [show (t.allocateOf d).2.objectOf = t.objectOf from hobjectOf,
        show (t.allocateOf d).2.idOf = t.idOf from hidOf, ha.paired]
    nextId := hnextId.trans ha.nextId }

theorem assigned (ha : Addressed t h) (halive : t.isAlive o) (name : String) (v : Value) :
    Addressed (t.assign o name v) (.assigned o name v :: h) where
  free i hi := by
    rw [ObjectTable.assign, ObjectTable.size_modifySlot]
    exact ha.free i hi
  generation i slot hslot := by
    rw [ObjectTable.assign, ObjectTable.slot_modifySlot] at hslot
    split at hslot
    · obtain ⟨slot', hslot', rfl⟩ := Option.map_eq_some_iff.mp hslot
      exact ha.generation i slot' hslot'
    · exact ha.generation i slot hslot
  untouched i hi := ha.untouched i (by rwa [ObjectTable.assign, ObjectTable.size_modifySlot] at hi)
  past := ha.past
  dying o' ho' := by
    rw [t.isAlive_assign name v halive]
    exact ha.dying o' ho'
  numbered o' ho' := by
    rw [t.isAlive_assign name v halive]
    exact ha.numbered o' ho'
  idOf o' := by
    rw [t.isAlive_assign name v halive]
    exact ha.idOf o'
  paired := ha.paired
  nextId := ha.nextId

theorem lt_nextId (ha : Addressed t h) (hids : (History.numbered h).length < 2 ^ 32) {id : UInt32}
    (hid : t.idOf[o]? = some id) : id < t.nextId := by
  obtain ⟨_, ho, rfl⟩ := ha.of_idOf hid
  have hlt := List.idxOf_lt_length_of_mem ho
  rw [ha.nextId, UInt32.lt_iff_toNat_lt, UInt32.toNat_ofNat_of_lt' (Nat.lt_trans hlt hids),
    UInt32.toNat_ofNat_of_lt' hids]
  exact hlt

theorem numbered_again (ha : Addressed t h) (ho : o ∈ History.numbered h) :
    Addressed t (.numbered o :: h) := by
  have hsame : History.numbered (.numbered o :: h) = History.numbered h := if_pos ho
  exact { ha with
    numbered := by
      rw [hsame]
      exact ha.numbered
    idOf := by
      rw [hsame]
      exact ha.idOf
    nextId := by
      rw [hsame]
      exact ha.nextId }

theorem numbered_first (ha : Addressed t h) (halive : t.isAlive o) (ho : o ∉ History.numbered h)
    (hids : (History.numbered h).length < 2 ^ 32) :
    Addressed { t with
      nextId :=
        t.nextId + 1, idOf := t.idOf.insert o t.nextId, objectOf := t.objectOf.insert t.nextId o }
      (.numbered o :: h) := by
  have hmore : History.numbered (.numbered o :: h) = History.numbered h ++ [o] := if_neg ho
  have hnew : t.idOf[o]? = none := by
    rw [ha.idOf, if_neg fun hand => ho hand.2]
  have hfree : t.objectOf[t.nextId]? = none := by
    refine Option.eq_none_iff_forall_ne_some.mpr fun o' ho' => ?_
    exact UInt32.lt_irrefl _ (ha.lt_nextId hids ((ha.paired o' _).mp ho'))
  exact { ha with
    numbered := fun o' ho' => by
      rw [hmore, List.mem_append, List.mem_singleton] at ho'
      obtain ho' | rfl := ho'
      · exact ha.numbered o' ho'
      · exact Or.inl halive
    idOf := fun o' => by
      show (t.idOf.insert o t.nextId)[o']? = if t.isAlive o' ∧ _ then _ else none
      rw [hmore, Std.ExtTreeMap.getElem?_insert]
      simp only [Std.compare_eq_iff_eq, List.mem_append, List.mem_singleton, List.idxOf_append]
      split <;> rename_i heq
      · subst heq
        rw [if_pos ⟨halive, Or.inr rfl⟩, if_neg ho, List.idxOf_cons_self, Nat.zero_add, ha.nextId]
      · rw [ha.idOf]
        by_cases ho' : o' ∈ History.numbered h
        · simp [ho']
        · simp [ho', Ne.symm heq]
    paired := ha.paired.insert hnew hfree
    nextId := by
      rw [hmore, List.length_append]
      simp [ha.nextId] }

theorem condemned (ha : Addressed t h) (halive : t.isAlive o) : Addressed t (.condemned o :: h) :=
  { ha with
    dying := fun o' ho' => by
      obtain rfl | ho' := List.mem_cons.mp ho'
      · exact halive
      · exact ha.dying o' ho' }

theorem spared (ha : Addressed t h) : Addressed t (.spared o :: h) :=
  { ha with dying := fun o' ho' => ha.dying o' (List.mem_of_mem_erase ho') }

theorem destroyed (ha : Addressed t h) (ho : o ∈ History.dying h) (honce : ¬ Reentrant h)
    (htimes : timesFreed o.index (.destroyed o :: h) < 2 ^ 32) : Addressed (t.retire o)
    (.destroyed o :: h) := by
  have halive := ha.dying o ho
  obtain ⟨slot, hslot, hsame, _⟩ := t.isAlive_iff.mp halive
  have hnow : o.generation.toNat = timesFreed o.index h := hsame ▸ ha.generation o.index slot hslot
  have hin : o.index.toNat < t.slots.size := (Array.getElem?_eq_some_iff.mp hslot).1
  have hgone : History.destroyed (.destroyed o :: h) = o :: History.destroyed h := rfl
  rw [timesFreed_destroyed, if_pos rfl] at htimes
  exact {
    free := fun i hi => by
      rw [t.retire_free, List.mem_cons] at hi
      rw [t.retire_size]
      obtain rfl | hi := hi
      · exact hin
      · exact ha.free i hi
    generation := fun i slot' hslot' => by
      rw [ObjectTable.retire_slot] at hslot'
      rw [timesFreed_destroyed]
      split at hslot' <;> rename_i hi
      · subst hi
        rw [hslot] at hslot'
        obtain rfl := Option.some.inj hslot'
        rw [if_pos rfl, UInt32.toNat_add, hsame, hnow]
        exact Nat.mod_eq_of_lt htimes
      · rw [if_neg hi]
        exact ha.generation i slot' hslot'
    untouched := fun i hi => by
      rw [t.retire_size] at hi
      rw [timesFreed_destroyed, ha.untouched i hi, if_neg]
      rintro rfl
      omega
    past := fun o' ho' => by
      rw [hgone, List.mem_cons] at ho'
      obtain rfl | ho' := ho'
      · rw [timesFreed_destroyed, if_pos rfl, hnow]
        exact Nat.lt_succ_self _
      · exact Nat.lt_of_lt_of_le (ha.past o' ho') (timesFreed_le_destroyed _)
    -- The object that goes is not among those that are still to go, as no deletion of it is under
    -- way twice.
    dying := fun o' ho' => by
      obtain ⟨hne, ho'⟩ := (dying_nodup honce).mem_erase_iff.mp ho'
      exact (t.isAlive_retire halive).mpr ⟨ha.dying o' ho', hne⟩
    numbered := fun o' ho' => by
      rw [hgone, List.mem_cons, t.isAlive_retire halive]
      by_cases heq : o' = o
      · exact Or.inr (Or.inl heq)
      · exact (ha.numbered o' ho').imp (⟨·, heq⟩) Or.inr
    idOf := fun o' => by
      have hnumbered : History.numbered (.destroyed o :: h) = History.numbered h := rfl
      show (t.dropId o).idOf[o']? = _
      simp only [t.isAlive_retire halive]
      rw [hnumbered, ObjectTable.idOf_dropId, ha.idOf]
      by_cases heq : o' = o <;> simp [heq]
    paired := ha.paired.dropId o
    nextId := (t.retire_nextId o).trans ha.nextId }

end Addressed

/-! ### Every turn keeps it -/

namespace Store

variable {s s' : Store} {o : ObjectRef} {id : UInt32}

/-- A living object that has been asked for its id before is found in the map, and another gets the
next id. -/
theorem referenceId_alive (halive : s.objects.isAlive o) :
    referenceId o s = match s.objects.idOf[o]? with
      | some id => .ok id { s with deeds := .numbered o :: s.deeds }
      | none => .ok s.objects.nextId { s with
          objects := { s.objects with
            nextId := s.objects.nextId + 1
            idOf := s.objects.idOf.insert o s.objects.nextId
            objectOf := s.objects.objectOf.insert s.objects.nextId o }
          deeds := .numbered o :: s.deeds } := by
  obtain ⟨object, ho⟩ := Option.isSome_iff_exists.mp halive
  rw [referenceId_eq, ObjectTable.referenceId, ObjectTable.get, ho]
  simp only [bind, Except.bind]
  cases s.objects.idOf[o]? <;> rfl

theorem referenceId_deleted (hdeleted : ¬ s.objects.isAlive o) :
    referenceId o s = .fault (.deletedObject o) s := by
  have ho : s.objects.get? o = none := by
    rwa [ObjectTable.isAlive, Option.isSome_iff_ne_none, ne_eq, Decidable.not_not] at hdeleted
  rw [referenceId_eq, ObjectTable.referenceId, ObjectTable.get, ho]
  rfl

theorem alive_of_referenceId (h : referenceId o s = .ok id s') : s.objects.isAlive o := by
  refine Decidable.byContradiction fun hdeleted => ?_
  rw [referenceId_deleted hdeleted] at h
  cases h

theorem deeds_of_referenceId (h : referenceId o s = .ok id s') :
    s'.deeds = .numbered o :: s.deeds := by
  rw [referenceId_alive (alive_of_referenceId h)] at h
  split at h <;> cases h <;> rfl

/-- The id of an object is its place in the order in which objects were asked for theirs. -/
theorem id_of_referenceId (ha : Addressed s.objects s.deeds) (h : referenceId o s = .ok id s') :
    id = UInt32.ofNat ((numbered s.deeds).idxOf o) := by
  have halive := alive_of_referenceId h
  rw [referenceId_alive halive] at h
  split at h <;> rename_i hid <;> cases h
  · exact (ha.of_idOf hid).2.2
  · have hnew : o ∉ numbered s.deeds := fun ho => by
      rw [ha.idOf_of_mem halive ho] at hid
      cases hid
    rw [ha.nextId, List.idxOf_eq_length hnew]

theorem addressed_of_referenceId (ha : Addressed s.objects s.deeds)
    (hids : (numbered s.deeds).length < 2 ^ 32)
    (h : referenceId o s = .ok id s') : Addressed s'.objects s'.deeds := by
  have halive := alive_of_referenceId h
  rw [referenceId_alive halive] at h
  split at h <;> rename_i hid <;> cases h
  · exact ha.numbered_again (ha.of_idOf hid).2.1
  · refine ha.numbered_first halive (fun ho => ?_) hids
    rw [ha.idOf_of_mem halive ho] at hid
    cases hid

theorem Turn.deeds (h : s.Turn s') : s.deeds <:+ s'.deeds := by
  cases h with
  | registered | noted => exact List.suffix_refl _
  | allocated hrun =>
    rw [allocate_eq] at hrun
    split at hrun <;> cases hrun
    exact List.suffix_cons _ _
  | numbered hrun => exact deeds_of_referenceId hrun ▸ List.suffix_cons _ _
  | assigned | condemned | spared | destroyed => exact List.suffix_cons _ _

theorem Turn.addressed (h : s.Turn s') (hbounds : s'.InBounds) (ha : Addressed s.objects s.deeds) :
    Addressed s'.objects s'.deeds := by
  have hbefore := hbounds.before h.deeds
  cases h with
  | registered d => exact { ha with }
  | noted => exact ha
  | allocated hrun =>
    rw [allocate_eq] at hrun
    split at hrun <;> cases hrun
    exact ha.allocated _
  | assigned v hstored =>
    refine ha.assigned ?_ _ v
    rw [ObjectTable.isAlive, s.objects.get?_of_stored hstored]
    rfl
  | numbered hrun => exact addressed_of_referenceId ha hbefore.ids hrun
  | condemned halive => exact ha.condemned halive
  | spared => exact ha.spared
  | destroyed ho => exact ha.destroyed ho hbefore.once (hbounds.freed _)

end Store

namespace Store.Passes

variable {s s' : Store}

theorem deeds (h : s.Passes s') : s.deeds <:+ s'.deeds := by
  induction h with
  | refl => exact List.suffix_refl _
  | tail _ hturn ih => exact ih.trans hturn.deeds

theorem addressed (h : s.Passes s') (hbounds : s'.InBounds) (ha : Addressed s.objects s.deeds) :
    Addressed s'.objects s'.deeds := by
  induction h with
  | refl => exact ha
  | tail _ hturn ih => exact hturn.addressed hbounds (ih (hbounds.before hturn.deeds))

end Store.Passes

/-! ### Addressing -/

namespace Store

/-- On the way to the store `s` the object was asked for its reference id, and this is what it was
told. -/
def Given (s : Store) (o : ObjectRef) (id : UInt32) : Prop :=
  ∃ s₁ s₂ : Store, Passes {} s₁ ∧ referenceId o s₁ = .ok id s₂ ∧ s₂.Passes s

/-- What makes ids addresses of the objects of a store. -/
structure Addresses (s : Store) : Prop where
  /-- The two maps are inverse to each other. -/
  paired : s.objects.Paired
  live : ∀ (o : ObjectRef) (id : UInt32), s.objects.idOf[o]? = some id → s.objects.isAlive o ∧
    id < s.objects.nextId
  found : ∀ o id, s.objects.ofReferenceId id = some o ↔ s.objects.isAlive o ∧ s.Given o id
  /-- An object is never given a second id. -/
  one : ∀ o id id', s.Given o id → s.Given o id' → id = id'
  /-- An id is never given to a second object, whether or not the first still lives. -/
  apart : ∀ o o' id, s.Given o id → s.Given o' id → o = o'
  /-- An object that lives is told its id again, and nothing happens to any id. -/
  kept : ∀ o id, s.objects.isAlive o → s.Given o id →
    referenceId o s = .ok id { s with deeds := .numbered o :: s.deeds }
  /-- A new id is above all that were ever given. -/
  fresh : ∀ o, s.objects.isAlive o → (¬ ∃ id, s.Given o id) →
    ∃ id s', referenceId o s = .ok id s' ∧ ∀ o' id', s.Given o' id' → id' < id
  deleted : ∀ o, ¬ s.objects.isAlive o → referenceId o s = .fault (.deletedObject o) s

variable {s : Store}

theorem Passes.given_of_numbered {o : ObjectRef} (h : Passes {} s) (ho : o ∈ numbered s.deeds) :
    ∃ id, s.Given o id := by
  induction h with
  | refl => cases ho
  | @tail s₁ s₂ hpasses hturn ih =>
    by_cases hold : o ∈ numbered s₁.deeds
    · obtain ⟨id, s₃, s₄, hbefore, hrun, hafter⟩ := ih hold
      exact ⟨id, s₃, s₄, hbefore, hrun, hafter.tail hturn⟩
    -- The only turn that adds to the order is one that asks for an id.
    · cases hturn with
      | @numbered o' id _ hrun =>
        rw [deeds_of_referenceId hrun, numbered_cons] at ho
        split at ho
        · exact absurd ho hold
        · obtain rfl := List.mem_singleton.mp ((List.mem_append.mp ho).resolve_left hold)
          exact ⟨id, s₁, s₂, hpasses, hrun, .refl⟩
      | allocated hrun =>
        rw [allocate_eq] at hrun
        split at hrun <;> cases hrun
        exact absurd ho hold
      | _ => exact absurd ho hold

/-- Whatever the way was, it is written in the deeds which objects have an id and what it is. -/
theorem Passes.given_iff (h : Passes {} s) (hbounds : s.InBounds) (o : ObjectRef) (id : UInt32) :
    s.Given o id ↔ o ∈ numbered s.deeds ∧ id = UInt32.ofNat ((numbered s.deeds).idxOf o) := by
  have hgiven {id : UInt32} (hid : s.Given o id) :
      o ∈ numbered s.deeds ∧ id = UInt32.ofNat ((numbered s.deeds).idxOf o) := by
    obtain ⟨s₁, s₂, hbefore, hrun, hafter⟩ := hid
    have hdeeds := deeds_of_referenceId hrun
    have hsuffix : s₁.deeds <:+ s₂.deeds := hdeeds ▸ List.suffix_cons _ _
    have ha := hbefore.addressed (hbounds.before (hsuffix.trans hafter.deeds)) (Addressed.empty ∅)
    have ho : o ∈ numbered s₂.deeds := hdeeds ▸ mem_numbered_cons
    refine ⟨(numbered_mono hafter.deeds).subset ho, ?_⟩
    rw [id_of_referenceId ha hrun, idxOf_numbered hafter.deeds ho, hdeeds, idxOf_numbered_cons]
  refine ⟨hgiven, fun hid => ?_⟩
  obtain ⟨ho, rfl⟩ := hid
  obtain ⟨id, hid⟩ := h.given_of_numbered ho
  exact (hgiven hid).2 ▸ hid

/-- The ids of a store that began empty address its living objects. -/
theorem Passes.addresses (h : Passes {} s) (hbounds : s.InBounds) :
    s.Addresses ∧ ∀ fuel r s', (serve fuel r s).state? = some s' → Passes {} s' := by
  have ha := h.addressed hbounds (Addressed.empty ∅)
  have hgiven := h.given_iff hbounds
  have hplace {o : ObjectRef} (ho : o ∈ numbered s.deeds) :
      (UInt32.ofNat ((numbered s.deeds).idxOf o)).toNat = (numbered s.deeds).idxOf o :=
    UInt32.toNat_ofNat_of_lt' (Nat.lt_trans (List.idxOf_lt_length_of_mem ho) hbounds.ids)
  have hkept (o : ObjectRef) (id : UInt32) (halive : s.objects.isAlive o) (hid : s.Given o id) :
      s.objects.idOf[o]? = some id := by
    obtain ⟨ho, rfl⟩ := (hgiven o id).mp hid
    exact ha.idOf_of_mem halive ho
  refine ⟨?_, fun fuel r s' hs' => .trans h (Serving.serve fuel r s s' hs').passes⟩
  exact {
    paired := ha.paired
    live := fun o id hid => ⟨(ha.of_idOf hid).1, ha.lt_nextId hbounds.ids hid⟩
    found := fun o id => by
      rw [ObjectTable.ofReferenceId, ha.paired]
      refine ⟨fun hid => ?_, fun hand => hkept o id hand.1 hand.2⟩
      obtain ⟨halive, hplaced⟩ := ha.of_idOf hid
      exact ⟨halive, (hgiven o id).mpr hplaced⟩
    one := fun o id id' hid hid' => by rw [((hgiven o id).mp hid).2, ((hgiven o id').mp hid').2]
    apart := fun o o' id hid hid' => by
      obtain ⟨ho, rfl⟩ := (hgiven o id).mp hid
      obtain ⟨ho', hsame⟩ := (hgiven o' _).mp hid'
      refine (List.idxOf_inj ho).mp ?_
      rw [← hplace ho, ← hplace ho', hsame]
    kept := fun o id halive hid => by rw [referenceId_alive halive, hkept o id halive hid]
    fresh := fun o halive hnew => by
      have ho : o ∉ numbered s.deeds := fun ho => hnew ⟨_, (hgiven o _).mpr ⟨ho, rfl⟩⟩
      have hid : s.objects.idOf[o]? = none := by
        rw [ha.idOf, if_neg fun hand => ho hand.2]
      refine ⟨_, _, by rw [referenceId_alive halive, hid], fun o' id' hid' => ?_⟩
      obtain ⟨ho', rfl⟩ := (hgiven o' id').mp hid'
      rw [UInt32.lt_iff_toNat_lt, hplace ho', ha.nextId, UInt32.toNat_ofNat_of_lt' hbounds.ids]
      exact List.idxOf_lt_length_of_mem ho'
    deleted := fun o hdeleted => referenceId_deleted hdeleted }

/-- A type that has nothing. -/
def barren : Definition := ⟨"/mob", none, ∅, ∅, none, none⟩

/-- Allocates an object and asks for its id. -/
def another : Act Store UInt32 := do
  let o ← serve 1 (.allocate "/mob")
  serve 1 (.referenceId o)

theorem Serving.another : Serving another := (serve 1 _).bind fun _ => serve 1 _

/-- The second object has the slot of the first. The id of the first is not given out again, and
leads nowhere. -/
theorem reused_slot_addresses : ∃ s₁ s₂ s₃,
    another { objects := ObjectTable.register {} barren } = .ok 0 s₁ ∧
    serve 1 (.delete ⟨0, 0⟩) s₁ = .ok () s₂ ∧
      another s₂ = .ok 1 s₃ ∧ Passes {} s₃ ∧ s₃.InBounds ∧ s₃.Addresses ∧
      s₃.objects.ofReferenceId 0 = none ∧ s₃.objects.ofReferenceId 1 = some ⟨0, 1⟩ := by
  let types := (∅ : Names Definition).insert "/mob" barren
  let idOf := (∅ : Std.ExtTreeMap ObjectRef UInt32).insert ⟨0, 0⟩ 0
  let objectOf := (∅ : Std.ExtTreeMap UInt32 ObjectRef).insert 0 ⟨0, 0⟩
  let s₁ : Store := {
    objects :=
      { types, slots := #[⟨0, some { definition := barren }⟩], idOf, objectOf, nextId := 1 }
    deeds := [.numbered ⟨0, 0⟩, .made ⟨0, 0⟩ barren] }
  let s₂ : Store := {
    objects := {
      types, slots :=
        #[⟨1, none⟩], free :=
          [0], idOf := idOf.erase ⟨0, 0⟩, objectOf := objectOf.erase 0, nextId := 1 }
    deeds := .destroyed ⟨0, 0⟩ :: .condemned ⟨0, 0⟩ :: s₁.deeds }
  have hfirst : another { objects := ObjectTable.register {} barren } = .ok 0 s₁ := rfl
  have hdelete : serve 1 (.delete ⟨0, 0⟩) s₁ = .ok () s₂ := rfl
  obtain ⟨s₃, hsecond, hdeeds, hnone, hsome⟩ : ∃ s₃, another s₂ = .ok 1 s₃ ∧
      s₃.deeds = .numbered ⟨0, 1⟩ :: .made ⟨0, 1⟩ barren :: s₂.deeds ∧
      s₃.objects.ofReferenceId 0 = none ∧ s₃.objects.ofReferenceId 1 = some ⟨0, 1⟩ :=
        ⟨_, rfl, rfl, rfl, rfl⟩
  have hpasses : Passes {} s₃ := calc
    Passes {} { objects := ObjectTable.register {} barren } := .single (.registered barren)
    Passes _ s₁ := (Serving.another _ _ (by rw [hfirst]; rfl)).passes
    Passes _ s₂ := (Serving.serve 1 _ _ _ (by rw [hdelete]; rfl)).passes
    Passes _ s₃ := (Serving.another _ _ (by rw [hsecond]; rfl)).passes
  have hbounds : s₃.InBounds := {
    ids := by rw [hdeeds]; decide
    freed := fun index => by rw [hdeeds]; exact Nat.lt_of_le_of_lt List.countP_le_length (by decide)
    once := by simp [hdeeds, s₂, s₁, Reentrant, dying] }
  exact ⟨s₁, s₂, s₃, hfirst, hdelete, hsecond, hpasses, hbounds, (hpasses.addresses hbounds).1,
    hnone, hsome⟩

end Store

end ProcEngine
