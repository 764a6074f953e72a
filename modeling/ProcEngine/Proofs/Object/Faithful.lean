import Mathlib.Algebra.Group.Nat.Defs
import ProcEngine.Proofs.Object.Ideal
/-!
# The table keeps faith with the deeds

`Faithful t h` relates a table to what has been done to its objects. That a stale handle cannot be
taken for a new object rests on the generations: the generation of a slot is how often it has been
freed, so it is past the generation of every object that was destroyed in it. Each deed has one
lemma that says that it is kept.
-/

namespace ProcEngine

open History

/-! ### Deeds -/

namespace History

variable {h : List Deed} {o o' : ObjectRef}

theorem mem_living : o ∈ living h ↔ o ∈ made h ∧ o ∉ destroyed h := by
  simp [living]

theorem living_made {d : Definition} (ho : o ∉ destroyed h) :
    living (.made o d :: h) = o :: living h := by
  have hsame : destroyed (.made o d :: h) = destroyed h := rfl
  rw [living, living, hsame, made, List.filter_cons_of_pos (by simpa using ho)]

theorem living_destroyed : living (.destroyed o :: h) = (living h).filter (· ≠ o) := by
  simp only [living, made, destroyed, List.filter_filter]
  refine List.filter_congr fun x _ => ?_
  simp

theorem timesFreed_destroyed (index : UInt32) :
    timesFreed index (.destroyed o :: h) = timesFreed index h + if o.index = index then
      1 else 0 := by
  simp [timesFreed, destroyed, List.countP_cons]

theorem timesFreed_le_destroyed (index : UInt32) :
    timesFreed index h ≤ timesFreed index (.destroyed o :: h) := by
  rw [timesFreed_destroyed]
  omega

theorem definition?_made {d : Definition} :
    definition? o' (.made o d :: h) = if o = o' then some d else definition? o' h := rfl

theorem assigned?_assigned {name name' : String} {v : Value} :
    assigned? o' name' (.assigned o name v :: h) =
      if o = o' ∧ name = name' then some v else assigned? o' name' h := rfl

end History

/-! ### Slots -/

namespace ObjectTable

variable (t : ObjectTable) {o o' : ObjectRef}

theorem get?_eq_some {object : Object} :
    t.get? o = some object ↔
      ∃ slot, t.slots[o.index.toNat]? = some slot ∧ slot.generation = o.generation ∧
        slot.object = some object := by
  simp only [get?]
  cases t.slots[o.index.toNat]? with
  | none => simp
  | some slot => by_cases hg : slot.generation = o.generation <;> simp [hg]

theorem get?_of_stored {name : String} {p : Object × Value} (h : t.stored o name = .ok p) :
    t.get? o = some p.1 := by
  cases hget : t.get? o with
  | none =>
    rw [stored, get, hget] at h
    cases (show (Except.error (Fault.deletedObject o) : Except Fault (Object × Value)) =
      .ok p from h)
  | some object =>
    simp only [stored, get, hget, bind, Except.bind] at h
    split at h <;> cases h
    rfl

theorem stored_of_deleted (ho : t.get? o = none) (name : String) :
    t.stored o name = .error (.deletedObject o) := by
  simp only [stored, get, ho]
  rfl

theorem stored_of_get? {object : Object} (ho : t.get? o = some object) (name : String) :
    t.stored o name =
    match object.variable? name with
    | some v => .ok (object, v)
    | none => .error (.unknownVariable object.definition.path name) := by
  have hget : t.get o = .ok object := by simp only [get, ho]
  rw [stored, hget]
  simp only [bind, Except.bind]
  cases object.variable? name <;> rfl

theorem slot_modifySlot (index i : UInt32) (f : Slot → Slot) :
    (t.modifySlot index f).slots[i.toNat]? =
      if index = i then t.slots[i.toNat]?.map f else t.slots[i.toNat]? := by
  simp only [modifySlot, Array.getElem?_modify, UInt32.toNat_inj]

@[simp] theorem size_modifySlot (index : UInt32) (f : Slot → Slot) :
    (t.modifySlot index f).slots.size = t.slots.size := by
  simp [modifySlot]

@[simp] theorem dropId_slots (o : ObjectRef) : (t.dropId o).slots = t.slots := by
  simp only [dropId]
  split <;> rfl

@[simp] theorem dropId_free (o : ObjectRef) : (t.dropId o).free = t.free := by
  simp only [dropId]
  split <;> rfl

@[simp] theorem dropId_nextId (o : ObjectRef) : (t.dropId o).nextId = t.nextId := by
  simp only [dropId]
  split <;> rfl

@[simp] theorem dropId_types (o : ObjectRef) : (t.dropId o).types = t.types := by
  simp only [dropId]
  split <;> rfl

theorem dropId_idOf (h : o' ≠ o) : (t.dropId o).idOf[o']? = t.idOf[o']? := by
  simp only [dropId]
  split
  · have hcompare : compare o o' ≠ .eq := fun hc => h (Std.LawfulEqOrd.eq_of_compare hc).symm
    simp [Std.ExtTreeMap.getElem?_erase, hcompare]
  · rfl

@[simp] theorem retire_free (o : ObjectRef) : (t.retire o).free = o.index :: t.free := by
  simp [retire, freeSlot, modifySlot]

@[simp] theorem retire_nextId (o : ObjectRef) : (t.retire o).nextId = t.nextId := by
  simp [retire, freeSlot, modifySlot]

@[simp] theorem allocateOf_types (d : Definition) : (t.allocateOf d).2.types = t.types := by
  simp only [allocateOf, takeSlot]
  split <;> rfl

@[simp] theorem retire_types (o : ObjectRef) : (t.retire o).types = t.types := by
  simp [retire, freeSlot, modifySlot]

theorem retire_slot (o : ObjectRef) (i : UInt32) :
    (t.retire o).slots[i.toNat]? =
      if o.index = i then t.slots[i.toNat]?.map fun slot =>
        { generation := slot.generation + 1, object := none }
      else t.slots[i.toNat]? := by
  rw [← (t.dropId_slots o)]
  exact slot_modifySlot (t.dropId o) o.index i _

@[simp] theorem retire_size (o : ObjectRef) : (t.retire o).slots.size = t.slots.size := by
  simp [retire, freeSlot]

theorem get?_assign (name : String) (v : Value) (halive : (t.get? o).isSome) (o' : ObjectRef) :
    (t.assign o name v).get? o' =
      if o' = o then (t.get? o).map fun object => { object with vars := object.vars.insert name v }
      else t.get? o' := by
  obtain ⟨object, ho⟩ := Option.isSome_iff_exists.mp halive
  obtain ⟨slot, hslot, hgeneration, hobject⟩ := t.get?_eq_some.mp ho
  by_cases hi : o.index = o'.index
  · simp only [get?, assign, slot_modifySlot, hi, if_true]
    rw [← hi, hslot]
    obtain ⟨index, generation⟩ := o
    obtain ⟨index', generation'⟩ := o'
    obtain rfl : index = index' := hi
    obtain rfl : slot.generation = generation := hgeneration
    by_cases heq : slot.generation = generation'
    · simp [heq]
    · simp [heq, Ne.symm heq]
  · have hne : o' ≠ o := fun heq => hi (by rw [heq])
    simp only [get?, assign, slot_modifySlot, hi, hne, if_false]

theorem get?_retire (halive : (t.get? o).isSome) (o' : ObjectRef) :
    (t.retire o).get? o' = if o' = o then none else t.get? o' := by
  obtain ⟨object, ho⟩ := Option.isSome_iff_exists.mp halive
  obtain ⟨slot, hslot, hgeneration, hobject⟩ := t.get?_eq_some.mp ho
  by_cases hi : o.index = o'.index
  · simp only [get?, retire_slot, hi, if_true]
    rw [← hi, hslot]
    obtain ⟨index, generation⟩ := o
    obtain ⟨index', generation'⟩ := o'
    obtain rfl : index = index' := hi
    obtain rfl : slot.generation = generation := hgeneration
    by_cases heq : slot.generation = generation'
    · simp [heq]
    · simp [heq, Ne.symm heq]
  · have hne : o' ≠ o := fun heq => hi (by rw [heq])
    simp only [get?, retire_slot, hi, hne, if_false]

theorem retire_idOf (h : o' ≠ o) : (t.retire o).idOf[o']? = t.idOf[o']? := t.dropId_idOf h

end ObjectTable

/-- A table and what has been done to its objects. -/
structure Faithful (t : ObjectTable) (h : List Deed) : Prop where
  generation : ∀ i : UInt32, ∀ slot, t.slots[i.toNat]? = some slot → slot.generation.toNat =
    timesFreed i h
  inside : ∀ o ∈ made h, o.index.toNat < t.slots.size
  past : ∀ o ∈ destroyed h, o.generation.toNat < timesFreed o.index h
  alive : ∀ o, o ∈ living h ↔ (t.get? o).isSome
  object : ∀ o object, t.get? o = some object →
    definition? o h = some object.definition ∧ ∀ name, object.vars[name]? = assigned? o name h
  vacant : ∀ i ∈ t.free, ∃ slot, t.slots[i.toNat]? = some slot ∧ slot.object = none
  free_nodup : t.free.Nodup
  count : t.slots.size = t.free.length + (living h).length
  made_nodup : (made h).Nodup
  made_of_destroyed : ∀ o ∈ destroyed h, o ∈ made h
  made_of_assigned : ∀ o name v, assigned? o name h = some v → o ∈ made h
  made_of_numbered : ∀ o ∈ numbered h, o ∈ made h
  numbers : ∀ o ∉ destroyed h,
    t.idOf[o]? = if o ∈ numbered h then some (UInt32.ofNat ((numbered h).idxOf o)) else none
  nextId : t.nextId = UInt32.ofNat (numbered h).length

namespace Faithful

variable {t : ObjectTable} {h : List Deed}

theorem empty (types : Names Definition) : Faithful { types } [] where
  generation := by simp
  inside := by simp [made]
  past := by simp [destroyed]
  alive := by simp [living, made, ObjectTable.get?]
  object := by simp [ObjectTable.get?]
  vacant := by simp
  free_nodup := by simp
  count := by simp [living, made]
  made_nodup := by simp [made]
  made_of_destroyed := by simp [destroyed]
  made_of_assigned := by simp [assigned?]
  made_of_numbered := by simp [numbered]
  numbers := by simp [numbered]
  nextId := rfl

theorem not_destroyed (hf : Faithful t h) {o : ObjectRef} {object : Object}
    (ho : t.get? o = some object) :
    o ∈ made h ∧ o ∉ destroyed h :=
  mem_living.mp ((hf.alive o).mpr (by simp [ho]))

/-- The slots in use are those of the objects that are alive. -/
theorem size (hf : Faithful t h) : t.size = (living h).length := by
  have hcount := hf.count
  rw [ObjectTable.size]
  omega

theorem timesFreed_eq_zero (hf : Faithful t h) {index : UInt32} (hi : t.slots.size ≤ index.toNat) :
    timesFreed index h = 0 := by
  refine List.countP_eq_zero.mpr fun o ho => ?_
  have hlt := hf.inside o (hf.made_of_destroyed o ho)
  intro heq
  simp only [decide_eq_true_eq] at heq
  subst heq
  omega

/-! ### Making an object -/

end Faithful

/-- What taking a slot for a new object changes in a table. -/
structure Takes (t : ObjectTable) (d : Definition) (o : ObjectRef) (t' : ObjectTable) : Prop where
  slot : t'.slots[o.index.toNat]? =
    some { generation := o.generation, object := some { definition := d } }
  others : ∀ i : UInt32, o.index ≠ i → t'.slots[i.toNat]? = t.slots[i.toNat]?
  place : (∃ slot, t.slots[o.index.toNat]? = some slot ∧ slot.generation = o.generation ∧
    slot.object = none) ∧
      t.free = o.index :: t'.free ∧ t'.slots.size = t.slots.size ∨
    t.slots.size = o.index.toNat ∧ o.generation = 0 ∧ t.free = [] ∧ t'.free = [] ∧
      t'.slots.size = t.slots.size + 1
  idOf : t'.idOf = t.idOf
  nextId : t'.nextId = t.nextId

namespace Faithful

variable {t : ObjectTable} {h : List Deed}

theorem takes (hf : Faithful t h) (d : Definition)
    (hsize : (t.allocateOf d).2.slots.size < 2 ^ 32) :
    Takes t d (t.allocateOf d).1 (t.allocateOf d).2 := by
  cases hfree : t.free with
  | cons index rest =>
    obtain ⟨slot, hslot, hvacant⟩ := hf.vacant index (by simp [hfree])
    have htake :
        t.allocateOf d =
          (⟨index, slot.generation⟩, ({ t with free := rest } : ObjectTable).modifySlot index
        fun slot => { slot with object := some { definition := d } }) := by
      simp [ObjectTable.allocateOf, ObjectTable.takeSlot, hfree, ObjectTable.slot_modifySlot, hslot]
    rw [htake]
    exact {
      slot := by simp [ObjectTable.slot_modifySlot, hslot]
      others := fun i hi => by simp only [ObjectTable.slot_modifySlot, hi, if_false]
      place := Or.inl ⟨⟨slot, hslot, rfl, hvacant⟩, hfree, by simp⟩
      idOf := rfl
      nextId := rfl }
  | nil =>
    have hindex : (UInt32.ofNat t.slots.size).toNat = t.slots.size := by
      have hlt : t.slots.size < 2 ^ 32 := by
        simp [ObjectTable.allocateOf, ObjectTable.takeSlot, hfree] at hsize
        omega
      exact UInt32.toNat_ofNat_of_lt' hlt
    have hslot :
        (({ t with slots := t.slots.push {} } : ObjectTable).modifySlot (UInt32.ofNat t.slots.size)
        fun slot =>
          { slot with object := some { definition := d } }).slots[(UInt32.ofNat
            t.slots.size).toNat]? =
          some { generation := 0, object := some { definition := d } } := by
      rw [ObjectTable.slot_modifySlot, if_pos rfl, hindex, Array.getElem?_push_size]
      rfl
    have htake : t.allocateOf d = (⟨UInt32.ofNat t.slots.size, 0⟩,
        ({ t with slots := t.slots.push {} } : ObjectTable).modifySlot (UInt32.ofNat t.slots.size)
          fun slot => { slot with object := some { definition := d } }) := by
      simp only [ObjectTable.allocateOf, ObjectTable.takeSlot, hfree] at hslot ⊢
      rw [hslot]
      rfl
    rw [htake]
    exact {
      slot := hslot
      others := fun i hi => by
        have hne : i.toNat ≠ t.slots.size := fun heq => hi (by rw [← heq]; simp)
        simp only [ObjectTable.slot_modifySlot, hi, if_false, Array.getElem?_push, hne]
      place := Or.inr ⟨hindex.symm, rfl, hfree, hfree, by simp⟩
      idOf := rfl
      nextId := rfl }

theorem get?_of_takes {t' : ObjectTable} {d : Definition} {o : ObjectRef} (htakes : Takes t d o t')
    (o' : ObjectRef) :
    t'.get? o' = if o' = o then some { definition := d } else t.get? o' := by
  by_cases hi : o.index = o'.index
  · have hvacant : t.get? o' = none := by
      rw [Option.eq_none_iff_forall_ne_some]
      intro object ho'
      obtain ⟨slot, hslot, _, hobject⟩ := t.get?_eq_some.mp ho'
      rw [← hi] at hslot
      obtain ⟨⟨slot', hslot', _, hnone⟩, _⟩ | ⟨hsize, _⟩ := htakes.place
      · rw [hslot, Option.some.injEq] at hslot'
        simp [← hslot', hobject] at hnone
      · simp [← hsize] at hslot
    rw [hvacant]
    simp only [ObjectTable.get?, ← hi, htakes.slot]
    obtain ⟨index, generation⟩ := o
    obtain ⟨index', generation'⟩ := o'
    obtain rfl : index = index' := hi
    simp [eq_comm]
  · have hne : o' ≠ o := fun heq => hi (by rw [heq])
    simp only [ObjectTable.get?, htakes.others o'.index hi, hne, if_false]

/-- A new object has a handle that no object had before it. -/
theorem new_of_takes (hf : Faithful t h) {t' : ObjectTable} {d : Definition} {o : ObjectRef}
    (htakes : Takes t d o t') :
    o ∉ made h := by
  intro hmade
  obtain ⟨⟨slot, hslot, hgeneration, hnone⟩, _⟩ | ⟨hsize, _⟩ := htakes.place
  · by_cases hgone : o ∈ destroyed h
    · have hpast := hf.past o hgone
      have hnow := hf.generation o.index slot hslot
      rw [hgeneration] at hnow
      omega
    · have halive := (hf.alive o).mp (mem_living.mpr ⟨hmade, hgone⟩)
      simp [ObjectTable.get?, hslot, hgeneration, hnone] at halive
  · have hinside := hf.inside o hmade
    omega

theorem size_le_of_takes {t' : ObjectTable} {d : Definition} {o : ObjectRef}
    (htakes : Takes t d o t') :
    t.slots.size ≤ t'.slots.size ∧ o.index.toNat < t'.slots.size := by
  refine ⟨?_, (Array.getElem?_eq_some_iff.mp htakes.slot).1⟩
  obtain ⟨_, _, hsize⟩ | ⟨_, _, _, _, hsize⟩ := htakes.place <;> omega

theorem made (hf : Faithful t h) {t' : ObjectTable} {d : Definition} {o : ObjectRef}
    (htakes : Takes t d o t') :
    Faithful t' (.made o d :: h) := by
  have hnew := hf.new_of_takes htakes
  -- The slot is one that has been freed, or the next one behind all others. Either way the handle
  -- is new.
  have hkept : o ∉ destroyed h := fun hgone => hnew (hf.made_of_destroyed o hgone)
  have hliving := living_made (d := d) hkept
  obtain ⟨hgrown, hin⟩ := size_le_of_takes htakes
  have hmade : History.made (.made o d :: h) = o :: History.made h := rfl
  exact {
    generation := fun i slot hslot => by
      by_cases hi : o.index = i
      · subst hi
        obtain rfl : _ = slot := Option.some.inj (htakes.slot.symm.trans hslot)
        obtain ⟨⟨slot', hslot', hgeneration, _⟩, _⟩ | ⟨hsize, hzero, _⟩ := htakes.place
        · exact hgeneration ▸ hf.generation o.index slot' hslot'
        · rw [hzero]
          exact (hf.timesFreed_eq_zero (Nat.le_of_eq hsize)).symm
      · exact hf.generation i slot (htakes.others i hi ▸ hslot)
    inside := fun o' ho' => by
      obtain rfl | ho' := List.mem_cons.mp ho'
      · exact hin
      · exact Nat.lt_of_lt_of_le (hf.inside o' ho') hgrown
    past := hf.past
    alive := fun o' => by
      rw [hliving, get?_of_takes htakes, List.mem_cons, hf.alive]
      split <;> simp [*]
    object := fun o' object ho' => by
      rw [get?_of_takes htakes] at ho'
      rw [definition?_made]
      split at ho' <;> rename_i heq
      · obtain rfl : _ = object := Option.some.inj ho'
        refine ⟨by simp [heq], fun name => ?_⟩
        have hnone : assigned? o' name h = none := by
          rw [Option.eq_none_iff_forall_ne_some]
          exact fun v hv => hnew (heq ▸ hf.made_of_assigned o' name v hv)
        rw [show assigned? o' name (.made o d :: h) = _ from hnone]
        simp
      · rw [if_neg (Ne.symm heq)]
        exact hf.object o' object ho'
    vacant := fun i hi => by
      obtain ⟨_, hfree, _⟩ | ⟨_, _, _, hfree, _⟩ := htakes.place
      · have hnodup := hf.free_nodup
        rw [hfree, List.nodup_cons] at hnodup
        have hne : o.index ≠ i := fun heq => hnodup.1 (heq ▸ hi)
        rw [htakes.others i hne]
        exact hf.vacant i (hfree ▸ List.mem_cons_of_mem _ hi)
      · simp [hfree] at hi
    free_nodup := by
      obtain ⟨_, hfree, _⟩ | ⟨_, _, _, hfree, _⟩ := htakes.place
      · have hnodup := hf.free_nodup
        rw [hfree, List.nodup_cons] at hnodup
        exact hnodup.2
      · simp [hfree]
    count := by
      have hcount := hf.count
      rw [hliving, List.length_cons]
      obtain ⟨_, hfree, hsize⟩ | ⟨_, _, hfree, hfree', hsize⟩ := htakes.place
      · rw [hfree, List.length_cons] at hcount
        omega
      · rw [hfree] at hcount
        rw [hfree']
        omega
    made_nodup := List.nodup_cons.mpr ⟨hnew, hf.made_nodup⟩
    made_of_destroyed := fun o' ho' => List.mem_cons_of_mem _ (hf.made_of_destroyed o' ho')
    made_of_assigned :=
      fun o' name v hv => List.mem_cons_of_mem _ (hf.made_of_assigned o' name v hv)
    made_of_numbered := fun o' ho' => List.mem_cons_of_mem _ (hf.made_of_numbered o' ho')
    numbers := htakes.idOf ▸ hf.numbers
    nextId := htakes.nextId ▸ hf.nextId }

/-! ### Assigning -/

theorem assigned (hf : Faithful t h) {o : ObjectRef} (halive : (t.get? o).isSome) (name : String)
    (v : Value) :
    Faithful (t.assign o name v) (.assigned o name v :: h) where
  generation i slot hslot := by
    rw [ObjectTable.assign, ObjectTable.slot_modifySlot] at hslot
    split at hslot
    · obtain ⟨slot', hslot', rfl⟩ := Option.map_eq_some_iff.mp hslot
      exact hf.generation i slot' hslot'
    · exact hf.generation i slot hslot
  inside o' ho' := by
    rw [ObjectTable.assign, ObjectTable.size_modifySlot]
    exact hf.inside o' ho'
  past := hf.past
  alive o' := by
    rw [show living (.assigned o name v :: h) = living h from rfl, hf.alive,
      t.get?_assign _ _ halive]
    split <;> simp [*]
  object o' object ho' := by
    rw [t.get?_assign _ _ halive] at ho'
    rw [show definition? o' (.assigned o name v :: h) = definition? o' h from rfl]
    simp only [assigned?_assigned]
    split at ho' <;> rename_i heq
    · subst heq
      obtain ⟨object', hobject', rfl⟩ := Option.map_eq_some_iff.mp ho'
      obtain ⟨hdefinition, hvars⟩ := hf.object o' object' hobject'
      refine ⟨hdefinition, fun x => ?_⟩
      rw [Std.ExtTreeMap.getElem?_insert, hvars]
      simp
    · refine ⟨(hf.object o' object ho').1, fun x => ?_⟩
      rw [if_neg fun hand => heq hand.1.symm]
      exact (hf.object o' object ho').2 x
  vacant i hi := by
    obtain ⟨slot, hslot, hnone⟩ := hf.vacant i hi
    rw [ObjectTable.assign, ObjectTable.slot_modifySlot, hslot]
    split
    · exact ⟨_, rfl, by simp [hnone]⟩
    · exact ⟨slot, rfl, hnone⟩
  free_nodup := hf.free_nodup
  count := by
    rw [ObjectTable.assign, ObjectTable.size_modifySlot]
    exact hf.count
  made_nodup := hf.made_nodup
  made_of_destroyed := hf.made_of_destroyed
  made_of_assigned o' x w hw := by
    rw [assigned?_assigned] at hw
    split at hw <;> rename_i heq
    · exact heq.1 ▸ (mem_living.mp ((hf.alive o).mpr halive)).1
    · exact hf.made_of_assigned o' x w hw
  made_of_numbered := hf.made_of_numbered
  numbers := hf.numbers
  nextId := hf.nextId

/-! ### Numbering -/

theorem referenceId (hf : Faithful t h) {o : ObjectRef} (halive : (t.get? o).isSome) :
    ∃ t', t.referenceId o = .ok (UInt32.ofNat ((numbered h).idxOf o), t') ∧ t'.types = t.types ∧
      t'.slots = t.slots ∧ Faithful t' (.numbered o :: h) := by
  obtain ⟨object, ho⟩ := Option.isSome_iff_exists.mp halive
  obtain ⟨hmade, hkept⟩ := hf.not_destroyed ho
  have hget : t.get o = .ok object := by simp only [ObjectTable.get, ho]
  have hnumber := hf.numbers o hkept
  by_cases hasked : o ∈ numbered h
  · have hsame : numbered (.numbered o :: h) = numbered h := if_pos hasked
    rw [if_pos hasked] at hnumber
    refine ⟨t, by simp only [ObjectTable.referenceId, hget, hnumber]; rfl, rfl, rfl, ?_⟩
    exact { hf with
      made_of_numbered := hsame ▸ hf.made_of_numbered
      numbers := by
        rw [hsame]
        exact hf.numbers
      nextId := hsame ▸ hf.nextId }
  · have hmore : numbered (.numbered o :: h) = numbered h ++ [o] := if_neg hasked
    rw [if_neg hasked] at hnumber
    have hindex : (numbered h).idxOf o = (numbered h).length := List.idxOf_eq_length hasked
    let t' : ObjectTable := { t with
      nextId :=
        t.nextId + 1, idOf := t.idOf.insert o t.nextId, objectOf := t.objectOf.insert t.nextId o }
    refine ⟨t', ?_, rfl, rfl, ?_⟩
    · simp only [ObjectTable.referenceId, hget, hnumber, hindex, ← hf.nextId]
      rfl
    · exact { hf with
        made_of_numbered := fun o' ho' => by
          rw [hmore, List.mem_append, List.mem_singleton] at ho'
          obtain ho' | rfl := ho'
          · exact hf.made_of_numbered o' ho'
          · exact hmade
        numbers := fun o' ho' => by
          rw [hmore, Std.ExtTreeMap.getElem?_insert, hf.numbers o' ho', List.idxOf_append]
          by_cases heq : o' = o
          · subst heq
            simp [hasked, hf.nextId]
          · have hcompare : compare o o' ≠ .eq :=
              fun hc => heq (Std.LawfulEqOrd.eq_of_compare hc).symm
            simp only [hcompare, if_false, List.mem_append, List.mem_singleton, heq, or_false]
            split <;> rfl
        nextId := by
          rw [hmore, List.length_append]
          simp [t', hf.nextId] }

/-! ### Destroying an object -/

theorem destroyed (hf : Faithful t h) {o : ObjectRef} (halive : (t.get? o).isSome)
    (htimes : timesFreed o.index (.destroyed o :: h) < 2 ^ 32) : Faithful (t.retire o)
    (.destroyed o :: h) := by
  obtain ⟨object, ho⟩ := Option.isSome_iff_exists.mp halive
  obtain ⟨slot, hslot, hgeneration, hobject⟩ := t.get?_eq_some.mp ho
  obtain ⟨hmade, hkept⟩ := hf.not_destroyed ho
  -- The handle has the generation that its slot has now, which the slot has left for good after
  -- this.
  have hnow : o.generation.toNat = timesFreed o.index h :=
    hgeneration ▸ hf.generation o.index slot hslot
  have hgone : History.destroyed (.destroyed o :: h) = o :: History.destroyed h := rfl
  rw [timesFreed_destroyed, if_pos rfl] at htimes
  exact {
    generation := fun i slot' hslot' => by
      rw [ObjectTable.retire_slot] at hslot'
      rw [timesFreed_destroyed]
      split at hslot' <;> rename_i hi
      · subst hi
        rw [hslot] at hslot'
        obtain rfl := Option.some.inj hslot'
        rw [if_pos rfl, UInt32.toNat_add, hgeneration, hnow]
        exact Nat.mod_eq_of_lt htimes
      · rw [if_neg hi]
        exact hf.generation i slot' hslot'
    inside := fun o' ho' => (t.retire_size o).symm ▸ hf.inside o' ho'
    past := fun o' ho' => by
      rw [hgone, List.mem_cons] at ho'
      obtain rfl | ho' := ho'
      · rw [timesFreed_destroyed, if_pos rfl, hnow]
        exact Nat.lt_succ_self _
      · exact Nat.lt_of_lt_of_le (hf.past o' ho') (timesFreed_le_destroyed _)
    alive := fun o' => by
      rw [living_destroyed, List.mem_filter, hf.alive, t.get?_retire halive]
      by_cases heq : o' = o <;> simp [heq]
    object := fun o' object' ho' => by
      rw [t.get?_retire halive] at ho'
      split at ho'
      · exact absurd ho' (by simp)
      · exact hf.object o' object' ho'
    vacant := fun i hi => by
      rw [t.retire_free, List.mem_cons] at hi
      rw [ObjectTable.retire_slot]
      split <;> rename_i heq
      · rw [← heq, hslot]
        exact ⟨_, rfl, rfl⟩
      · exact hf.vacant i (hi.resolve_left (Ne.symm heq))
    free_nodup := by
      rw [t.retire_free, List.nodup_cons]
      refine ⟨fun hfree => ?_, hf.free_nodup⟩
      obtain ⟨slot', hslot', hnone⟩ := hf.vacant o.index hfree
      obtain rfl : slot = slot' := Option.some.inj (hslot.symm.trans hslot')
      simp [hobject] at hnone
    count := by
      have hliving : o ∈ living h := (hf.alive o).mpr halive
      have hnodup : (living h).Nodup := hf.made_nodup.filter _
      have hlength := List.length_erase_of_mem hliving
      have hpos := List.length_pos_of_mem hliving
      have hcount := hf.count
      rw [hnodup.erase_eq_filter] at hlength
      rw [t.retire_size, t.retire_free, List.length_cons, living_destroyed]
      have hfilter : (living h).filter (· ≠ o) = (living h).filter (· != o) :=
        List.filter_congr fun x _ => by simp [bne, BEq.beq]
      rw [hfilter]
      omega
    made_nodup := hf.made_nodup
    made_of_destroyed := fun o' ho' => by
      rw [hgone, List.mem_cons] at ho'
      obtain rfl | ho' := ho'
      · exact hmade
      · exact hf.made_of_destroyed o' ho'
    made_of_assigned := hf.made_of_assigned
    made_of_numbered := hf.made_of_numbered
    numbers := fun o' ho' => by
      rw [hgone, List.mem_cons, not_or] at ho'
      rw [t.retire_idOf ho'.1]
      exact hf.numbers o' ho'.2
    nextId := (t.retire_nextId o).trans hf.nextId }

end Faithful

end ProcEngine
