import ProcEngine.Proofs.World.Ancestry
import ProcEngine.Proofs.World.Preparation
/-!
# Overrides linked

Building a definition links its procs to the inherited ones that they override. Nothing else about
any proc changes, and nothing at all about the procs that were there before the load. Tables of
procs and variables are merged by name, and the later entry wins.
-/

namespace ProcEngine

namespace Runtime

/-- All but the types, the global names and the procs. -/
def bare (rt : Runtime) : Runtime :=
  { rt with
    store := { rt.store with objects := { rt.store.objects with types := ∅ } }
    procs := #[]
    globals := ∅ }

/-- The proc that was added with the number. -/
def proc? (rt : Runtime) : Nat → Option Proc
  | 0 => none
  | i + 1 => rt.procs[i]?

variable {rt rt' : Runtime} {r : Registry} {n : Nat}

theorem proc_of_proc? {q : ProcRef} {p : Proc} (h : rt.proc? q.id = some p) : rt.proc q = p := by
  obtain ⟨id, name⟩ := q
  cases id with
  | zero => cases h
  | succ i =>
    have h : rt.procs[i]? = some p := h
    simp only [proc, h]
    rfl

theorem proc_congr {q : ProcRef} (h : rt'.proc? q.id = rt.proc? q.id) : rt'.proc q = rt.proc q := by
  obtain ⟨id, name⟩ := q
  cases id with
  | zero => rfl
  | succ i =>
    have h : rt'.procs[i]? = rt.procs[i]? := h
    simp only [proc, h]

theorem proc?_isSome_iff {id : Nat} : (∃ p, rt.proc? id = some p) ↔ 0 < id ∧
    id ≤ rt.procs.size := by
  cases id with
  | zero => simp [proc?]
  | succ i =>
    rw [proc?, ← Option.isSome_iff_exists, isSome_getElem?, Nat.succ_le_iff,
      and_iff_right (Nat.succ_pos i)]

theorem proc?_of_lt {id : Nat} (hid : rt.procs.size < id) : rt.proc? id = none := by
  refine Option.eq_none_iff_forall_ne_some.mpr fun p hp => ?_
  have hthere := (proc?_isSome_iff.mp ⟨p, hp⟩).2
  omega

theorem proc?_grow_old {id : Nat} (new : List Proc) (hid : id ≤ rt.procs.size) :
    (rt.grow new).proc? id = rt.proc? id := by
  cases id with
  | zero => rfl
  | succ i => simp [proc?, grow, Array.getElem?_append_left (Nat.lt_of_succ_le hid)]

theorem proc?_grow_new (rt : Runtime) (new : List Proc) (k : Nat) :
    (rt.grow new).proc? (rt.procs.size + k + 1) = new[k]? := by
  show (rt.procs ++ new.toArray)[rt.procs.size + k]? = new[k]?
  rw [Array.getElem?_append_right (Nat.le_add_right _ _), Nat.add_sub_cancel_left,
    List.getElem?_toArray]

theorem link_eq (rt : Runtime) (o : Override) : ∃ procs, rt.link o = { rt with procs } := by
  rw [link]
  split
  · exact ⟨rt.procs, rfl⟩
  · exact ⟨_, rfl⟩

@[simp] theorem size_link (rt : Runtime) (o : Override) :
    (rt.link o).procs.size = rt.procs.size := by
  rw [link]
  split
  · rfl
  · exact Array.size_modify

/-- Linking an override changes nothing but what it overrides. -/
theorem proc?_link (rt : Runtime) (o : Override) (id : Nat) :
    (rt.link o).proc? id = (rt.proc? id).map fun p =>
      if id = o.proc.id then { p with overridden := p.overridden <|> some o.overridden }
        else p := by
  rw [link]
  cases hid : o.proc.id with
  | zero =>
    cases id with
    | zero => rfl
    | succ i => simp [proc?]
  | succ j =>
    cases id with
    | zero => rfl
    | succ i =>
      simp only [proc?, Array.getElem?_modify, Nat.add_right_cancel_iff]
      by_cases hij : j = i
      · simp [hij]
      · simp [hij, Ne.symm hij]

/-! ### Linking -/

/-- Only what procs beyond the first `n` override may change. -/
structure Relinks (n : Nat) (rt rt' : Runtime) : Prop where
  rest : ∃ procs, rt' = { rt with procs }
  size : rt'.procs.size = rt.procs.size
  procs : ∀ id p, rt.proc? id = some p →
    ∃ o, rt'.proc? id = some { p with overridden := o } ∧ (id ≤ n → o = p.overridden)

namespace Relinks

theorem refl (n : Nat) (rt : Runtime) : Relinks n rt rt where
  rest := ⟨rt.procs, rfl⟩
  size := rfl
  procs _ p hp := ⟨p.overridden, hp, fun _ => rfl⟩

theorem trans {rt'' : Runtime} (h : Relinks n rt rt') (h' : Relinks n rt' rt'') :
    Relinks n rt rt'' where
  rest := by
    obtain ⟨_, rfl⟩ := h.rest
    obtain ⟨procs, rfl⟩ := h'.rest
    exact ⟨procs, rfl⟩
  size := h'.size.trans h.size
  procs id p hp := by
    obtain ⟨o, ho, hold⟩ := h.procs id p hp
    obtain ⟨o', ho', hold'⟩ := h'.procs id _ ho
    exact ⟨o', ho', fun hid => (hold' hid).trans (hold hid)⟩

theorem link (rt : Runtime) {o : Override} (ho : n < o.proc.id) : Relinks n rt (rt.link o) where
  rest := link_eq rt o
  size := size_link rt o
  procs id p hp := by
    rw [proc?_link, hp]
    by_cases hid : id = o.proc.id
    · exact ⟨_, by rw [Option.map_some, if_pos hid], fun hle => absurd hle (by omega)⟩
    · exact ⟨p.overridden, by rw [Option.map_some, if_neg hid], fun _ => rfl⟩

theorem links {overrides : List Override} (rt : Runtime) (hnew : ∀ o ∈ overrides, n < o.proc.id) :
    Relinks n rt (overrides.foldl Runtime.link rt) := by
  induction overrides generalizing rt with
  | nil => exact refl n rt
  | cons o overrides ih =>
    rw [List.forall_mem_cons] at hnew
    exact (link rt hnew.1).trans (ih _ hnew.2)

theorem old (h : Relinks n rt rt') {id : Nat} (hid : id ≤ n) : rt'.proc? id = rt.proc? id := by
  cases hp : rt.proc? id with
  | some p =>
    obtain ⟨o, ho, hold⟩ := h.procs id p hp
    rw [ho, hold hid]
  | none =>
    refine Option.eq_none_iff_forall_ne_some.mpr fun p hp' => ?_
    have hthere := proc?_isSome_iff.mp ⟨p, hp'⟩
    rw [h.size] at hthere
    obtain ⟨p', hp'⟩ := proc?_isSome_iff.mpr hthere
    cases hp.symm.trans hp'

end Relinks

end Runtime

/-! ### Tables put over others -/

theorem lookup_insertMany {α : Type} (names own : Names α) (x : String) :
    (names.insertMany own.toList)[x]? = (own[x]? <|> names[x]?) := by
  cases hown : own[x]? with
  | some v =>
    rw [Std.ExtTreeMap.getElem?_insertMany_list_of_mem Std.ReflCmp.compare_self
      Std.ExtTreeMap.distinct_keys_toList
      (Std.ExtTreeMap.mem_toList_iff_getElem?_eq_some.mpr hown)]
    rfl
  | none =>
    rw [Std.ExtTreeMap.getElem?_insertMany_list_of_contains_eq_false]
    · rfl
    · rw [Std.ExtTreeMap.map_fst_toList_eq_keys, List.contains_eq_mem, decide_eq_false_iff_not,
        Std.ExtTreeMap.mem_keys]
      exact not_mem_iff_lookup.mpr hown

theorem addProcs_cons (table : Names ProcRef) (q : String × ProcRef)
    (procs : List (String × ProcRef)) :
    (addProcs table (q :: procs)).1 = (addProcs (table.insert q.1 q.2) procs).1 := by
  simp only [addProcs]
  split <;> rfl

theorem addProcs_of_not_mem {table : Names ProcRef} {procs : List (String × ProcRef)}
    {name : String}
    (hname : name ∉ procs.map Prod.fst) : (addProcs table procs).1[name]? = table[name]? := by
  induction procs generalizing table with
  | nil => rfl
  | cons q procs ih =>
    rw [List.map_cons, List.mem_cons, not_or] at hname
    rw [addProcs_cons, ih hname.2, Std.ExtTreeMap.getElem?_insert]
    simp [Ne.symm hname.1]

theorem addProcs_of_mem (table : Names ProcRef) {procs : List (String × ProcRef)} {name : String}
    (hname : name ∈ procs.map Prod.fst) : ∃ q, (name, q) ∈ procs ∧
      (addProcs table procs).1[name]? = some q := by
  induction procs generalizing table with
  | nil => simp at hname
  | cons q procs ih =>
    rw [addProcs_cons]
    by_cases hlater : name ∈ procs.map Prod.fst
    · obtain ⟨q', hmem, hlookup⟩ := ih (table.insert q.1 q.2) hlater
      exact ⟨q', List.mem_cons_of_mem _ hmem, hlookup⟩
    · obtain rfl : name = q.1 := by simpa [hlater] using hname
      exact ⟨q.2, List.mem_cons_self,
        by rw [addProcs_of_not_mem hlater, Std.ExtTreeMap.getElem?_insert_self]⟩

/-- Only a proc that is added overrides. -/
theorem override_mem {table : Names ProcRef} {procs : List (String × ProcRef)} {o : Override}
    (ho : o ∈ (addProcs table procs).2) : ∃ name, (name, o.proc) ∈ procs := by
  induction procs generalizing table with
  | nil => simp [addProcs] at ho
  | cons q procs ih =>
    simp only [addProcs] at ho
    split at ho
    · obtain rfl | ho := List.mem_cons.mp ho
      · exact ⟨q.1, List.mem_cons_self⟩
      · exact (ih ho).imp fun _ => List.mem_cons_of_mem _
    · exact (ih ho).imp fun _ => List.mem_cons_of_mem _

namespace Assembly

variable {fuel n : Nat} {visiting : List String} {path : String} {a a' : Assembly} {d : Definition}

/-- Every proc of a type that is still to be built comes after the first `n`. -/
def Brings (a : Assembly) (n : Nat) : Prop :=
  ∀ (path : String) (p : PendingType), a.pending[path]? = some p → ∀ q ∈ p.spec.procs, n < q.2.id

theorem relinks_of_build (hnew : a.Brings n) (hbuild : a.build fuel visiting path = .ok (d, a')) :
    a.runtime.Relinks n a'.runtime ∧ a'.Brings n := by
  induction fuel generalizing visiting path a d a' hnew with
  | zero => cases hbuild
  | succ fuel ih =>
    obtain ⟨_, rfl⟩ | ⟨_, _, ⟨_, _, rfl⟩ | ⟨p, parent, a₁, hp, _, rfl, hup⟩⟩ :=
      build_ok_iff.mp hbuild
    · exact ⟨.refl n _, hnew⟩
    · exact ⟨.refl n _, hnew⟩
    · have htaken : (a.take path).Brings n := fun x q hq => by
        rw [take, Std.ExtTreeMap.getElem?_erase] at hq
        split at hq
        · cases hq
        · exact hnew x q hq
      have hbefore : a.runtime.Relinks n a₁.runtime ∧ a₁.Brings n := by
        obtain ⟨_, _, rfl⟩ | ⟨_, _, _, _, hrec⟩ := hup
        · exact ⟨.refl n _, htaken⟩
        · have hrelinks := ih htaken hrec
          exact hrelinks
      refine ⟨hbefore.1.trans (Runtime.Relinks.links _ fun o ho => ?_), hbefore.2⟩
      obtain ⟨name, hmem⟩ := override_mem ho
      exact hnew path p hp _ hmem

theorem relinks_of_buildAll {paths : List String} (hnew : a.Brings n)
    (hbuild : a.buildAll fuel paths = .ok a') :
    a.runtime.Relinks n a'.runtime := by
  induction paths generalizing a with
  | nil =>
    cases hbuild
    exact .refl n _
  | cons path paths ih =>
    obtain ⟨⟨d, a₁⟩, hfirst, hrest⟩ := Except.of_bind_eq_ok hbuild
    obtain ⟨hrelinks, hnew'⟩ := relinks_of_build hnew hfirst
    exact hrelinks.trans (ih hnew' hrest)

end Assembly

end ProcEngine
