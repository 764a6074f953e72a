import ProcEngine.Proofs.World.Linking
/-!
# What procs override

A proc overrides at most one other, which it is linked to once and for all. `Runtime.Supers` is the
way from a proc to the one that it overrides and so on; a way that comes to an end passes no proc
twice.
-/

namespace ProcEngine

namespace Runtime

variable {rt rt' : Runtime} {id : Nat} {q q' : ProcRef} {qs qs' : List ProcRef}

/-- What the proc that was added with the number overrides. -/
def overridden (rt : Runtime) (id : Nat) : Option ProcRef := (rt.proc? id).bind Proc.overridden

theorem overridden_proc (rt : Runtime) (q : ProcRef) :
    (rt.proc q).overridden = rt.overridden q.id := by
  obtain ⟨id, name⟩ := q
  cases id with
  | zero => rfl
  | succ i =>
    simp only [proc, overridden, proc?]
    cases rt.procs[i]? <;> rfl

theorem overridden_of_lt (hid : rt.procs.size < id) : rt.overridden id = none := by
  rw [overridden, proc?_of_lt hid]
  rfl

theorem overridden_grow {new : List Proc} (hnew : ∀ p ∈ new, p.overridden = none) (id : Nat) :
    (rt.grow new).overridden id = rt.overridden id := by
  by_cases hid : id ≤ rt.procs.size
  · rw [overridden, proc?_grow_old new hid, overridden]
  · obtain ⟨k, rfl⟩ : ∃ k, id = rt.procs.size + k + 1 := ⟨id - rt.procs.size - 1, by omega⟩
    have hnobody : rt.overridden (rt.procs.size + k + 1) = none := overridden_of_lt (by omega)
    rw [hnobody, overridden, proc?_grow_new]
    cases hp : new[k]? with
    | none => rfl
    | some p => exact hnew p (List.mem_of_getElem? hp)

/-! ### Linking -/

theorem overridden_link (rt : Runtime) (o : Override) (id : Nat) : (rt.link o).overridden id =
    if o.proc.id = id ∧ 0 < id ∧ id ≤ rt.procs.size then (rt.overridden id <|> some o.overridden)
    else rt.overridden id := by
  rw [overridden, proc?_link, overridden]
  cases hp : rt.proc? id with
  | none =>
    rw [if_neg fun h => (proc?_isSome_iff.mpr h.2).elim fun p hp' => by simp [hp] at hp']; rfl
  | some p =>
    have hadded := proc?_isSome_iff.mp ⟨p, hp⟩
    by_cases hid : o.proc.id = id
    · rw [if_pos ⟨hid, hadded⟩, Option.map_some, if_pos hid.symm]
      rfl
    · rw [if_neg fun h => hid h.1, Option.map_some, if_neg (Ne.symm hid)]

/-- Of several overrides with one proc the first counts, and none if the proc is linked already. -/
theorem overridden_links (rt : Runtime) (overrides : List Override) (id : Nat) :
    (overrides.foldl link rt).overridden id =
      if 0 < id ∧ id ≤ rt.procs.size then
        (rt.overridden id <|> (overrides.find? fun o => o.proc.id = id).map Override.overridden)
      else rt.overridden id := by
  induction overrides generalizing rt with
  | nil => simp
  | cons o overrides ih =>
    rw [List.foldl_cons, ih, size_link, overridden_link, List.find?_cons]
    by_cases hadded : 0 < id ∧ id ≤ rt.procs.size
    · by_cases hid : o.proc.id = id <;> simp [hadded, hid]
    · simp [hadded]

/-! ### Following the links -/

/-- The procs on the way from one to the procs that it overrides, itself first, if the way comes to
an end. -/
inductive Supers (rt : Runtime) : ProcRef → List ProcRef → Prop
  | last {q : ProcRef} : (rt.proc q).overridden = none → Supers rt q [q]
  | next {q q' : ProcRef} {qs : List ProcRef} : (rt.proc q).overridden = some q' → Supers rt q' qs →
    Supers rt q (q :: qs)

namespace Supers

theorem head? (h : rt.Supers q qs) : qs.head? = some q := by cases h <;> rfl

theorem unique (h : rt.Supers q qs) (h' : rt.Supers q qs') : qs = qs' := by
  induction h generalizing qs' with
  | last hlast =>
    cases h' with
    | last _ => rfl
    | next hnext _ => cases hlast.symm.trans hnext
  | next hnext _ ih =>
    cases h' with
    | last hlast => cases hlast.symm.trans hnext
    | next hnext' hrest =>
      cases hnext.symm.trans hnext'
      rw [ih hrest]

theorem length_eq (h : rt.Supers q qs) (hid : q.id = q'.id) (h' : rt.Supers q' qs') :
    qs.length = qs'.length := by
  have hsame : (rt.proc q).overridden = (rt.proc q').overridden := by
    rw [overridden_proc, overridden_proc, hid]
  cases h with
  | last hlast =>
    cases h' with
    | last _ => rfl
    | next hnext _ => cases (hsame.symm.trans hlast).symm.trans hnext
  | next hnext hrest =>
    cases h' with
    | last hlast => cases (hsame.trans hlast).symm.trans hnext
    | next hnext' hrest' =>
      cases (hsame.trans hnext').symm.trans hnext
      rw [List.length_cons, List.length_cons, hrest.unique hrest']

theorem of_mem (h : rt.Supers q qs) (hq' : q' ∈ qs) : ∃ rest, rt.Supers q' rest ∧
    rest.length ≤ qs.length := by
  induction h with
  | last hlast =>
    obtain rfl := List.mem_singleton.mp hq'
    exact ⟨_, .last hlast, Nat.le_refl _⟩
  | next hnext hrest ih =>
    obtain rfl | hq' := List.mem_cons.mp hq'
    · exact ⟨_, .next hnext hrest, Nat.le_refl _⟩
    · obtain ⟨rest, hrest, hlength⟩ := ih hq'
      exact ⟨rest, hrest, Nat.le_succ_of_le hlength⟩

/-- A way that comes to an end passes by no proc twice. -/
theorem nodup (h : rt.Supers q qs) : (qs.map ProcRef.id).Nodup := by
  induction h with
  | last _ => exact List.nodup_singleton _
  | @next q q' qs hnext hrest ih =>
    refine List.nodup_cons.mpr ⟨fun hagain => ?_, ih⟩
    obtain ⟨q'', hmem, hid⟩ := List.mem_map.mp hagain
    obtain ⟨rest, hrest', hlength⟩ := hrest.of_mem hmem
    have := (Supers.next hnext hrest).length_eq hid.symm hrest'
    rw [List.length_cons] at this
    omega

theorem overridden_getElem (h : rt.Supers q qs) {i : Nat} {q' : ProcRef} (hi : qs[i]? = some q') :
    (rt.proc q').overridden = qs[i + 1]? := by
  induction h generalizing i with
  | last hlast =>
    cases i with
    | zero =>
      cases hi
      exact hlast
    | succ i => simp at hi
  | next hnext hrest ih =>
    cases i with
    | zero =>
      cases hi
      rw [hnext, List.getElem?_cons_succ, ← List.head?_eq_getElem?, hrest.head?]
    | succ i => exact ih hi

theorem congr (h : rt.Supers q qs)
    (hsame : ∀ q ∈ qs, (rt'.proc q).overridden = (rt.proc q).overridden) :
    rt'.Supers q qs := by
  induction h with
  | last hlast => exact .last ((hsame _ List.mem_cons_self).trans hlast)
  | next hnext _ ih =>
    rw [List.forall_mem_cons] at hsame
    exact .next (hsame.1.trans hnext) (ih hsame.2)

end Supers

end Runtime

end ProcEngine
