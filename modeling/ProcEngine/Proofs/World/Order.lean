import Mathlib.Data.List.Nodup
import ProcEngine.Proofs.World.Installation
import ProcEngine.Proofs.World.Renaming
/-!
# The order of the types

Types that are listed in another order have their procs added in another order, and the same is
built of them but for the references. The renaming takes each proc from its place in one order to
its place in the other.
-/

namespace ProcEngine

/-! ### Places in two orders -/

section Places

variable {α : Type} [DecidableEq α] {l l' : List α} {n i : Nat} {x : α}

/-- Where in the second list is what the first has at a place. -/
def reindex (l l' : List α) (i : Nat) : Nat :=
  match l[i]? with
  | some x => l'.idxOf x
  | none => i

theorem reindex_eq (hnodup : l'.Nodup) {j : Nat} (hi : l[i]? = some x) (hj : l'[j]? = some x) :
    reindex l l' i = j := by
  obtain ⟨hlt, rfl⟩ := List.getElem?_eq_some_iff.mp hj
  simp only [reindex, hi]
  exact hnodup.idxOf_getElem j hlt

theorem reindex_of_le (hi : l.length ≤ i) : reindex l l' i = i := by
  simp only [reindex, List.getElem?_eq_none hi]

theorem reindex_reindex (hnodup : l.Nodup) (hperm : l.Perm l') (i : Nat) :
    reindex l' l (reindex l l' i) = i := by
  have hnodup' := hperm.nodup_iff.mp hnodup
  cases hi : l[i]? with
  | some x =>
    obtain ⟨j, hj⟩ := List.getElem?_of_mem (hperm.mem_iff.mp (List.mem_of_getElem? hi))
    rw [reindex_eq hnodup' hi hj, reindex_eq hnodup hj hi]
  | none =>
    have hle := List.getElem?_eq_none_iff.mp hi
    rw [reindex_of_le hle, reindex_of_le (by rwa [← hperm.length_eq])]

/-- The renaming that takes what is added after the first `n` from one order to the other. -/
def reordering (n : Nat) (hnodup : l.Nodup) (hperm : l.Perm l') : Equiv.Perm Nat where
  toFun id := if id ≤ n then id else n + reindex l l' (id - n - 1) + 1
  invFun id := if id ≤ n then id else n + reindex l' l (id - n - 1) + 1
  left_inv id := by
    dsimp only
    split
    · rfl
    · rw [if_neg (by omega), show n + reindex l l' (id - n - 1) + 1 - n - 1 =
        reindex l l' (id - n - 1) by omega, reindex_reindex hnodup hperm]
      omega
  right_inv id := by
    dsimp only
    split
    · rfl
    · rw [if_neg (by omega), show n + reindex l' l (id - n - 1) + 1 - n - 1 =
        reindex l' l (id - n - 1) by omega, reindex_reindex (hperm.nodup_iff.mp hnodup) hperm.symm]
      omega

variable {hnodup : l.Nodup} {hperm : l.Perm l'}

theorem reordering_old {id : Nat} (hid : id ≤ n) : reordering n hnodup hperm id = id := if_pos hid

theorem reordering_later {id : Nat} (hid : n + l.length < id) :
    reordering n hnodup hperm id = id := by
  show (if id ≤ n then id else n + reindex l l' (id - n - 1) + 1) = id
  rw [if_neg (by omega), reindex_of_le (by omega)]
  omega

theorem reordering_new {j : Nat} (hi : l[i]? = some x) (hj : l'[j]? = some x) :
    reordering n hnodup hperm (n + i + 1) = n + j + 1 := by
  show (if n + i + 1 ≤ n then n + i + 1 else n + reindex l l' (n + i + 1 - n - 1) + 1) = n + j + 1
  rw [if_neg (by omega), show n + i + 1 - n - 1 = i by omega,
    reindex_eq (hperm.nodup_iff.mp hnodup) hi hj]

end Places

theorem exists_of_lt_flatMap {α β : Type} (f : α → List β) {l : List α} {i : Nat}
    (hi : i < (l.flatMap f).length) :
    ∃ before x after k, l = before ++ x :: after ∧ k < (f x).length ∧
      i = (before.flatMap f).length + k := by
  induction l generalizing i with
  | nil => simp at hi
  | cons x l ih =>
    by_cases hfirst : i < (f x).length
    · exact ⟨[], x, l, i, rfl, hfirst, by simp⟩
    · rw [List.flatMap_cons, List.length_append] at hi
      obtain ⟨before, y, after, k, rfl, hk, hi'⟩ := ih (i := i - (f x).length) (by omega)
      refine ⟨x :: before, y, after, k, rfl, hk, ?_⟩
      rw [List.flatMap_cons, List.length_append]
      omega

namespace CompiledType

/-- The places of the procs of a type: its path, and where they are among the procs of the type. -/
def places (ty : CompiledType) : List (String × Nat) :=
  (List.range ty.members.length).map (ty.path, ·)

theorem length_places (types : List CompiledType) :
    (types.flatMap places).length = (types.flatMap members).length := by
  simp [List.length_flatMap, places]

theorem nodup_places {types : List CompiledType} (hdistinct : (types.map CompiledType.path).Nodup) :
    (types.flatMap places).Nodup := by
  refine List.nodup_flatMap.mpr ⟨fun ty _ => ?_, ?_⟩
  · exact List.nodup_range.map fun _ _ heq => (Prod.mk.inj heq).2
  · refine (List.pairwise_map.mp hdistinct).imp fun {ty ty'} hne place hty hty' => ?_
    obtain ⟨_, _, rfl⟩ := List.mem_map.mp hty
    obtain ⟨_, _, heq⟩ := List.mem_map.mp hty'
    exact hne (Prod.mk.inj heq).1.symm

theorem getElem?_places {types before after : List CompiledType} {ty : CompiledType} {k : Nat}
    (hsplit : types = before ++ ty :: after) (hk : k < ty.members.length) :
    (types.flatMap places)[(before.flatMap members).length + k]? = some (ty.path, k) := by
  have hplace : ty.places[k]? = some (ty.path, k) := by simp [places, hk]
  rw [← length_places]
  exact getElem?_flatMap places hsplit hplace

/-- What refers to procs by number refers to the same ones under their new numbers. -/
theorem numbered_rename {σ : Equiv.Perm Nat} {path : String} {m m' : Nat}
    {procs : List (String × CompiledProc)} (hσ : ∀ k < procs.length, σ (m + k + 1) = m' + k + 1) :
    (numbered path m procs).map (fun q => (q.1, q.2.rename σ)) = numbered path m' procs := by
  induction procs generalizing m m' with
  | nil => rfl
  | cons q procs ih =>
    have hfirst : σ (m + 1) = m' + 1 := hσ 0 (Nat.succ_pos _)
    have hrest : ∀ k < procs.length, σ (m + 1 + k + 1) = m' + 1 + k + 1 := fun k hk => by
      rw [Nat.add_right_comm m 1 k, Nat.add_right_comm m' 1 k]
      exact hσ (k + 1) (Nat.succ_lt_succ hk)
    rw [numbered, List.map_cons, ih hrest, ProcRef.rename, hfirst]
    rfl

theorem prepared_rename {σ : Equiv.Perm Nat} {r : Registry} {m m' : Nat} {ty : CompiledType}
    (hσ : ∀ k < ty.members.length, σ (m + k + 1) = m' + k + 1) :
    (ty.prepared r m).rename σ = ty.prepared r m' := by
  have hprocs : (numbered ty.path m ty.procs).map (fun q => (q.1, q.2.rename σ)) =
      numbered ty.path m' ty.procs :=
    numbered_rename fun k hk =>
      hσ k (by simp only [members, List.length_append, List.length_map]; omega)
  have hinitializer : (ty.spec r m).initializer.map (·.rename σ) = (ty.spec r m').initializer := by
    cases hp : ty.initializer with
    | none => simp [spec, hp]
    | some p =>
      have hlast := hσ ty.procs.length (by simp [members, hp])
      simp [spec, hp, ProcRef.rename, hlast]
  rw [prepared, PendingType.rename, TypeSpec.rename, hinitializer]
  exact congrArg (fun procs => PendingType.mk ty.parent { ty.spec r m' with procs }) hprocs

end CompiledType

namespace Runtime

open CompiledType

variable {rt rt₁ : Runtime} {r : Registry} {types types' : List CompiledType}
  {σ : Equiv.Perm Nat} {n : Nat}

/-- The renaming takes every proc of a type from its place in one order of the types to its place in
the other. -/
structure Reorders (σ : Equiv.Perm Nat) (n : Nat) (types types' : List CompiledType) : Prop where
  old : ∀ id ≤ n, σ id = id
  later : ∀ id, n + (types.flatMap members).length < id → σ id = id
  new : ∀ before before' after after' ty k, types = before ++ ty :: after →
    types' = before' ++ ty :: after' →
    k < ty.members.length →
    σ (n + (before.flatMap members).length + k + 1) = n + (before'.flatMap members).length + k + 1

theorem exists_reorders (n : Nat) (hdistinct : (types.map CompiledType.path).Nodup)
    (hperm : types.Perm types') :
    ∃ σ, Reorders σ n types types' := by
  refine ⟨reordering n (nodup_places hdistinct) (hperm.flatMap_right places), {
    old := fun id hid => reordering_old hid
    later := fun id hid => reordering_later (by rwa [length_places])
    new := fun before before' after after' ty k hsplit hsplit' hk => ?_ }⟩
  rw [Nat.add_assoc n (List.length _) k, Nat.add_assoc n (List.length _) k]
  exact reordering_new (getElem?_places hsplit hk) (getElem?_places hsplit' hk)

namespace Reorders

theorem laidOut (h : Reorders σ n types types') (hdistinct : (types.map CompiledType.path).Nodup)
    (hperm : types.Perm types') :
    laidOut r ∅ n types' = (laidOut r ∅ n types).map fun _ p => p.rename σ := by
  have hdistinct' : (types'.map CompiledType.path).Nodup := (hperm.map _).nodup_iff.mp hdistinct
  ext path : 1
  rw [Std.ExtTreeMap.getElem?_map]
  cases hp : (Runtime.laidOut r ∅ n types)[path]? with
  | none =>
    rw [← not_mem_iff_lookup, mem_laidOut hdistinct, (hperm.map _).mem_iff] at hp
    exact not_mem_iff_lookup.mp (mt (mem_laidOut hdistinct').mp hp)
  | some p =>
    obtain ⟨before, ty, after, hsplit, rfl, rfl⟩ := (laidOut_iff hdistinct).mp hp
    obtain ⟨before', after', hsplit'⟩ :=
      List.append_of_mem (hperm.mem_iff.mp (by simp [hsplit] : ty ∈ types))
    rw [Option.map_some, prepared_rename fun k hk => h.new _ _ _ _ ty k hsplit hsplit' hk]
    exact (laidOut_iff hdistinct').mpr ⟨before', ty, after', hsplit', rfl, rfl⟩

/-- The same procs have been added, each in its place. -/
theorem grow (h : Reorders σ rt.procs.size types types') (hperm : types.Perm types')
    (hclosed : rt.Closed) {new new' : List Proc} (hnew : r.procs (types.flatMap members) = .ok new)
    (hnew' : r.procs (types'.flatMap members) = .ok new') :
    (rt.grow new).Renamed σ (rt.grow new') := by
  have hlength : new'.length = new.length := by
    rw [Registry.length_procs hnew, Registry.length_procs hnew',
      (hperm.flatMap_right members).length_eq]
  refine (hclosed.renamed h.old).grow hlength (fun id hid => (h.old id hid).le.trans hid)
    fun id hid => ?_
  by_cases hlater : rt.procs.size + (types.flatMap members).length < id
  · have hsize : (rt.grow new).procs.size < id := by rwa [size_grow, Registry.length_procs hnew]
    have hsize' : (rt.grow new').procs.size < id := by rwa [size_grow, hlength, ← size_grow]
    rw [h.later id hlater, proc?_of_lt hsize, proc?_of_lt hsize']
    rfl
  · -- A new proc belongs to some type, and there it is found again in the other order.
    obtain ⟨before, ty, after, k, hsplit, hk, hid⟩ :=
      exists_of_lt_flatMap members (l := types) (i := id - rt.procs.size - 1) (by omega)
    obtain ⟨before', after', hsplit'⟩ :=
      List.append_of_mem (hperm.mem_iff.mp (by simp [hsplit] : ty ∈ types))
    obtain rfl : id = rt.procs.size + ((before.flatMap members).length + k) + 1 := by omega
    obtain ⟨p, hp, hmade⟩ := Registry.procs_getElem? hnew
      (getElem?_flatMap members hsplit (List.getElem?_eq_getElem hk))
    obtain ⟨p', hp', hmade'⟩ := Registry.procs_getElem? hnew'
      (getElem?_flatMap members hsplit' (List.getElem?_eq_getElem hk))
    cases hmade.symm.trans hmade'
    have hunlinked := Registry.unlinked_of_procs hnew (List.mem_of_getElem? hp)
    have hmoved := h.new before before' after after' ty k hsplit hsplit' hk
    rw [Nat.add_assoc rt.procs.size (List.length _) k,
      Nat.add_assoc rt.procs.size (List.length _) k] at hmoved
    rw [hmoved, proc?_grow_new, proc?_grow_new, hp, hp', Option.map_some,
      Proc.rename_of_unlinked hunlinked]

end Reorders

/-! ### Loading in another order -/

variable {rt' : Runtime} {w : CompiledWorld}

theorem Renamed.enroll (h : rt.Renamed σ rt') {own host : Names Definition}
    (hhost : (host.map fun _ d => d.rename σ) = host) :
    (rt.enroll (host.insertMany own.toList)).Renamed σ
      (rt'.enroll (host.insertMany (own.map fun _ d => d.rename σ).toList)) where
  types := by
    show host.insertMany _ = (host.insertMany own.toList).map fun _ d => d.rename σ
    rw [← map_insertMany, hhost]
  globals := h.globals
  procs := h.procs
  size := h.size
  rest := h.rest

/-- Global procs are added behind the others and keep their names. -/
theorem Renamed.globalize (h : rt.Renamed σ rt') (hlater : ∀ id, rt.procs.size < id → σ id = id)
    {procs : List (String × CompiledProc)} {new : List Proc}
    (hnew : r.procs (named procs) = .ok new) :
    (rt.globalize procs new).Renamed σ (rt'.globalize procs new) := by
  have hold : ∀ id ≤ rt.procs.size, σ id ≤ rt.procs.size := fun id hid => by
    by_contra hlt
    have hfixed := σ.injective (hlater (σ id) (Nat.not_le.mp hlt))
    omega
  have hgrow : (rt.grow new).Renamed σ (rt'.grow new) := h.grow rfl hold fun id hid => by
    obtain ⟨k, rfl⟩ : ∃ k, id = rt.procs.size + k + 1 := ⟨id - rt.procs.size - 1, by omega⟩
    rw [hlater _ hid, proc?_grow_new, ← h.size, proc?_grow_new]
    cases hp : new[k]? with
    | none => rfl
    | some p =>
      have hunlinked := Registry.unlinked_of_procs hnew (List.mem_of_getElem? hp)
      rw [Option.map_some, Proc.rename_of_unlinked hunlinked]
  have hnumbers : (numbered "" rt.procs.size procs).map (fun q => (q.1, q.2.rename σ)) =
      numbered "" rt.procs.size procs :=
    numbered_rename fun k _ => hlater _ (by omega)
  exact {
    types := hgrow.types
    globals := by
      show (addProcs rt'.globals (numbered "" rt'.procs.size procs)).1 =
        (addProcs rt.globals (numbered "" rt.procs.size procs)).1.map fun _ q => q.rename σ
      rw [h.globals, h.size, ← hnumbers, addProcs_rename, hnumbers]
    procs := hgrow.procs
    size := hgrow.size
    rest := hgrow.rest }

/-- Loading the types of a world in another order gives the same but for the references to the new
procs. -/
theorem loadCompiled_reordered (hclosed : rt.Closed) (hperm : w.types.Perm types')
    {summary : LoadSummary} (h : rt.loadCompiled r w = (.ok summary, rt₁)) :
    ∃ σ rt₂, rt.loadCompiled r { w with types := types' } = (.ok summary, rt₂) ∧
      (∀ id ≤ rt.procs.size, σ id = id) ∧
      rt₁.Renamed σ rt₂ := by
  obtain ⟨rfl, new, later, a, hloaded⟩ := loadCompiled_ok_iff.mp h
  have hdistinct := hloaded.types.distinct
  have hdistinct' : (types'.map CompiledType.path).Nodup := (hperm.map _).nodup_iff.mp hdistinct
  obtain ⟨σ, hσ⟩ := exists_reorders rt.procs.size hdistinct hperm
  obtain ⟨new', hnew'⟩ : ∃ new', r.procs (types'.flatMap members) = .ok new' := by
    have hbound := Registry.procs_isOk_iff.mp ⟨new, hloaded.types.procs⟩
    exact Registry.procs_isOk_iff.mpr fun q hq =>
      hbound q ((hperm.flatMap_right members).mem_iff.mpr hq)
  have hstart : (rt.assembly r w.types new).Renamed σ (rt.assembly r types' new') := {
    pending := hσ.laidOut hdistinct hperm
    built := by
      show (∅ : Names Definition) = (∅ : Names Definition).map fun _ d => d.rename σ
      simp
    runtime := hσ.grow hperm hclosed hloaded.types.procs hnew' }
  obtain ⟨a', hall', ha'⟩ := hstart.buildAll hloaded.types.all
  have hassembled : rt.Assembled r types' new' a' := .of_all hdistinct' hnew' <| by
    rw [hσ.laidOut hdistinct hperm, Std.ExtTreeMap.size_map, Std.ExtTreeMap.keys_map]
    exact hall'
  refine ⟨σ, _, loadCompiled_ok_iff.mpr
    ⟨by simp [hperm.length_eq], new', later, a', hassembled, hloaded.globals, rfl⟩, hσ.old, ?_⟩
  rw [hloaded.result, ha'.built]
  refine (ha'.runtime.enroll (hclosed.renamed hσ.old).types.symm).globalize (fun id hid =>
    hσ.later id ?_)
    hloaded.globals
  have hsize : a.runtime.procs.size < id := hid
  rwa [hloaded.size_runtime] at hsize

end Runtime

end ProcEngine
