import Mathlib.Data.List.Perm.Subperm
import ProcEngine.Proofs.World.Atomicity
/-!
# Ancestors first

Definitions are assembled depth first, each after its parent. A path can be built if and only if the
chain of its parents comes to an end, at a type without a parent or at one that the host has
registered. The fuel decides nothing: a chain that comes back on itself is found out before it runs
out.
-/

namespace ProcEngine

theorem mem_of_lookup {α : Type} {names : Names α} {name : String} {v : α}
    (h : names[name]? = some v) :
    name ∈ names := Std.ExtTreeMap.mem_iff_isSome_getElem?.mpr (h ▸ rfl)

theorem not_mem_iff_lookup {α : Type} {names : Names α} {name : String} : name ∉ names ↔
    names[name]? = none := by
  rw [Std.ExtTreeMap.mem_iff_isSome_getElem?]
  simp

/-- The types on the way from a path upwards, if it comes to an end: `wanted` are the types to
build, and `host` has the others. -/
inductive Ascends (wanted : Names PendingType) (host : Names Definition) : String →
    List String → Prop
  | host {path : String} : path ∉ wanted → path ∈ host → Ascends wanted host path []
  | root {path : String} {p : PendingType} : wanted[path]? = some p → p.parent = none →
    Ascends wanted host path [path]
  | step {path parent : String} {p : PendingType} {chain : List String} : wanted[path]? = some p →
    p.parent = some parent → Ascends wanted host parent chain →
      Ascends wanted host path (path :: chain)

namespace Ascends

variable {wanted : Names PendingType} {host : Names Definition} {path : String}
  {chain chain' : List String}

theorem unique (h : Ascends wanted host path chain) (h' : Ascends wanted host path chain') :
    chain = chain' := by
  induction h generalizing chain' with
  | host hpath _ =>
    cases h' with
    | host _ _ => rfl
    | root hp _ | step hp _ _ => exact absurd (mem_of_lookup hp) hpath
  | root hp hnone =>
    cases h' with
    | host hpath _ => exact absurd (mem_of_lookup hp) hpath
    | root _ _ => rfl
    | step hp' hsome _ =>
      cases Option.some.inj (hp.symm.trans hp')
      cases hnone.symm.trans hsome
  | step hp hsome _ ih =>
    cases h' with
    | host hpath _ => exact absurd (mem_of_lookup hp) hpath
    | root hp' hnone =>
      cases Option.some.inj (hp.symm.trans hp')
      cases hsome.symm.trans hnone
    | step hp' hsome' hrest =>
      cases Option.some.inj (hp.symm.trans hp')
      cases Option.some.inj (hsome.symm.trans hsome')
      rw [ih hrest]

theorem mem_wanted (h : Ascends wanted host path chain) : ∀ x ∈ chain, x ∈ wanted := by
  induction h with
  | host _ _ => simp
  | root hp _ => simpa using mem_of_lookup hp
  | step hp _ _ ih => exact List.forall_mem_cons.mpr ⟨mem_of_lookup hp, ih⟩

theorem of_mem (h : Ascends wanted host path chain) {x : String} (hx : x ∈ chain) :
    ∃ rest, Ascends wanted host x rest ∧ rest.length ≤ chain.length := by
  induction h with
  | host _ _ => simp at hx
  | root hp hnone =>
    obtain rfl := List.mem_singleton.mp hx
    exact ⟨_, .root hp hnone, Nat.le_refl _⟩
  | step hp hsome hrest ih =>
    obtain rfl | hx := List.mem_cons.mp hx
    · exact ⟨_, .step hp hsome hrest, Nat.le_refl _⟩
    · obtain ⟨rest, hrest, hlength⟩ := ih hx
      exact ⟨rest, hrest, Nat.le_succ_of_le hlength⟩

theorem nodup (h : Ascends wanted host path chain) : chain.Nodup := by
  induction h with
  | host _ _ => exact List.nodup_nil
  | root _ _ => exact List.nodup_singleton _
  | @step path parent p chain hp hsome hrest ih =>
    refine List.nodup_cons.mpr ⟨fun hagain => ?_, ih⟩
    obtain ⟨rest, hagain, hlength⟩ := hrest.of_mem hagain
    rw [hagain.unique (.step hp hsome hrest), List.length_cons] at hlength
    omega

theorem length_le (h : Ascends wanted host path chain) : chain.length ≤ wanted.size := by
  rw [← Std.ExtTreeMap.length_keys]
  exact (h.nodup.subperm fun x hx => Std.ExtTreeMap.mem_keys.mpr (h.mem_wanted x hx)).length_le

end Ascends

namespace Assembly

variable {wanted : Names PendingType} {host : Names Definition} {visiting : List String}
  {path : String} {a a' : Assembly} {fuel : Nat} {d : Definition}

/-! ### What has been built -/

/-- The definition that a path stands for as a parent. -/
def Resolves (wanted : Names PendingType) (host : Names Definition) (a : Assembly) (path : String)
    (d : Definition) : Prop :=
  a.built[path]? = some d ∨ path ∉ wanted ∧ host[path]? = some d

/-- The definition is the type merged with its parent, if it has one. -/
def IsBuilt (wanted : Names PendingType) (host : Names Definition) (a : Assembly) (p : PendingType)
    (d : Definition) : Prop :=
  ∃ parent : Option Definition, d = (p.spec.build parent).1 ∧ (p.parent = none → parent = none) ∧
    ∀ q, p.parent = some q → ∃ d', parent = some d' ∧ a.Resolves wanted host q d'

/-- Everything built so far is built still. -/
def Extends (a a' : Assembly) : Prop :=
  ∀ (path : String) (d : Definition), a.built[path]? = some d → a'.built[path]? = some d

theorem IsBuilt.mono {p : PendingType} (h : a.IsBuilt wanted host p d) (hextends : a.Extends a') :
    a'.IsBuilt wanted host p d := by
  obtain ⟨parent, hd, hnone, hsome⟩ := h
  refine ⟨parent, hd, hnone, fun q hq => ?_⟩
  obtain ⟨d', hd', hresolves⟩ := hsome q hq
  exact ⟨d', hd', hresolves.imp_left (hextends q d')⟩

/-- Some types are built, the parents of some are being built, and the others are still to be
built. -/
structure Under (wanted : Names PendingType) (host : Names Definition) (visiting : List String)
    (a : Assembly) : Prop where
  types : a.runtime.objects.types = host
  pending : ∀ path, a.pending[path]? = if path ∈ visiting ∨ path ∈ a.built then none
    else wanted[path]?
  visited : ∀ path ∈ visiting, path ∈ wanted ∧ path ∉ a.built
  built : ∀ path d, a.built[path]? = some d → ∃ p, wanted[path]? = some p ∧
    a.IsBuilt wanted host p d ∧
    ∃ chain, Ascends wanted host path chain

theorem Under.start {rt : Runtime} (htypes : rt.objects.types = host) :
    Under wanted host [] { pending := wanted, runtime := rt } where
  types := htypes
  pending path := by simp
  visited := by simp
  built path d h := by simp at h

theorem Under.of_pending {p : PendingType} (h : Under wanted host visiting a)
    (hp : a.pending[path]? = some p) :
    path ∉ visiting ∧ path ∉ a.built ∧ wanted[path]? = some p := by
  rw [h.pending] at hp
  split at hp
  · cases hp
  · rename_i hneither
    rw [not_or] at hneither
    exact ⟨hneither.1, hneither.2, hp⟩

theorem Under.unwanted (h : Under wanted host visiting a) (hfirst : path ∉ visiting)
    (hbuilt : a.built[path]? = none) (hp : a.pending[path]? = none) : path ∉ wanted := by
  rw [h.pending, if_neg (not_or.mpr ⟨hfirst, not_mem_iff_lookup.mpr hbuilt⟩)] at hp
  exact not_mem_iff_lookup.mpr hp

theorem Under.built_or_pending {p : PendingType} (h : Under wanted host visiting a)
    (hfirst : path ∉ visiting) (hp : wanted[path]? = some p) :
    (∃ d, a.built[path]? = some d) ∨ a.built[path]? = none ∧ a.pending[path]? = some p := by
  cases hbuilt : a.built[path]? with
  | some d => exact Or.inl ⟨d, rfl⟩
  | none =>
    exact Or.inr ⟨rfl,
      by rw [h.pending, if_neg (not_or.mpr ⟨hfirst, not_mem_iff_lookup.mpr hbuilt⟩), hp]⟩

def take (a : Assembly) (path : String) : Assembly := { a with pending := a.pending.erase path }

theorem Under.take {p : PendingType} (h : Under wanted host visiting a)
    (hp : a.pending[path]? = some p) :
    Under wanted host (path :: visiting) (a.take path) where
  types := h.types
  pending x := by
    show (a.pending.erase path)[x]? = if x ∈ path :: visiting ∨ x ∈ a.built then none
      else wanted[x]?
    rw [Std.ExtTreeMap.getElem?_erase, h.pending]
    by_cases hx : path = x
    · simp [hx]
    · simp [hx, Ne.symm hx]
  visited := by
    obtain ⟨_, hbuilt, hwanted⟩ := h.of_pending hp
    exact List.forall_mem_cons.mpr ⟨⟨mem_of_lookup hwanted, hbuilt⟩, h.visited⟩
  built := h.built

def put (a : Assembly) (path : String) (p : PendingType) (parent : Option Definition) : Assembly :=
  { a with
    runtime := (a.runtime.buildType p.spec parent).2
    built := a.built.insert path (a.runtime.buildType p.spec parent).1 }

theorem lookup_put (a : Assembly) (path : String) (p : PendingType) (parent : Option Definition)
    (x : String) :
    (a.put path p parent).built[x]? = if path = x then some (p.spec.build parent).1
      else a.built[x]? := by
  simp only [put, Std.ExtTreeMap.getElem?_insert, Std.LawfulEqCmp.compare_eq_iff_eq]
  rfl

theorem mem_put {p : PendingType} {parent : Option Definition} {x : String} :
    x ∈ (a.put path p parent).built ↔ path = x ∨ x ∈ a.built := by
  simp only [put, Std.ExtTreeMap.mem_insert, Std.LawfulEqCmp.compare_eq_iff_eq]

theorem Under.put {p : PendingType} (h : Under wanted host (path :: visiting) a)
    (parent : Option Definition) (hp : wanted[path]? = some p)
    (hnone : p.parent = none → parent = none)
    (hsome : ∀ q, p.parent = some q → ∃ d', parent = some d' ∧ a.Resolves wanted host q d')
    (hchain : ∃ chain, Ascends wanted host path chain) (hfirst : path ∉ visiting) :
    Under wanted host visiting (a.put path p parent) ∧ a.Extends (a.put path p parent) ∧
      (a.put path p parent).Resolves wanted host path (p.spec.build parent).1 := by
  have hfresh : path ∉ a.built := (h.visited path List.mem_cons_self).2
  have hextends : a.Extends (a.put path p parent) := by
    intro x d hd
    have hx : path ≠ x := fun heq => hfresh (heq ▸ mem_of_lookup hd)
    rw [lookup_put, if_neg hx, hd]
  refine ⟨{
    types :=
      (congrArg ObjectTable.types (congrArg Store.objects (Runtime.Builds.links _ _).store)).trans
        h.types
    pending := fun x => ?_
    visited := fun x hx => ?_
    built := fun x d hd => ?_ }, hextends, Or.inl (by rw [lookup_put, if_pos rfl])⟩
  · show a.pending[x]? = _
    simp only [h.pending, mem_put, List.mem_cons]
    refine if_congr ?_ rfl rfl
    rw [eq_comm (a := x)]
    tauto
  · obtain ⟨hwanted, hbuilt⟩ := h.visited x (List.mem_cons_of_mem _ hx)
    refine ⟨hwanted, fun hmem => ?_⟩
    obtain rfl | hmem := mem_put.mp hmem
    · exact hfirst hx
    · exact hbuilt hmem
  · rw [lookup_put] at hd
    split at hd <;> rename_i hx
    · subst hx
      cases hd
      have hbuilt : a.IsBuilt wanted host p (p.spec.build parent).1 := ⟨parent, rfl, hnone, hsome⟩
      exact ⟨p, hp, hbuilt.mono hextends, hchain⟩
    · obtain ⟨p', hp', hbuilt, hchain'⟩ := h.built x d hd
      exact ⟨p', hp', hbuilt.mono hextends, hchain'⟩

/-! ### Building -/

/-- What building a path comes to, if it succeeds: it was built, or the host has it, or it is put
together now. -/
theorem build_ok_iff : a.build (fuel + 1) visiting path = .ok (d, a') ↔
    a.built[path]? = some d ∧ a' = a ∨
    a.built[path]? = none ∧ path ∉ visiting ∧
      (a.pending[path]? = none ∧ a.runtime.objects.types[path]? = some d ∧ a' = a ∨
      ∃ p parent a₁, a.pending[path]? = some p ∧ d = (a₁.runtime.buildType p.spec parent).1 ∧
        a' = a₁.put path p parent ∧
        (p.parent = none ∧ parent = none ∧ a₁ = a.take path ∨
          ∃ q d₁, p.parent = some q ∧ parent = some d₁ ∧
            (a.take path).build fuel (path :: visiting) q = .ok (d₁, a₁))) := by
  constructor
  · intro hbuild
    simp only [build] at hbuild
    cases hbuilt : a.built[path]? with
    | some d' =>
      rw [hbuilt] at hbuild
      cases hbuild
      exact Or.inl ⟨rfl, rfl⟩
    | none =>
      rw [hbuilt] at hbuild
      dsimp only at hbuild
      split at hbuild
      · cases hbuild
      · rename_i hfirst
        refine Or.inr ⟨rfl, mt List.contains_iff_mem.mpr hfirst, ?_⟩
        cases hp : a.pending[path]? with
        | none =>
          rw [hp] at hbuild
          dsimp only at hbuild
          split at hbuild
          · rename_i d' hhost
            cases hbuild
            exact Or.inl ⟨rfl, hhost, rfl⟩
          · cases hbuild
        | some p =>
          rw [hp] at hbuild
          dsimp only at hbuild
          refine Or.inr ?_
          -- The parent is built first, with the type among those whose parents are being built.
          cases hparent : p.parent with
          | none =>
            rw [hparent] at hbuild
            cases hbuild
            exact ⟨p, none, a.take path, rfl, rfl, rfl, Or.inl ⟨hparent, rfl, rfl⟩⟩
          | some q =>
            rw [hparent] at hbuild
            obtain ⟨⟨parent, a₁⟩, hup, hbuild⟩ := Except.of_bind_eq_ok hbuild
            rw [← take] at hup
            cases hrec : (a.take path).build fuel (path :: visiting) q with
            | error e =>
              rw [hrec] at hup
              cases hup
            | ok found =>
              rw [hrec] at hup
              cases hup
              cases hbuild
              exact ⟨p, some found.1, found.2, rfl, rfl, rfl,
                Or.inr ⟨q, found.1, hparent, rfl, hrec⟩⟩
  · rintro (⟨hbuilt, rfl⟩
      | ⟨hbuilt, hfirst, ⟨hnone, hhost, rfl⟩ | ⟨p, parent, a₁, hp, rfl, rfl, hup⟩⟩)
    · simp only [build, hbuilt]
    · simp only [build, hbuilt, hnone, hhost, List.contains_eq_mem, hfirst, decide_false,
        Bool.false_eq_true, if_false]
    · obtain ⟨hnone, rfl, rfl⟩ | ⟨q, d₁, hsome, rfl, hrec⟩ := hup
      · simp only [build, hbuilt, hp, hnone, List.contains_eq_mem, hfirst, decide_false,
          Bool.false_eq_true, if_false]
        rfl
      · rw [take] at hrec
        simp only [build, hbuilt, hp, hsome, hrec, List.contains_eq_mem, hfirst, decide_false,
          Bool.false_eq_true, if_false]
        rfl

/-- A path whose ancestors come to an end, none of whose parents is being built, can be built. -/
theorem build_of_ascends {chain : List String} (h : Under wanted host visiting a)
    (hchain : Ascends wanted host path chain) (hapart : ∀ x ∈ chain, x ∉ visiting)
    (hfuel : chain.length < fuel) :
    ∃ d a', a.build fuel visiting path = .ok (d, a') ∧ Under wanted host visiting a' ∧
      a.Extends a' ∧
      a'.Resolves wanted host path d := by
  -- On the way up, one type after the other is being built: none of them comes again, or the way
  -- would have no end.
  induction hchain generalizing fuel visiting a with
  | @host path hunwanted hhost =>
    obtain ⟨fuel, rfl⟩ : ∃ k, fuel = k + 1 := ⟨fuel - 1, by omega⟩
    obtain ⟨d, hd⟩ := Option.isSome_iff_exists.mp (Std.ExtTreeMap.mem_iff_isSome_getElem?.mp hhost)
    have hbuilt : a.built[path]? = none := by
      refine Option.eq_none_iff_forall_ne_some.mpr fun d' hd' => ?_
      obtain ⟨p, hp, _⟩ := h.built path d' hd'
      exact hunwanted (mem_of_lookup hp)
    have hfirst : path ∉ visiting := fun hmem => hunwanted (h.visited path hmem).1
    have hpending : a.pending[path]? = none := by
      rw [h.pending, not_mem_iff_lookup.mp hunwanted, ite_self]
    exact ⟨d, a,
      build_ok_iff.mpr (Or.inr ⟨hbuilt, hfirst, Or.inl ⟨hpending, by rw [h.types, hd], rfl⟩⟩), h,
      fun _ _ => id, Or.inr ⟨hunwanted, hd⟩⟩
  | @root path p hp hnone =>
    obtain ⟨fuel, rfl⟩ : ∃ k, fuel = k + 1 := ⟨fuel - 1, by omega⟩
    have hfirst := hapart path (List.mem_singleton.mpr rfl)
    obtain ⟨d, hbuilt⟩ | ⟨hbuilt, hpending⟩ := h.built_or_pending hfirst hp
    · exact ⟨d, a, build_ok_iff.mpr (Or.inl ⟨hbuilt, rfl⟩), h, fun _ _ => id, Or.inl hbuilt⟩
    · have hput :=
        (h.take hpending).put none hp (fun _ => rfl) (by simp [hnone]) ⟨_, .root hp hnone⟩ hfirst
      exact ⟨_, _, build_ok_iff.mpr (Or.inr ⟨hbuilt, hfirst, Or.inr
        ⟨p, none, a.take path, hpending, rfl, rfl, Or.inl ⟨hnone, rfl, rfl⟩⟩⟩), hput⟩
  | @step path parent p chain hp hsome hrest ih =>
    obtain ⟨fuel, rfl⟩ : ∃ k, fuel = k + 1 := ⟨fuel - 1, by omega⟩
    have hfirst := hapart path List.mem_cons_self
    obtain ⟨d, hbuilt⟩ | ⟨hbuilt, hpending⟩ := h.built_or_pending hfirst hp
    · exact ⟨d, a, build_ok_iff.mpr (Or.inl ⟨hbuilt, rfl⟩), h, fun _ _ => id, Or.inl hbuilt⟩
    · have hnodup := (Ascends.step hp hsome hrest).nodup
      have hapart' : ∀ x ∈ chain, x ∉ path :: visiting := fun x hx hmem => by
        obtain rfl | hmem := List.mem_cons.mp hmem
        · exact (List.nodup_cons.mp hnodup).1 hx
        · exact hapart x (List.mem_cons_of_mem _ hx) hmem
      obtain ⟨d, a₁, hbuild, hunder, hextends, hresolves⟩ :=
        ih (h.take hpending) hapart' (by simpa using hfuel)
      obtain ⟨hput, hextends', hresolves'⟩ := hunder.put (some d) hp (by simp [hsome])
        (fun q hq => ⟨d, rfl, by rwa [Option.some.inj (hsome.symm.trans hq)] at hresolves⟩)
        ⟨_, .step hp hsome hrest⟩ hfirst
      exact ⟨_, _, build_ok_iff.mpr (Or.inr ⟨hbuilt, hfirst, Or.inr
        ⟨p, some d, a₁, hpending, rfl, rfl, Or.inr ⟨parent, d, hsome, rfl, hbuild⟩⟩⟩), hput,
        fun x d' hd' => hextends' x d' (hextends x d' hd'), hresolves'⟩

/-- What can be built has ancestors that come to an end. -/
theorem ascends_of_build (h : Under wanted host visiting a)
    (hbuild : a.build fuel visiting path = .ok (d, a')) :
    ∃ chain, Ascends wanted host path chain := by
  induction fuel generalizing visiting path a d a' with
  | zero => cases hbuild
  | succ fuel ih =>
    obtain ⟨hbuilt, _⟩ | ⟨hbuilt, hfirst, ⟨hnone, hhost, _⟩ | ⟨p, parent, a₁, hp, _, _, hup⟩⟩ :=
      build_ok_iff.mp hbuild
    · obtain ⟨_, _, _, hchain⟩ := h.built path d hbuilt
      exact hchain
    · rw [h.types] at hhost
      exact ⟨[], .host (h.unwanted hfirst hbuilt hnone) (mem_of_lookup hhost)⟩
    · obtain ⟨_, _, hwanted⟩ := h.of_pending hp
      obtain ⟨hnone, _⟩ | ⟨q, d₁, hsome, _, hrec⟩ := hup
      · exact ⟨[path], .root hwanted hnone⟩
      · obtain ⟨chain, hchain⟩ := ih (h.take hp) hrec
        exact ⟨path :: chain, .step hwanted hsome hchain⟩

/-! ### Building them all -/

/-- Paths whose ancestors come to an end can all be built, one after the other. -/
theorem buildAll_of_ascends {paths : List String} (h : Under wanted host [] a)
    (hall : ∀ path ∈ paths, ∃ chain, Ascends wanted host path chain) (hfuel : wanted.size < fuel) :
    ∃ a', a.buildAll fuel paths = .ok a' ∧ Under wanted host [] a' ∧ a.Extends a' ∧
      ∀ path ∈ paths, path ∈ wanted → path ∈ a'.built := by
  induction paths generalizing a with
  | nil => exact ⟨a, rfl, h, fun _ _ => id, by simp⟩
  | cons path paths ih =>
    rw [List.forall_mem_cons] at hall
    obtain ⟨⟨chain, hchain⟩, hrest⟩ := hall
    obtain ⟨d, a₁, hbuild, hunder, hextends, hresolves⟩ :=
      build_of_ascends h hchain (by simp) (Nat.lt_of_le_of_lt hchain.length_le hfuel)
    obtain ⟨a₂, hbuildAll, hunder', hextends', hbuilt⟩ := ih hunder hrest
    refine ⟨a₂, by rw [buildAll, hbuild]; exact hbuildAll, hunder', fun x d' hd' =>
      hextends' x d' (hextends x d' hd'), List.forall_mem_cons.mpr ⟨fun hwanted => ?_, hbuilt⟩⟩
    exact mem_of_lookup (hextends' path d (hresolves.resolve_right fun hhost => hhost.1 hwanted))

/-- Paths can all be built if and only if the ancestors of each come to an end. -/
theorem buildAll_isOk_iff {paths : List String} (h : Under wanted host [] a)
    (hfuel : wanted.size < fuel) :
    (∃ a', a.buildAll fuel paths = .ok a') ↔
      ∀ path ∈ paths, ∃ chain, Ascends wanted host path chain := by
  constructor
  · rintro ⟨a', hbuildAll⟩
    induction paths generalizing a with
    | nil => simp
    | cons path paths ih =>
      obtain ⟨⟨d, a₁⟩, hbuild, hrest⟩ := Except.of_bind_eq_ok hbuildAll
      obtain ⟨chain, hchain⟩ := ascends_of_build h hbuild
      obtain ⟨_, _, hbuild', hunder, _⟩ :=
        build_of_ascends h hchain (by simp) (Nat.lt_of_le_of_lt hchain.length_le hfuel)
      cases hbuild.symm.trans hbuild'
      exact List.forall_mem_cons.mpr ⟨⟨chain, hchain⟩, ih hunder hrest⟩
  · intro hall
    obtain ⟨a', hbuildAll, _⟩ := buildAll_of_ascends h hall hfuel
    exact ⟨a', hbuildAll⟩

/-! ### Fuel -/

theorem size_take {p : PendingType} (hp : a.pending[path]? = some p) :
    (a.take path).pending.size = a.pending.size - 1 ∧ 0 < a.pending.size := by
  have hmem := mem_of_lookup hp
  constructor
  · rw [take, Std.ExtTreeMap.size_erase, if_pos (Std.ExtTreeMap.contains_iff_mem.mpr hmem)]
  · rw [← Std.ExtTreeMap.length_keys]
    exact List.length_pos_of_mem (Std.ExtTreeMap.mem_keys.mpr hmem)

theorem size_pending_of_build (hbuild : a.build fuel visiting path = .ok (d, a')) :
    a'.pending.size ≤ a.pending.size := by
  induction fuel generalizing visiting path a d a' with
  | zero => cases hbuild
  | succ fuel ih =>
    obtain ⟨_, rfl⟩ | ⟨_, _, ⟨_, _, rfl⟩ | ⟨p, parent, a₁, hp, _, rfl, hup⟩⟩ :=
      build_ok_iff.mp hbuild
    · exact Nat.le_refl _
    · exact Nat.le_refl _
    · show a₁.pending.size ≤ a.pending.size
      have hless := (size_take hp).1
      obtain ⟨_, _, rfl⟩ | ⟨_, _, _, _, hrec⟩ := hup
      · omega
      · have := ih hrec
        omega

/-- More fuel than there are types to build makes no difference. -/
theorem build_fuel (hfuel : a.pending.size < fuel) : a.build (fuel + 1) visiting path =
    a.build fuel visiting path := by
  induction fuel generalizing visiting path a with
  | zero => omega
  | succ fuel ih =>
    rw [build, build]
    cases a.built[path]? with
    | some d => rfl
    | none =>
      dsimp only
      split
      · rfl
      · cases hp : a.pending[path]? with
        | none => rfl
        | some p =>
          dsimp only
          cases p.parent with
          | none => rfl
          | some q =>
            obtain ⟨hless, hpos⟩ := size_take hp
            rw [take] at hless
            dsimp only
            rw [ih (by omega)]

theorem buildAll_fuel (hfuel : a.pending.size < fuel) (more : Nat) (paths : List String) :
    a.buildAll (fuel + more) paths = a.buildAll fuel paths := by
  induction more with
  | zero => rfl
  | succ more ih =>
    rw [← ih]
    clear ih
    induction paths generalizing a with
    | nil => rfl
    | cons path paths ih =>
      rw [buildAll, buildAll, ← Nat.add_assoc, build_fuel (by omega)]
      cases hbuild : a.build (fuel + more) [] path with
      | error e => rfl
      | ok q =>
        obtain ⟨d, a'⟩ := q
        have hless := size_pending_of_build hbuild
        exact ih (by omega)

end Assembly

end ProcEngine
