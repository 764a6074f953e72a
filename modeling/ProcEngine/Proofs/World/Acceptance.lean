import ProcEngine.Proofs.World.Linking
/-!
# Which worlds are accepted

A world can be loaded if and only if no two of its types share a path, the host binds what its procs
name, and the ancestors of each type come to an end, in the world or among the types that the host
had.
-/

namespace ProcEngine

theorem size_eq_length {α : Type} {names : Names α} {keys : List String} (hdistinct : keys.Nodup)
    (hmem : ∀ x, x ∈ names ↔ x ∈ keys) : names.size = keys.length := by
  have hperm : names.keys.Perm keys :=
    (List.perm_ext_iff_of_nodup Std.ExtTreeMap.nodup_keys hdistinct).mpr fun x => by
    rw [Std.ExtTreeMap.mem_keys, hmem]
  rw [← Std.ExtTreeMap.length_keys, hperm.length_eq]

namespace CompiledType

/-- The defaults of the variables that the type declares itself. -/
def defaults (ty : CompiledType) : Names Value :=
  Std.ExtTreeMap.ofList (ty.vars.map fun (name, c) => (name, c.toValue))

/-- The host binds what the procs of the type and its initializer name. -/
structure Bound (ty : CompiledType) (r : Registry) : Prop where
  procs : ∀ q ∈ ty.procs, r.binds q.2.body = true
  initializer : ∀ p, ty.initializer = some p → r.binds p.body = true

theorem bound_iff {ty : CompiledType} {r : Registry} : ty.Bound r ↔
    ∀ q ∈ ty.members, r.binds q.2.body = true := by
  constructor
  · rintro ⟨hprocs, hinitializer⟩ q hq
    rw [members, List.mem_append, List.mem_map, List.mem_map] at hq
    obtain ⟨q, hq, rfl⟩ | ⟨p, hp, rfl⟩ := hq
    · exact hprocs q hq
    · exact hinitializer p (Option.mem_toList.mp hp)
  · intro hall
    refine ⟨fun q hq => hall (s!"{ty.path}/proc/{q.1}", q.2) ?_,
      fun p hp => hall (s!"{ty.path}/(init)", p) ?_⟩
    · exact List.mem_append_left _ (List.mem_map_of_mem hq)
    · exact List.mem_append_right _ (List.mem_map_of_mem (Option.mem_toList.mpr hp))

end CompiledType

namespace CompiledWorld

def paths (w : CompiledWorld) : List String := w.types.map CompiledType.path

/-- The types of the world on the way from a path upwards, if it comes to an end: at a type without
a parent or at one that the host has, and without coming by any type twice. -/
inductive Ascent (w : CompiledWorld) (rt : Runtime) : String → List String → Prop
  | host {path : String} : path ∉ w.paths → path ∈ rt.objects.types → Ascent w rt path []
  | root {ty : CompiledType} : ty ∈ w.types → ty.parent = none → Ascent w rt ty.path [ty.path]
  | step {ty : CompiledType} {parent : String} {chain : List String} : ty ∈ w.types →
    ty.parent = some parent →
    Ascent w rt parent chain → ty.path ∉ chain → Ascent w rt ty.path (ty.path :: chain)

/-- The world can be loaded. -/
structure Accepted (w : CompiledWorld) (rt : Runtime) (r : Registry) : Prop where
  distinct : w.paths.Nodup
  types : ∀ ty ∈ w.types, ty.Bound r
  globals : ∀ q ∈ w.procs, r.binds q.2.body = true
  ascends : ∀ ty ∈ w.types, ∃ chain, w.Ascent rt ty.path chain

end CompiledWorld

namespace Runtime

open CompiledType

variable {rt rt' : Runtime} {r : Registry} {w : CompiledWorld} {n : Nat}

/-! ### The types to build -/

/-- The types to build are the ones listed, each with its procs behind those of the types before. -/
theorem laidOut_iff {types : List CompiledType} (hdistinct : (types.map CompiledType.path).Nodup)
    {path : String} {p : PendingType} : (laidOut r ∅ n types)[path]? = some p ↔
      ∃ before ty after, types = before ++ ty :: after ∧ ty.path = path ∧
        p = ty.prepared r (n + (before.flatMap members).length) := by
  have hnew : ∀ before ty after, types = before ++ ty :: after →
      (laidOut r ∅ n types)[ty.path]? =
        some (ty.prepared r (n + (before.flatMap members).length)) := by
    rintro before ty after rfl
    rw [List.map_append, List.map_cons, List.nodup_append, List.nodup_cons] at hdistinct
    exact laidOut_new hdistinct.2.1.1
  constructor
  · intro hp
    by_cases hpath : path ∈ types.map CompiledType.path
    · obtain ⟨ty, hty, rfl⟩ := List.mem_map.mp hpath
      obtain ⟨before, after, hsplit⟩ := List.append_of_mem hty
      rw [hnew before ty after hsplit] at hp
      exact ⟨before, ty, after, hsplit, rfl, (Option.some.inj hp).symm⟩
    · rw [laidOut_old hpath, Std.ExtTreeMap.getElem?_empty] at hp
      cases hp
  · rintro ⟨before, ty, after, hsplit, rfl, rfl⟩
    exact hnew before ty after hsplit

theorem mem_laidOut {types : List CompiledType} (hdistinct : (types.map CompiledType.path).Nodup)
    {path : String} :
    path ∈ laidOut r ∅ n types ↔ path ∈ types.map CompiledType.path := by
  constructor
  · intro hpath
    obtain ⟨p, hp⟩ := Option.isSome_iff_exists.mp (Std.ExtTreeMap.mem_iff_isSome_getElem?.mp hpath)
    obtain ⟨before, ty, after, rfl, rfl, _⟩ := (laidOut_iff hdistinct).mp hp
    simp
  · intro hpath
    obtain ⟨ty, hty, rfl⟩ := List.mem_map.mp hpath
    obtain ⟨before, after, hsplit⟩ := List.append_of_mem hty
    exact mem_of_lookup ((laidOut_iff hdistinct).mpr ⟨before, ty, after, hsplit, rfl, rfl⟩)

theorem size_laidOut {types : List CompiledType} (hdistinct : (types.map CompiledType.path).Nodup) :
    (laidOut r ∅ n types).size = types.length := by
  rw [size_eq_length hdistinct fun _ => mem_laidOut hdistinct, List.length_map]

theorem ascends_iff (hdistinct : w.paths.Nodup) {path : String} {chain : List String} :
    Ascends (laidOut r ∅ n w.types) rt.objects.types path chain ↔ w.Ascent rt path chain := by
  constructor
  · intro h
    induction h with
    | host hpath hhost => exact .host (mt (mem_laidOut hdistinct).mpr hpath) hhost
    | root hp hnone =>
      obtain ⟨before, ty, after, hsplit, rfl, rfl⟩ := (laidOut_iff hdistinct).mp hp
      exact .root (by simp [hsplit]) hnone
    | step hp hsome hrest ih =>
      obtain ⟨before, ty, after, hsplit, rfl, rfl⟩ := (laidOut_iff hdistinct).mp hp
      exact .step (by simp [hsplit]) hsome ih
        (List.nodup_cons.mp (Ascends.step hp hsome hrest).nodup).1
  · intro h
    induction h with
    | host hpath hhost => exact .host (mt (mem_laidOut hdistinct).mp hpath) hhost
    | root hty hnone =>
      obtain ⟨before, after, hsplit⟩ := List.append_of_mem hty
      exact .root ((laidOut_iff hdistinct).mpr ⟨before, _, after, hsplit, rfl, rfl⟩) hnone
    | step hty hsome _ _ ih =>
      obtain ⟨before, after, hsplit⟩ := List.append_of_mem hty
      exact .step ((laidOut_iff hdistinct).mpr ⟨before, _, after, hsplit, rfl, rfl⟩) hsome ih

/-! ### Building the types -/

/-- Where the assembly of the types begins, once their procs are built. -/
def assembly (rt : Runtime) (r : Registry) (types : List CompiledType) (new : List Proc) :
    Assembly where
  pending := laidOut r ∅ rt.procs.size types
  runtime := rt.grow new

theorem under_assembly (types : List CompiledType) (new : List Proc) :
    Assembly.Under (laidOut r ∅ rt.procs.size types) rt.objects.types []
      (rt.assembly r types new) :=
  Assembly.Under.start rfl

theorem brings_assembly {types : List CompiledType}
    (hdistinct : (types.map CompiledType.path).Nodup)
    (new : List Proc) : (rt.assembly r types new).Brings rt.procs.size := by
  intro path p hp q hq
  obtain ⟨before, ty, after, _, _, rfl⟩ := (laidOut_iff hdistinct).mp hp
  obtain ⟨k, _, _, hk⟩ := of_mem_numbered hq
  rw [hk]
  show rt.procs.size < rt.procs.size + _ + k + 1
  omega

/-- Types are built by building their procs, and then all of them. -/
theorem buildTypes_ok_iff {types : List CompiledType} {q : List Definition × Runtime} :
    rt.buildTypes r types = .ok q ↔ (types.map CompiledType.path).Nodup ∧ ∃ new a,
      r.procs (types.flatMap members) = .ok new ∧
      (rt.assembly r types new).buildAll ((laidOut r ∅ rt.procs.size types).size + 1)
        (laidOut r ∅ rt.procs.size types).keys = .ok a ∧
      q = (a.built.toList.map Prod.snd, a.runtime) := by
  constructor
  · intro h
    obtain ⟨⟨pending, rt₁⟩, hprepare, hrest⟩ := Except.of_bind_eq_ok h
    obtain ⟨a, hbuild, hq⟩ := Except.of_bind_eq_ok hrest
    obtain ⟨hdistinct, _, new, hnew, rfl, rfl⟩ := prepareTypes_ok_iff.mp hprepare
    exact ⟨hdistinct, new, a, hnew, hbuild, (Except.ok.inj hq).symm⟩
  · rintro ⟨hdistinct, new, a, hnew, hbuild, rfl⟩
    have hprepare : rt.prepareTypes r ∅ types =
        .ok (laidOut r ∅ rt.procs.size types, rt.grow new) :=
      prepareTypes_ok_iff.mpr ⟨hdistinct, by simp, new, hnew, rfl, rfl⟩
    rw [assembly] at hbuild
    simp only [buildTypes, hprepare, bind, Except.bind, hbuild]
    rfl

theorem buildTypes_isOk_iff : (∃ q, rt.buildTypes r w.types = .ok q) ↔
    w.paths.Nodup ∧ (∀ ty ∈ w.types, ty.Bound r) ∧
    ∀ ty ∈ w.types, ∃ chain, w.Ascent rt ty.path chain := by
  have hbound : (∀ ty ∈ w.types, ty.Bound r) ↔ ∃ new, r.procs (w.types.flatMap members) =
      .ok new := by
    simp only [Registry.procs_isOk_iff, bound_iff, List.mem_flatMap, forall_exists_index, and_imp]
    exact ⟨fun h q ty hty hq => h ty hty q hq, fun h ty hty q hq => h q ty hty hq⟩
  have hascends (hdistinct : w.paths.Nodup) (new : List Proc) :
      (∃ a, (rt.assembly r w.types new).buildAll ((laidOut r ∅ rt.procs.size w.types).size + 1)
        (laidOut r ∅ rt.procs.size w.types).keys = .ok a) ↔
          ∀ ty ∈ w.types, ∃ chain, w.Ascent rt ty.path chain := by
    simp only [Assembly.buildAll_isOk_iff (under_assembly w.types new) (Nat.lt_succ_self _),
      Std.ExtTreeMap.mem_keys, mem_laidOut hdistinct, ascends_iff hdistinct, List.forall_mem_map]
  constructor
  · rintro ⟨q, h⟩
    obtain ⟨hdistinct, new, a, hnew, hbuild, _⟩ := buildTypes_ok_iff.mp h
    exact ⟨hdistinct, hbound.mpr ⟨new, hnew⟩, (hascends hdistinct new).mp ⟨a, hbuild⟩⟩
  · rintro ⟨hdistinct, hprocs, hchains⟩
    obtain ⟨new, hnew⟩ := hbound.mp hprocs
    obtain ⟨a, hbuild⟩ := (hascends hdistinct new).mpr hchains
    exact ⟨_, buildTypes_ok_iff.mpr ⟨hdistinct, new, a, hnew, hbuild, rfl⟩⟩

/-- All types of a world have been put together, and nothing is registered yet. -/
structure Assembled (rt : Runtime) (r : Registry) (types : List CompiledType) (new : List Proc)
    (a : Assembly) : Prop where
  distinct : (types.map CompiledType.path).Nodup
  procs : r.procs (types.flatMap members) = .ok new
  all : (rt.assembly r types new).buildAll ((laidOut r ∅ rt.procs.size types).size + 1)
    (laidOut r ∅ rt.procs.size types).keys = .ok a
  under : Assembly.Under (laidOut r ∅ rt.procs.size types) rt.objects.types [] a
  built : ∀ path ∈ types.map CompiledType.path, path ∈ a.built
  relinks : (rt.grow new).Relinks rt.procs.size a.runtime

namespace Assembled

variable {types : List CompiledType} {new : List Proc} {a : Assembly} {path : String}
  {d : Definition}

theorem of_all (hdistinct : (types.map CompiledType.path).Nodup)
    (hnew : r.procs (types.flatMap members) = .ok new)
    (hbuild : (rt.assembly r types new).buildAll ((laidOut r ∅ rt.procs.size types).size + 1)
      (laidOut r ∅ rt.procs.size types).keys = .ok a) : rt.Assembled r types new a := by
  have hstart : Assembly.Under (laidOut r ∅ rt.procs.size types) rt.objects.types []
      (rt.assembly r types new) :=
    under_assembly types new
  have hchains := (Assembly.buildAll_isOk_iff hstart (Nat.lt_succ_self _)).mp ⟨a, hbuild⟩
  obtain ⟨a', hbuild', hunder, _, hbuilt⟩ :=
    Assembly.buildAll_of_ascends hstart hchains (Nat.lt_succ_self _)
  cases hbuild.symm.trans hbuild'
  refine {
    distinct := hdistinct
    procs := hnew
    all := hbuild
    under := hunder
    built := fun path hpath => ?_
    relinks := Assembly.relinks_of_buildAll (brings_assembly hdistinct new) hbuild }
  have hwanted : path ∈ laidOut r ∅ rt.procs.size types := (mem_laidOut hdistinct).mpr hpath
  exact hbuilt path (Std.ExtTreeMap.mem_keys.mpr hwanted) hwanted

/-- Every type that is built is a type of the world, merged with its parent. -/
theorem is_built (h : rt.Assembled r types new a) (hd : a.built[path]? = some d) :
    ∃ before ty after, types = before ++ ty :: after ∧ ty.path = path ∧
      a.IsBuilt (laidOut r ∅ rt.procs.size types) rt.objects.types
        (ty.prepared r (rt.procs.size + (before.flatMap members).length)) d := by
  obtain ⟨p, hp, hbuilt, _⟩ := h.under.built path d hd
  obtain ⟨before, ty, after, hsplit, hpath, rfl⟩ := (laidOut_iff h.distinct).mp hp
  exact ⟨before, ty, after, hsplit, hpath, hbuilt⟩

theorem path_of_built (h : rt.Assembled r types new a) (hd : a.built[path]? = some d) :
    d.path = path := by
  obtain ⟨_, _, _, _, rfl, _, rfl, _⟩ := h.is_built hd
  rfl

theorem mem_built (h : rt.Assembled r types new a) : path ∈ a.built ↔
    path ∈ types.map CompiledType.path := by
  refine ⟨fun hpath => ?_, h.built path⟩
  obtain ⟨d, hd⟩ := Option.isSome_iff_exists.mp (Std.ExtTreeMap.mem_iff_isSome_getElem?.mp hpath)
  obtain ⟨before, ty, after, rfl, rfl, _⟩ := h.is_built hd
  simp

theorem size_built (h : rt.Assembled r types new a) : a.built.size = types.length := by
  rw [size_eq_length h.distinct fun _ => h.mem_built, List.length_map]

end Assembled

theorem buildTypes_ok_iff_assembled {types : List CompiledType} {q : List Definition × Runtime} :
    rt.buildTypes r types = .ok q ↔
      ∃ new a, rt.Assembled r types new a ∧ q = (a.built.toList.map Prod.snd, a.runtime) := by
  rw [buildTypes_ok_iff]
  constructor
  · rintro ⟨hdistinct, new, a, hnew, hbuild, hq⟩
    exact ⟨new, a, .of_all hdistinct hnew hbuild, hq⟩
  · rintro ⟨new, a, h, hq⟩
    exact ⟨h.distinct, new, a, h.procs, h.all, hq⟩

/-! ### Defining the global procs -/

/-- The global procs of a list with their full names. -/
def named (procs : List (String × CompiledProc)) : List (String × CompiledProc) :=
  procs.map fun q => (s!"/proc/{q.1}", q.2)

/-- The runtime in which the global procs are defined that were built of a list. -/
def globalize (rt : Runtime) (procs : List (String × CompiledProc)) (new : List Proc) : Runtime :=
  { rt.grow new with globals := (addProcs rt.globals (numbered "" rt.procs.size procs)).1 }

theorem name_of_global (name : String) :
    toString "" ++ toString "/proc/" ++ toString name = s!"/proc/{name}" := by
  rw [show toString "" ++ toString "/proc/" = toString "/proc/" from String.empty_append]

theorem globalize_cons (q : String × CompiledProc) (procs : List (String × CompiledProc)) (p : Proc)
    (later : List Proc) :
    ((rt.grow [p]).defineGlobal q.1 ⟨rt.procs.size + 1, s!"/proc/{q.1}"⟩).globalize procs later =
      rt.globalize (q :: procs) (p :: later) := by
  simp only [globalize, numbered, addProcs_cons, name_of_global]
  simp [grow, defineGlobal]

/-- Global procs are defined one by one, but all of them if the host binds what they name. -/
theorem defineGlobals_of_ok {procs : List (String × CompiledProc)} {new : List Proc}
    (h : r.procs (named procs) = .ok new) : rt.defineGlobals r procs =
      (.ok (), rt.globalize procs new) := by
  induction procs generalizing rt new with
  | nil =>
    cases h
    simp [defineGlobals, globalize, numbered, addProcs]
  | cons q procs ih =>
    rw [named, List.map_cons, ← named, Registry.procs_cons] at h
    obtain ⟨p, hp, h⟩ := Except.of_bind_eq_ok h
    cases hrest : r.procs (named procs) with
    | error e =>
      rw [hrest] at h
      cases h
    | ok later =>
      rw [hrest] at h
      cases h
      rw [defineGlobals, buildProc_eq, hp, ← globalize_cons]
      exact ih hrest

theorem binds_of_defineGlobals {procs : List (String × CompiledProc)}
    (h : rt.defineGlobals r procs = (.ok (), rt')) :
    ∀ q ∈ procs, r.binds q.2.body = true := by
  induction procs generalizing rt with
  | nil => simp
  | cons q procs ih =>
    simp only [defineGlobals] at h
    cases hproc : rt.buildProc r s!"/proc/{q.1}" q.2 with
    | error e =>
      rw [hproc] at h
      cases h
    | ok built =>
      rw [hproc] at h
      exact List.forall_mem_cons.mpr ⟨(buildProc_ok hproc).1, ih h⟩

theorem named_isOk_iff {procs : List (String × CompiledProc)} :
    (∃ later, r.procs (named procs) = .ok later) ↔ ∀ q ∈ procs, r.binds q.2.body = true := by
  rw [Registry.procs_isOk_iff, named, List.forall_mem_map]

theorem defineGlobals_ok_iff {procs : List (String × CompiledProc)} :
    rt.defineGlobals r procs = (.ok (), rt') ↔
      ∃ later, r.procs (named procs) = .ok later ∧ rt' = rt.globalize procs later := by
  constructor
  · intro h
    obtain ⟨later, hlater⟩ := named_isOk_iff.mpr (binds_of_defineGlobals h)
    rw [defineGlobals_of_ok hlater] at h
    cases h
    exact ⟨later, hlater, rfl⟩
  · rintro ⟨later, hlater, rfl⟩
    exact defineGlobals_of_ok hlater

/-! ### Loading -/

/-- The runtime with other types registered. -/
def enroll (rt : Runtime) (types : Names Definition) : Runtime :=
  { rt with store := { rt.store with objects := { rt.store.objects with types } } }

/-- Definitions that stand under their own paths are registered under them. -/
theorem register_built {definitions : List (String × Definition)}
    (hpaths : ∀ q ∈ definitions, q.2.path = q.1) :
    (definitions.map Prod.snd).foldl register rt =
      rt.enroll (rt.objects.types.insertMany definitions) := by
  induction definitions generalizing rt with
  | nil => rw [Std.ExtTreeMap.insertMany_nil]; rfl
  | cons q definitions ih =>
    rw [List.forall_mem_cons] at hpaths
    rw [List.map_cons, List.foldl_cons, ih hpaths.2, Std.ExtTreeMap.insertMany_cons, ← hpaths.1]
    rfl

/-- What a world is loaded from and to. -/
structure Loaded (rt : Runtime) (r : Registry) (w : CompiledWorld) (new later : List Proc)
    (a : Assembly) (rt' : Runtime) : Prop where
  types : rt.Assembled r w.types new a
  globals : r.procs (named w.procs) = .ok later
  result :
    rt' = (a.runtime.enroll (rt.objects.types.insertMany a.built.toList)).globalize w.procs later

theorem loadCompiled_ok_iff {summary : LoadSummary} : rt.loadCompiled r w = (.ok summary, rt') ↔
    summary = { types := w.types.length, procs := w.procs.length } ∧
    ∃ new later a, rt.Loaded r w new later a rt' := by
  have hregister {new : List Proc} {a : Assembly} (h : rt.Assembled r w.types new a) :
      (a.built.toList.map Prod.snd).foldl register a.runtime =
        a.runtime.enroll (rt.objects.types.insertMany a.built.toList) := by
    rw [← h.under.types]
    exact register_built fun q hq =>
      h.path_of_built (Std.ExtTreeMap.mem_toList_iff_getElem?_eq_some.mp hq)
  constructor
  · intro h
    simp only [loadCompiled] at h
    cases hbuild : rt.buildTypes r w.types with
    | error e =>
      rw [hbuild] at h
      cases h
    | ok q =>
      rw [hbuild] at h
      obtain ⟨new, a, htypes, rfl⟩ := buildTypes_ok_iff_assembled.mp hbuild
      dsimp only at h
      rw [hregister htypes] at h
      cases hdefine :
        (a.runtime.enroll (rt.objects.types.insertMany a.built.toList)).defineGlobals r w.procs with
      | mk outcome defined =>
        rw [hdefine] at h
        cases outcome with
        | error e => cases h
        | ok u =>
          cases h
          obtain ⟨later, hlater, rfl⟩ := defineGlobals_ok_iff.mp hdefine
          exact ⟨by simp [htypes.size_built], new, later, a, htypes, hlater, rfl⟩
  · rintro ⟨rfl, new, later, a, htypes, hlater, rfl⟩
    simp only [loadCompiled, buildTypes_ok_iff_assembled.mpr ⟨new, a, htypes, rfl⟩,
      hregister htypes, defineGlobals_of_ok hlater]
    simp [Except.map, htypes.size_built]

/-- A world can be loaded if and only if it is accepted. -/
theorem loadCompiled_isOk_iff : (∃ summary, (rt.loadCompiled r w).1 = .ok summary) ↔
    w.Accepted rt r := by
  constructor
  · rintro ⟨summary, h⟩
    obtain ⟨_, new, later, a, htypes, hlater, _⟩ := loadCompiled_ok_iff.mp (Prod.ext h rfl)
    obtain ⟨hdistinct, hbound, hascends⟩ :=
      buildTypes_isOk_iff.mp ⟨_, buildTypes_ok_iff_assembled.mpr ⟨new, a, htypes, rfl⟩⟩
    exact ⟨hdistinct, hbound, named_isOk_iff.mp ⟨later, hlater⟩, hascends⟩
  · intro h
    obtain ⟨q, hbuild⟩ := buildTypes_isOk_iff.mpr ⟨h.distinct, h.types, h.ascends⟩
    obtain ⟨new, a, htypes, _⟩ := buildTypes_ok_iff_assembled.mp hbuild
    obtain ⟨later, hlater⟩ := named_isOk_iff.mpr h.globals
    exact ⟨_, congrArg Prod.fst (loadCompiled_ok_iff.mpr ⟨rfl, new, later, a, htypes, hlater, rfl⟩)⟩

end Runtime

end ProcEngine
