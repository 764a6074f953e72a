import ProcEngine.Proofs.World.Atomicity
/-!
# Preparing the types of a world

What becomes of the procs of a world before any definition is built. The procs of a type, or of any
number of types, are built all or not at all, and are added to the runtime in the order in which
they are listed; a type refers to its own by where they are added. Types can be prepared if the host
binds what they use and no two share a path.
-/

namespace ProcEngine

/-! ### Procs as the host has them -/

namespace Registry

variable (r : Registry)

def proc (name : String) (p : CompiledProc) : Except LoadError Proc :=
  (r.body name p.body).map fun body => { signature := p.signature name, body }

/-- All procs of a list with their full names, unless the host lacks something for one of them. -/
def procs (named : List (String × CompiledProc)) : Except LoadError (List Proc) :=
  named.mapM fun q => r.proc q.1 q.2

variable {r}

theorem proc_ok {name : String} {p : CompiledProc} {proc : Proc} (h : r.proc name p = .ok proc) :
    ∃ body, r.body name p.body = .ok body ∧ proc = { signature := p.signature name, body } := by
  simp only [Registry.proc] at h
  cases hbody : r.body name p.body with
  | error e =>
    rw [hbody] at h
    cases h
  | ok body =>
    rw [hbody] at h
    cases h
    exact ⟨body, rfl, rfl⟩

theorem proc_isOk_iff (name : String) {p : CompiledProc} :
    (∃ q, r.proc name p = .ok q) ↔ r.binds p.body = true := by
  constructor
  · rintro ⟨q, hq⟩
    obtain ⟨body, hbody, _⟩ := proc_ok hq
    exact binds_of_body hbody
  · intro hbinds
    cases hbody : r.body name p.body with
    | ok body => exact ⟨{ signature := p.signature name, body }, by rw [Registry.proc, hbody]; rfl⟩
    | error e => exact absurd ((body_eq_error hbody).1.symm.trans hbinds) (by simp)

@[simp] theorem procs_nil : r.procs [] = .ok [] := rfl

theorem procs_cons (q : String × CompiledProc) (named : List (String × CompiledProc)) :
    r.procs (q :: named) = r.proc q.1 q.2 >>= fun p => (r.procs named).map (p :: ·) := by
  rw [procs, List.mapM_cons, ← procs]
  cases r.proc q.1 q.2 with
  | error e => rfl
  | ok p => cases r.procs named <;> rfl

theorem procs_append (named later : List (String × CompiledProc)) :
    r.procs (named ++ later) = r.procs named >>= fun new => (r.procs later).map (new ++ ·) := by
  induction named with
  | nil =>
    rw [List.nil_append]
    cases r.procs later <;> rfl
  | cons q named ih =>
    rw [List.cons_append, procs_cons, procs_cons, ih]
    cases r.proc q.1 q.2 with
    | error e => rfl
    | ok p =>
      cases r.procs named with
      | error e => rfl
      | ok new => cases r.procs later <;> rfl

theorem procs_isOk_iff {named : List (String × CompiledProc)} :
    (∃ new, r.procs named = .ok new) ↔ ∀ q ∈ named, r.binds q.2.body = true := by
  induction named with
  | nil => simp
  | cons q named ih =>
    rw [List.forall_mem_cons, ← ih, ← proc_isOk_iff q.1, procs_cons]
    constructor
    · rintro ⟨new, hnew⟩
      obtain ⟨p, hp, hnew⟩ := Except.of_bind_eq_ok hnew
      cases hrest : r.procs named with
      | error e =>
        rw [hrest] at hnew
        cases hnew
      | ok rest => exact ⟨⟨p, hp⟩, rest, rfl⟩
    · rintro ⟨⟨p, hp⟩, rest, hrest⟩
      exact ⟨p :: rest, by rw [hp, hrest]; rfl⟩

theorem procs_ok_iff {named : List (String × CompiledProc)} {new : List Proc} :
    r.procs named = .ok new ↔ List.Forall₂ (fun q p => r.proc q.1 q.2 = .ok p) named new := by
  induction named generalizing new with
  | nil =>
    rw [List.forall₂_nil_left_iff, procs_nil, Except.ok.injEq]
    exact eq_comm
  | cons q named ih =>
    rw [List.forall₂_cons_left_iff, procs_cons]
    cases hq : r.proc q.1 q.2 with
    | error e => simp [bind, Except.bind]
    | ok p =>
      cases hrest : r.procs named with
      | error e => simp [← ih, hrest, bind, Except.bind, Except.map]
      | ok rest =>
        simp only [← ih, hrest, bind, Except.bind, Except.map, Except.ok.injEq]
        constructor
        · rintro rfl
          exact ⟨p, rest, rfl, rfl, rfl⟩
        · rintro ⟨_, _, rfl, rfl, rfl⟩
          rfl

theorem length_procs {named : List (String × CompiledProc)} {new : List Proc}
    (h : r.procs named = .ok new) :
    new.length = named.length := (procs_ok_iff.mp h).length_eq.symm

/-- What is listed at a place is built at that place. -/
theorem procs_getElem? {named : List (String × CompiledProc)} {new : List Proc}
    (h : r.procs named = .ok new) {k : Nat} {q : String × CompiledProc} (hq : named[k]? = some q) :
    ∃ p, new[k]? = some p ∧ r.proc q.1 q.2 = .ok p := by
  have hall := procs_ok_iff.mp h
  clear h
  induction hall generalizing k with
  | nil => simp at hq
  | cons hp _ ih =>
    cases k with
    | zero =>
      cases hq
      exact ⟨_, rfl, hp⟩
    | succ k => exact ih hq

theorem unlinked_of_procs {named : List (String × CompiledProc)} {new : List Proc}
    (h : r.procs named = .ok new) {p : Proc} (hp : p ∈ new) : p.overridden = none := by
  obtain ⟨k, hk⟩ := List.getElem?_of_mem hp
  obtain ⟨hlt, _⟩ := List.getElem?_eq_some_iff.mp hk
  rw [length_procs h] at hlt
  obtain ⟨p', hp', hmade⟩ := procs_getElem? h (List.getElem?_eq_getElem hlt)
  cases hk.symm.trans hp'
  obtain ⟨body, _, rfl⟩ := proc_ok hmade
  rfl

end Registry

/-! ### One type -/

namespace CompiledType

/-- The procs of a type with their full names, in the order in which they are built. -/
def members (ty : CompiledType) : List (String × CompiledProc) :=
  ty.procs.map (fun q => (s!"{ty.path}/proc/{q.1}", q.2)) ++
    ty.initializer.toList.map fun p => (s!"{ty.path}/(init)", p)

variable {ty : CompiledType}

theorem members_own {k : Nat} {x : String} {p : CompiledProc} (hk : ty.procs[k]? = some (x, p)) :
    ty.members[k]? = some (s!"{ty.path}/proc/{x}", p) := by
  obtain ⟨hlt, _⟩ := List.getElem?_eq_some_iff.mp hk
  rw [members, List.getElem?_append_left (by rwa [List.length_map]), List.getElem?_map, hk]
  rfl

theorem members_initializer {p : CompiledProc} (hp : ty.initializer = some p) :
    ty.members[ty.procs.length]? = some (s!"{ty.path}/(init)", p) := by
  rw [members, List.getElem?_append_right (by rw [List.length_map]), List.length_map,
    Nat.sub_self, hp]
  rfl

/-- The references to the procs of a list, the first of which is added to a runtime with `n`
procs. -/
def numbered (path : String) : Nat → List (String × CompiledProc) → List (String × ProcRef)
  | _, [] => []
  | n, (name, _) :: rest => (name, ⟨n + 1, s!"{path}/proc/{name}"⟩) :: numbered path (n + 1) rest

theorem numbered_names (path : String) (n : Nat) (procs : List (String × CompiledProc)) :
    (numbered path n procs).map Prod.fst = procs.map Prod.fst := by
  induction procs generalizing n with
  | nil => rfl
  | cons q procs ih => simp [numbered, ih]

theorem of_mem_numbered {path x : String} {n : Nat} {procs : List (String × CompiledProc)}
    {q : ProcRef} (hq : (x, q) ∈ numbered path n procs) :
    ∃ k p, procs[k]? = some (x, p) ∧ q = ⟨n + k + 1, s!"{path}/proc/{x}"⟩ := by
  induction procs generalizing n with
  | nil => simp [numbered] at hq
  | cons p procs ih =>
    obtain hq | hq := List.mem_cons.mp hq
    · cases hq
      exact ⟨0, p.2, rfl, rfl⟩
    · obtain ⟨k, p', hk, hq'⟩ := ih hq
      exact ⟨k + 1, p', hk, by rw [hq', Nat.add_right_comm n 1 k]; rfl⟩

/-- The type when the first of its procs is added to a runtime with `n` procs. -/
def spec (ty : CompiledType) (r : Registry) (n : Nat) : TypeSpec where
  path := ty.path
  vars := Std.ExtTreeMap.ofList (ty.vars.map fun (name, c) => (name, c.toValue))
  procs := numbered ty.path n ty.procs
  initializer := ty.initializer.map fun _ => ⟨n + ty.procs.length + 1, s!"{ty.path}/(init)"⟩
  hooks := r.hooks[ty.path]?

def prepared (ty : CompiledType) (r : Registry) (n : Nat) : PendingType :=
  { parent := ty.parent, spec := ty.spec r n }

end CompiledType

namespace Runtime

open CompiledType

def grow (rt : Runtime) (new : List Proc) : Runtime := { rt with procs := rt.procs ++ new.toArray }

variable {rt rt' : Runtime} {r : Registry}

@[simp] theorem grow_nil (rt : Runtime) : rt.grow [] = rt := by simp [grow]

@[simp] theorem grow_grow (rt : Runtime) (new later : List Proc) :
    (rt.grow new).grow later = rt.grow (new ++ later) := by simp [grow]

@[simp] theorem size_grow (rt : Runtime) (new : List Proc) : (rt.grow new).procs.size =
    rt.procs.size + new.length := by
  simp [grow]

theorem buildProc_eq (name : String) (p : CompiledProc) :
    rt.buildProc r name p = (r.proc name p).map fun proc =>
      (⟨rt.procs.size + 1, name⟩, rt.grow [proc]) := by
  rw [buildProc, Registry.proc]
  cases r.body name p.body with
  | error e => rfl
  | ok body => simp [Except.map, addProc, grow, Proc.name, CompiledProc.signature]

theorem buildProcs_eq (path : String) (procs : List (String × CompiledProc)) :
    rt.buildProcs r path procs =
      (r.procs (procs.map fun q => (s!"{path}/proc/{q.1}", q.2))).map fun new =>
      (numbered path rt.procs.size procs, rt.grow new) := by
  induction procs generalizing rt with
  | nil => simp [buildProcs, numbered, Except.map]
  | cons q procs ih =>
    simp only [buildProcs, buildProc_eq, List.map_cons, Registry.procs_cons]
    cases r.proc s!"{path}/proc/{q.1}" q.2 with
    | error e => rfl
    | ok p =>
      simp only [Except.map, bind, Except.bind, ih]
      cases r.procs (procs.map fun q => (s!"{path}/proc/{q.1}", q.2)) with
      | error e => rfl
      | ok new => simp [pure, Except.pure, numbered]

/-- A type is prepared by building all its procs. -/
theorem prepareType_eq (ty : CompiledType) :
    rt.prepareType r ty = (r.procs ty.members).map fun new =>
      (ty.prepared r rt.procs.size, rt.grow new) := by
  simp only [prepareType, buildProcs_eq, members, Registry.procs_append]
  cases hprocs : r.procs (ty.procs.map fun q => (s!"{ty.path}/proc/{q.1}", q.2)) with
  | error e => rfl
  | ok new =>
    have hlength : new.length = ty.procs.length := by
      rw [Registry.length_procs hprocs, List.length_map]
    cases hinitializer : ty.initializer with
    | none =>
      simp [buildInitializer, prepared, spec, hinitializer, Except.map, bind, Except.bind,
        pure, Except.pure]
    | some p =>
      simp only [Except.map, bind, Except.bind, buildInitializer, buildProc_eq, Option.toList_some,
        List.map_cons, List.map_nil, Registry.procs_cons, Registry.procs_nil]
      cases r.proc s!"{ty.path}/(init)" p with
      | error e => rfl
      | ok proc => simp [prepared, spec, hinitializer, hlength, pure, Except.pure]

/-! ### All types -/

/-- The types that are still to be built, when the first proc of the first type is added to a
runtime with `n` procs. -/
def laidOut (r : Registry) (pending : Names PendingType) : Nat → List CompiledType →
    Names PendingType
  | _, [] => pending
  | n, ty :: types =>
    laidOut r (pending.insert ty.path (ty.prepared r n)) (n + ty.members.length) types

theorem laidOut_old {pending : Names PendingType} {types : List CompiledType} {n : Nat}
    {path : String}
    (hpath : path ∉ types.map CompiledType.path) : (laidOut r pending n types)[path]? =
      pending[path]? := by
  induction types generalizing pending n with
  | nil => rfl
  | cons ty types ih =>
    rw [List.map_cons, List.mem_cons, not_or] at hpath
    rw [laidOut, ih hpath.2, Std.ExtTreeMap.getElem?_insert]
    simp [Ne.symm hpath.1]

theorem laidOut_append {pending : Names PendingType} {types later : List CompiledType} {n : Nat} :
    laidOut r pending n (types ++ later) =
      laidOut r (laidOut r pending n types)
        (n + (types.flatMap CompiledType.members).length) later := by
  induction types generalizing pending n with
  | nil => rfl
  | cons ty types ih => simp [laidOut, ih, Nat.add_assoc]

/-- A type refers to its procs by where they are added, which is behind those of the types
before. -/
theorem laidOut_new {pending : Names PendingType} {before after : List CompiledType}
    {ty : CompiledType} {n : Nat} (hpath : ty.path ∉ after.map CompiledType.path) :
    (laidOut r pending n (before ++ ty :: after))[ty.path]? =
      some (ty.prepared r (n + (before.flatMap CompiledType.members).length)) := by
  rw [laidOut_append, laidOut, laidOut_old hpath, Std.ExtTreeMap.getElem?_insert_self]

/-- Types can be prepared if no two share a path, none is there already, and all their procs can be
built. -/
theorem prepareTypes_ok_iff {pending pending' : Names PendingType} {types : List CompiledType} :
    rt.prepareTypes r pending types = .ok (pending', rt') ↔
      (types.map CompiledType.path).Nodup ∧ (∀ ty ∈ types, ty.path ∉ pending) ∧
      ∃ new, r.procs (types.flatMap CompiledType.members) = .ok new ∧
        pending' = laidOut r pending rt.procs.size types ∧ rt' = rt.grow new := by
  induction types generalizing rt pending with
  | nil => simp [prepareTypes, laidOut, eq_comm]
  | cons ty types ih =>
    simp only [prepareTypes, prepareType_eq, List.flatMap_cons, Registry.procs_append,
      List.map_cons, List.nodup_cons, List.forall_mem_cons]
    cases hty : r.procs ty.members with
    | error e => simp [Except.map, bind, Except.bind]
    | ok new =>
      by_cases hthere : ty.path ∈ pending
      · simp [Except.map, bind, Except.bind, hthere]
      · have hfree :
            ∀ ty' : CompiledType, ty'.path ∉ pending.insert ty.path (ty.prepared r rt.procs.size) ↔
            ty'.path ≠ ty.path ∧ ty'.path ∉ pending := by
          intro ty'
          rw [Std.ExtTreeMap.mem_insert, not_or, Std.LawfulEqCmp.compare_eq_iff_eq, eq_comm]
        simp only [Except.map, bind, Except.bind, Std.ExtTreeMap.contains_iff_mem, hthere, if_false]
        show (rt.grow new).prepareTypes r (pending.insert ty.path (ty.prepared r rt.procs.size))
          types = _ ↔ _
        have hlength : (rt.grow new).procs.size = rt.procs.size + ty.members.length := by
          rw [size_grow, Registry.length_procs hty]
        simp only [ih, hfree, hlength, List.mem_map, not_exists, not_and,
          not_false_eq_true, true_and]
        constructor
        · rintro ⟨hnodup, hnew, later, hlater, rfl, rfl⟩
          refine ⟨⟨fun ty' hty' => (hnew ty' hty').1, hnodup⟩, fun ty' hty' => (hnew ty' hty').2,
            ?_⟩
          exact ⟨new ++ later, by rw [hlater], rfl, grow_grow rt new later⟩
        · rintro ⟨⟨hfirst, hnodup⟩, hrest, all, hall, rfl, rfl⟩
          refine ⟨hnodup, fun ty' hty' => ⟨hfirst ty' hty', hrest ty' hty'⟩, ?_⟩
          cases hlater : r.procs (types.flatMap CompiledType.members) with
          | error e =>
            rw [hlater] at hall
            cases hall
          | ok later =>
            rw [hlater] at hall
            cases hall
            exact ⟨later, rfl, rfl, (grow_grow rt new later).symm⟩

end Runtime

end ProcEngine
