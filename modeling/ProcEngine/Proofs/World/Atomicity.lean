import Mathlib
import ProcEngine.Proofs.Preserves
import ProcEngine.World.Loading
/-!
# What a failed load leaves behind

A load that fails before anything is registered leaves the runtime as it was. It can also fail
later: the types are registered before the global procs are built, so a global proc without a
binding leaves the types behind, and the global procs whose names come before its own. Whether a
load fails or not, nothing has run.
-/

namespace ProcEngine

/-- Whether the host has what a body needs. -/
def Registry.binds (r : Registry) : CompiledBody → Bool
  | .native binding => r.bindings.contains binding
  | .script .. => true

theorem Registry.body_eq_error {r : Registry} {name : String} {b : CompiledBody} {e : LoadError}
    (h : r.body name b = .error e) :
    r.binds b = false ∧ ∃ binding, b = .native binding ∧ e = .missingBinding binding name := by
  cases b with
  | script code locals => cases h
  | native binding =>
    simp only [body] at h
    split at h
    · cases h
    · rename_i hnone
      cases h
      refine ⟨?_, binding, rfl, rfl⟩
      rw [binds, Std.ExtTreeMap.contains_eq_isSome_getElem?, hnone]
      rfl

theorem Registry.binds_of_body {r : Registry} {name : String} {b : CompiledBody} {body : Body}
    (h : r.body name b = .ok body) : r.binds b = true := by
  cases b with
  | script code locals => rfl
  | native binding =>
    simp only [Registry.body] at h
    split at h
    · rename_i b hsome
      rw [binds, Std.ExtTreeMap.contains_eq_isSome_getElem?, hsome]
      rfl
    · cases h

/-! ### Building installs nothing -/

/-- What holds of a runtime and one in which more procs are built: nothing has been given a name,
and nothing has run. -/
structure Runtime.Builds (rt rt' : Runtime) : Prop where
  store : rt'.store = rt.store
  globals : rt'.globals = rt.globals
  detached : rt'.detached = rt.detached
  chronicle : rt'.chronicle = rt.chronicle
  procs : rt.procs.size ≤ rt'.procs.size

namespace Runtime

variable {rt rt' : Runtime} {r : Registry}

namespace Builds

theorem refl (rt : Runtime) : Builds rt rt := ⟨rfl, rfl, rfl, rfl, Nat.le_refl _⟩

theorem trans {rt'' : Runtime} (h : Builds rt rt') (h' : Builds rt' rt'') : Builds rt rt'' where
  store := h'.store.trans h.store
  globals := h'.globals.trans h.globals
  detached := h'.detached.trans h.detached
  chronicle := h'.chronicle.trans h.chronicle
  procs := Nat.le_trans h.procs h'.procs

theorem addProc (rt : Runtime) (p : Proc) : Builds rt (rt.addProc p).2 where
  store := rfl
  globals := rfl
  detached := rfl
  chronicle := rfl
  procs := by
    show rt.procs.size ≤ (rt.procs.push p).size
    rw [Array.size_push]
    omega

theorem link (rt : Runtime) (o : Override) : Builds rt (rt.link o) := by
  simp only [Runtime.link]
  split
  · exact refl rt
  · exact ⟨rfl, rfl, rfl, rfl, by simp⟩

theorem links (overrides : List Override) (rt : Runtime) :
    Builds rt (overrides.foldl Runtime.link rt) := by
  induction overrides generalizing rt with
  | nil => exact refl rt
  | cons o overrides ih => exact (link rt o).trans (ih _)

end Builds

theorem buildProc_ok {name : String} {p : CompiledProc} {proc : ProcRef}
    (h : rt.buildProc r name p = .ok (proc, rt')) :
    r.binds p.body = true ∧ proc.id = rt.procs.size + 1 ∧ Builds rt rt' := by
  simp only [buildProc] at h
  cases hbody : r.body name p.body with
  | error e =>
    rw [hbody] at h
    cases h
  | ok body =>
    rw [hbody] at h
    cases h
    exact ⟨Registry.binds_of_body hbody, rfl, Builds.addProc rt _⟩

theorem buildProc_error {name : String} {p : CompiledProc} {e : LoadError}
    (h : rt.buildProc r name p = .error e) :
    r.binds p.body = false ∧ ∃ binding, p.body = .native binding ∧
      e = .missingBinding binding name := by
  simp only [buildProc] at h
  cases hbody : r.body name p.body with
  | ok body =>
    rw [hbody] at h
    cases h
  | error e' =>
    rw [hbody] at h
    cases h
    exact Registry.body_eq_error hbody

namespace Builds

theorem buildProcs {path : String} {procs : List (String × CompiledProc)}
    {built : List (String × ProcRef)}
    (h : rt.buildProcs r path procs = .ok (built, rt')) : Builds rt rt' := by
  induction procs generalizing rt built with
  | nil =>
    cases h
    exact refl _
  | cons p procs ih =>
    obtain ⟨⟨proc, rt₁⟩, hproc, h⟩ := Except.of_bind_eq_ok h
    obtain ⟨⟨rest, rt₂⟩, hrest, h⟩ := Except.of_bind_eq_ok h
    cases h
    exact (buildProc_ok hproc).2.2.trans (ih hrest)

theorem buildInitializer {path : String} {p : Option CompiledProc} {proc : Option ProcRef}
    (h : rt.buildInitializer r path p = .ok (proc, rt')) : Builds rt rt' := by
  cases p with
  | none =>
    cases h
    exact refl _
  | some p =>
    obtain ⟨⟨proc, rt₁⟩, hproc, h⟩ := Except.of_bind_eq_ok h
    cases h
    exact (buildProc_ok hproc).2.2

theorem prepareType {ty : CompiledType} {p : PendingType} (h : rt.prepareType r ty = .ok (p, rt')) :
    Builds rt rt' := by
  obtain ⟨⟨procs, rt₁⟩, hprocs, h⟩ := Except.of_bind_eq_ok h
  obtain ⟨⟨initializer, rt₂⟩, hinitializer, h⟩ := Except.of_bind_eq_ok h
  cases h
  exact (buildProcs hprocs).trans (buildInitializer hinitializer)

theorem prepareTypes {types : List CompiledType} {pending prepared : Names PendingType}
    (h : rt.prepareTypes r pending types = .ok (prepared, rt')) : Builds rt rt' := by
  induction types generalizing rt pending with
  | nil =>
    cases h
    exact refl _
  | cons ty types ih =>
    obtain ⟨⟨p, rt₁⟩, htype, h⟩ := Except.of_bind_eq_ok h
    dsimp only at h
    split at h
    · cases h
    · exact (prepareType htype).trans (ih h)

theorem build {fuel : Nat} {visiting : List String} {path : String} {a a' : Assembly}
    {d : Definition}
    (h : a.build fuel visiting path = .ok (d, a')) : Builds a.runtime a'.runtime := by
  induction fuel generalizing visiting path a d a' with
  | zero => cases h
  | succ fuel ih =>
    simp only [Assembly.build] at h
    split at h
    · cases h
      exact refl _
    · split at h
      · cases h
      · split at h
        · split at h
          · cases h
            exact refl _
          · cases h
        · split at h
          · cases h
            exact links _ _
          · rename_i parent _
            obtain ⟨⟨d', a₁⟩, hparent, h⟩ := Except.of_bind_eq_ok h
            cases h
            cases hbuild :
              Assembly.build fuel (path :: visiting) parent
                { a with pending := a.pending.erase path } with
            | error e =>
              rw [hbuild] at hparent
              cases hparent
            | ok q =>
              rw [hbuild] at hparent
              cases hparent
              exact (ih hbuild).trans (links _ _)

theorem buildAll {fuel : Nat} {paths : List String} {a a' : Assembly}
    (h : a.buildAll fuel paths = .ok a') :
    Builds a.runtime a'.runtime := by
  induction paths generalizing a with
  | nil =>
    cases h
    exact refl _
  | cons path paths ih =>
    obtain ⟨⟨d, a₁⟩, hbuild, h⟩ := Except.of_bind_eq_ok h
    exact (build hbuild).trans (ih h)

theorem buildTypes {types : List CompiledType} {definitions : List Definition}
    (h : rt.buildTypes r types = .ok (definitions, rt')) : Builds rt rt' := by
  obtain ⟨⟨pending, rt₁⟩, hprepare, h⟩ := Except.of_bind_eq_ok h
  obtain ⟨a, hbuild, h⟩ := Except.of_bind_eq_ok h
  cases h
  exact (prepareTypes hprepare).trans (buildAll hbuild)

end Builds

/-! ### Failing late -/

/-- Registering definitions gives names to them alone. -/
theorem register_all (definitions : List Definition) (rt : Runtime) :
    (definitions.foldl register rt).objects.types =
        definitions.foldl (fun types d => types.insert d.path d) rt.objects.types ∧
      (definitions.foldl register rt).globals = rt.globals ∧
      (definitions.foldl register rt).procs = rt.procs := by
  induction definitions generalizing rt with
  | nil => exact ⟨rfl, rfl, rfl⟩
  | cons d definitions ih => exact ih (rt.register d)

/-- The global procs `procs` are defined up to the first that the host does not bind, and that one
is to blame for the error. -/
structure DefinesUpTo (rt : Runtime) (r : Registry) (procs : List (String × CompiledProc))
    (e : LoadError) (rt' : Runtime) (earlier : List (String × CompiledProc)) (name : String)
    (p : CompiledProc) : Prop where
  split : ∃ later, procs = earlier ++ (name, p) :: later
  bound : ∀ q ∈ earlier, r.binds q.2.body = true
  unbound : r.binds p.body = false
  missing : ∃ binding, p.body = .native binding ∧ e = .missingBinding binding s!"/proc/{name}"
  old : ∀ n ∉ earlier.map Prod.fst, rt'.globals[n]? = rt.globals[n]?
  new : ∀ n ∈ earlier.map Prod.fst, ∃ q, rt'.globals[n]? = some q ∧ rt.procs.size < q.id

theorem defineGlobals_error {procs : List (String × CompiledProc)} {e : LoadError}
    (h : rt.defineGlobals r procs = (.error e, rt')) :
    rt'.store = rt.store ∧ ∃ earlier name p, rt.DefinesUpTo r procs e rt' earlier name p := by
  induction procs generalizing rt with
  | nil => cases h
  | cons q procs ih =>
    obtain ⟨name, p⟩ := q
    simp only [defineGlobals] at h
    cases hproc : rt.buildProc r s!"/proc/{name}" p with
    | error e' =>
      rw [hproc] at h
      cases h
      obtain ⟨hbinds, hmissing⟩ := buildProc_error hproc
      exact ⟨rfl, [], name, p, ⟨procs, rfl⟩, by simp, hbinds, hmissing, fun _ _ => rfl, by simp⟩
    | ok q =>
      obtain ⟨proc, rt₁⟩ := q
      rw [hproc] at h
      obtain ⟨hbinds, hid, hbuilds⟩ := buildProc_ok hproc
      obtain ⟨hstore, earlier, name', p', hrest⟩ := ih h
      obtain ⟨later, rfl⟩ := hrest.split
      refine ⟨hstore.trans hbuilds.store, (name, p) :: earlier, name', p', {
        split := ⟨later, rfl⟩
        bound := ?_
        unbound := hrest.unbound
        missing := hrest.missing
        old := fun n hn => ?_
        new := fun n hn => ?_ }⟩
      · intro q hq
        obtain rfl | hq := List.mem_cons.mp hq
        · exact hbinds
        · exact hrest.bound q hq
      · rw [List.map_cons, List.mem_cons, not_or] at hn
        rw [hrest.old n hn.2, defineGlobal, Std.ExtTreeMap.getElem?_insert, hbuilds.globals]
        simp [Ne.symm hn.1]
      · by_cases hlater : n ∈ earlier.map Prod.fst
        · obtain ⟨q, hq, hlt⟩ := hrest.new n hlater
          have hlt : rt₁.procs.size < q.id := hlt
          exact ⟨q, hq, Nat.lt_of_le_of_lt hbuilds.procs hlt⟩
        · obtain rfl : n = name := by simpa [hlater] using hn
          refine ⟨proc, ?_, by omega⟩
          rw [hrest.old n hlater, defineGlobal, Std.ExtTreeMap.getElem?_insert_self]

/-- A load that has registered the types of a world and come as far in its global procs as it
can. -/
structure FailsLate (rt : Runtime) (r : Registry) (w : CompiledWorld) (e : LoadError)
    (rt' : Runtime) : Prop where
  types : ∃ definitions built, rt.buildTypes r w.types = .ok (definitions, built) ∧
    rt'.objects.types = definitions.foldl (fun types d => types.insert d.path d) rt.objects.types
  globals : ∃ earlier name p, rt.DefinesUpTo r w.procs e rt' earlier name p

theorem loadCompiled_error {w : CompiledWorld} {e : LoadError}
    (h : rt.loadCompiled r w = (.error e, rt')) :
    rt' = rt ∨ rt.FailsLate r w e rt' := by
  simp only [loadCompiled] at h
  cases hbuild : rt.buildTypes r w.types with
  | error e' =>
    rw [hbuild] at h
    cases h
    exact Or.inl rfl
  | ok q =>
    obtain ⟨definitions, built⟩ := q
    rw [hbuild] at h
    have hbuilds := Builds.buildTypes hbuild
    obtain ⟨htypes, hglobals, hprocs⟩ := register_all definitions built
    dsimp only at h
    cases hdefine : (definitions.foldl register built).defineGlobals r w.procs with
    | mk outcome rt₁ =>
      rw [hdefine] at h
      cases outcome with
      | ok u => cases h
      | error e' =>
        cases h
        obtain ⟨hstore, earlier, name, p, hupTo⟩ := defineGlobals_error hdefine
        refine Or.inr ⟨⟨definitions, built, hbuild, ?_⟩, earlier, name, p,
          { hupTo with old := ?_, new := ?_ }⟩
        · rw [objects, hstore, ← objects, htypes, objects, hbuilds.store]
          rfl
        · intro n hn
          rw [hupTo.old n hn, hglobals, hbuilds.globals]
        · intro n hn
          obtain ⟨q, hq, hlt⟩ := hupTo.new n hn
          rw [hprocs] at hlt
          exact ⟨q, hq, Nat.lt_of_le_of_lt hbuilds.procs hlt⟩

/-- A load that fails leaves everything as it was, unless the one thing that it lacks is a binding
for a global proc: then the types of the world stay, and the global procs before that one. -/
theorem loadWorld_error {e : LoadError} {text : String}
    (h : rt.loadWorld r text = (.error e, rt')) :
    rt' = rt ∨ ∃ w, Format.readWorld text = some w ∧ rt.FailsLate r w e rt' := by
  simp only [loadWorld] at h
  cases hread : Format.readWorld text with
  | none =>
    rw [hread] at h
    cases h
    exact Or.inl rfl
  | some w =>
    rw [hread] at h
    exact (loadCompiled_error h).imp_right fun hlate => ⟨w, rfl, hlate⟩

/-- Where the host binds every global proc of a world, loading it either succeeds or changes
nothing. -/
theorem loadCompiled_atomic {w : CompiledWorld} (hbound : ∀ q ∈ w.procs, r.binds q.2.body = true)
    {e : LoadError} (h : rt.loadCompiled r w = (.error e, rt')) : rt' = rt := by
  obtain hsame | hlate := loadCompiled_error h
  · exact hsame
  · obtain ⟨earlier, name, p, hupTo⟩ := hlate.globals
    obtain ⟨later, hprocs⟩ := hupTo.split
    have hp := hbound (name, p) (by simp [hprocs])
    exact absurd (hp.symm.trans hupTo.unbound) (by simp)

/-- A world with a type and two global procs, the later of which needs a binding. -/
def unboundWorld : CompiledWorld where
  types := [{ path := "/a" }]
  procs := [("a", { body := .script [] 0 }), ("main", { body := .native "nowhere" })]

def unboundText : String :=
  "\x7b\"types\":[\x7b\"path\":\"/a\"\x7d],\"procs\":\x7b\"a\":\x7b\"code\":[]\x7d," ++
    "\"main\":\x7b\"native\":\"nowhere\"\x7d\x7d\x7d"

theorem loadWorld_unboundText :
    loadWorld {} {} unboundText =
      (.error (.missingBinding "nowhere" "/proc/main"), (loadCompiled {} {} unboundWorld).2) := by
  have hread : Format.readWorld unboundText = some unboundWorld := by cbv
  have hfails : (loadCompiled {} {} unboundWorld).1 =
      .error (.missingBinding "nowhere" "/proc/main") := by cbv
  rw [loadWorld, hread]
  exact Prod.ext hfails rfl

theorem loadWorld_not_atomic :
    ¬ ∀ (rt rt' : Runtime) (r : Registry) (text : String) (e : LoadError),
    rt.loadWorld r text = (.error e, rt') → rt'.objects.types = rt.objects.types ∧
    rt'.globals = rt.globals := by
  intro hatomic
  obtain ⟨htypes, _⟩ := hatomic _ _ _ _ _ loadWorld_unboundText
  have hkept : (loadCompiled {} {} unboundWorld).2.objects.types.contains "/a" = true := by
    decide +kernel
  rw [htypes] at hkept
  exact absurd hkept (by decide +kernel)

theorem unboundWorld_fails_late :
    loadWorld {} {} unboundText =
        (.error (.missingBinding "nowhere" "/proc/main"), (loadCompiled {} {} unboundWorld).2) ∧
      ((loadCompiled {} {} unboundWorld).2 = {} ∨ ∃ w, Format.readWorld unboundText = some w ∧
        FailsLate {} {} w (.missingBinding "nowhere" "/proc/main")
          (loadCompiled {} {} unboundWorld).2) :=
  ⟨loadWorld_unboundText, loadWorld_error loadWorld_unboundText⟩

/-! ### Loading runs nothing -/

/-- Nothing has run yet, whatever may have been defined. -/
structure IsUnused (rt : Runtime) : Prop where
  detached : rt.detached = #[]
  chronicle : rt.chronicle = []

namespace IsUnused

theorem builds (hbuilds : Builds rt rt') (h : rt.IsUnused) : rt'.IsUnused :=
  ⟨hbuilds.detached.trans h.detached, hbuilds.chronicle.trans h.chronicle⟩

theorem registers (definitions : List Definition) (h : rt.IsUnused) :
    (definitions.foldl register rt).IsUnused := by
  induction definitions generalizing rt with
  | nil => exact h
  | cons d definitions ih => exact ih ⟨h.detached, h.chronicle⟩

theorem defineGlobals (procs : List (String × CompiledProc)) (h : rt.IsUnused) :
    (rt.defineGlobals r procs).2.IsUnused := by
  induction procs generalizing rt with
  | nil => exact h
  | cons entry procs ih =>
    obtain ⟨name, p⟩ := entry
    rw [Runtime.defineGlobals]
    cases hproc : rt.buildProc r s!"/proc/{name}" p with
    | error e => exact h
    | ok q =>
      have hbuilt := h.builds (buildProc_ok hproc).2.2
      exact ih ⟨hbuilt.detached, hbuilt.chronicle⟩

/-- Loading a world runs nothing, whether it succeeds or fails. -/
theorem loadWorld (r : Registry) (text : String) (h : rt.IsUnused) :
    (rt.loadWorld r text).2.IsUnused := by
  rw [Runtime.loadWorld]
  cases Format.readWorld text with
  | none => exact h
  | some w =>
    simp only [loadCompiled]
    cases hbuild : rt.buildTypes r w.types with
    | error e => exact h
    | ok q => exact ((h.builds (Builds.buildTypes hbuild)).registers q.1).defineGlobals w.procs

end IsUnused

end Runtime

end ProcEngine
