import Mathlib
import ProcEngine.Proofs.World.Closure
/-!
# Loading a world

A load comes to an end, it succeeds for the worlds that are accepted and for no others, and then the
world is installed, in whatever order it lists its types.
-/

namespace ProcEngine

namespace Runtime

variable {rt : Runtime} {r : Registry}

/-- Builds all definitions of a world with the fuel given. -/
def buildTypesWithin (fuel : Nat) (rt : Runtime) (r : Registry) (types : List CompiledType) :
    Except LoadError (List Definition × Runtime) := do
  let (pending, rt) ← rt.prepareTypes r ∅ types
  let a ← Assembly.buildAll fuel { pending, runtime := rt } pending.keys
  return (a.built.toList.map (·.2), a.runtime)

/-- It is never the fuel that ends a load: it lasts for more types than there are. -/
theorem buildTypesWithin_eq {types : List CompiledType} {fuel : Nat} (hfuel : types.length < fuel) :
    rt.buildTypesWithin fuel r types = rt.buildTypes r types := by
  rw [buildTypesWithin, buildTypes]
  cases hprepare : rt.prepareTypes r ∅ types with
  | error e => rfl
  | ok q =>
    obtain ⟨pending, rt₁⟩ := q
    obtain ⟨hdistinct, _, new, _, rfl, rfl⟩ := prepareTypes_ok_iff.mp hprepare
    obtain ⟨more, rfl⟩ : ∃ more, fuel = types.length + 1 + more :=
      ⟨fuel - (types.length + 1), by omega⟩
    have hsize : (laidOut r ∅ rt.procs.size types).size = types.length := size_laidOut hdistinct
    have hlasts : (rt.assembly r types new).pending.size < types.length + 1 := by
      rw [assembly, hsize]
      exact Nat.lt_succ_self _
    have hmore := Assembly.buildAll_fuel hlasts more
    rw [assembly] at hmore
    simp only [bind, Except.bind, hsize, hmore]

/-- A load comes to an end, by itself and not for lack of fuel; it succeeds if and only if the world
is accepted; and then the world is installed, and another order of its types makes no difference but
to the numbers that the new procs are referred to by. For the latter there must be no reference to a
proc that is yet to be added; that there is none is kept by loads (`Closed.loadWorld`) and by
whatever a host does (`Host.Runs.closed`). -/
theorem loadWorld_installs_accepted (rt : Runtime) (r : Registry) (text : String)
    (w : CompiledWorld) (hread : Format.readWorld text = some w) :
    (∀ fuel, w.types.length < fuel → rt.buildTypesWithin fuel r w.types = rt.buildTypes r w.types) ∧
    ((∃ summary, (rt.loadWorld r text).1 = .ok summary) ↔ w.Accepted rt r) ∧
    ∀ summary rt₁, rt.loadWorld r text = (.ok summary, rt₁) →
      summary = { types := w.types.length, procs := w.procs.length } ∧ rt.Installs r w rt₁ ∧
      (rt.Closed → ∀ text' types', Format.readWorld text' = some { w with types := types' } →
        w.types.Perm types' →
        ∃ σ rt₂, rt.loadWorld r text' = (.ok summary, rt₂) ∧ (∀ id ≤ rt.procs.size, σ id = id) ∧
          rt₁.Renamed σ rt₂) := by
  have hload : rt.loadWorld r text = rt.loadCompiled r w := by rw [loadWorld, hread]
  rw [hload]
  refine ⟨fun fuel hfuel => buildTypesWithin_eq hfuel, loadCompiled_isOk_iff,
    fun summary rt₁ h => ?_⟩
  obtain ⟨hsummary, new, later, a, hloaded⟩ := loadCompiled_ok_iff.mp h
  refine ⟨hsummary, hloaded.installs, fun hclosed text' types' hread' hperm => ?_⟩
  have hload' : rt.loadWorld r text' = rt.loadCompiled r { w with types := types' } := by
    rw [loadWorld, hread']
  rw [hload']
  exact loadCompiled_reordered hclosed hperm h

def parentType : CompiledType where
  path := "/a"
  procs := [("cry", { body := .script [] 0 })]

def childType : CompiledType where
  path := "/b"
  parent := some "/a"
  procs := [("cry", { body := .script [.ret] 0 })]

def parentText : String := "\x7b\"path\":\"/a\",\"procs\":\x7b\"cry\":\x7b\"code\":[]\x7d\x7d\x7d"

def childText : String :=
  "\x7b\"path\":\"/b\",\"parent\":\"/a\"," ++
    "\"procs\":\x7b\"cry\":\x7b\"code\":[\x7b\"op\":\"Return\"\x7d]\x7d\x7d\x7d"

/-- The world of two types that is written with one text before the other. -/
def familyText (first second : String) : String :=
  "\x7b\"types\":[" ++ first ++ "," ++ second ++ "]\x7d"

theorem family_is_read :
    Format.readWorld (familyText childText parentText) = some { types := [childType, parentType] } ∧
      Format.readWorld (familyText parentText childText) =
        some { types := [parentType, childType] } := by
  constructor <;> cbv

theorem family_is_loaded :
    (loadCompiled {} {} { types := [childType, parentType] }).1 =
      .ok { types := 2, procs := 0 } := by cbv

/-- A child that overrides a proc is installed with its parent, whichever comes first. -/
theorem family_is_installed : ∃ rt₁ rt₂ σ,
    loadWorld {} {} (familyText childText parentText) = (.ok { types := 2, procs := 0 }, rt₁) ∧
    Installs {} {} { types := [childType, parentType] } rt₁ ∧
    loadWorld {} {} (familyText parentText childText) = (.ok { types := 2, procs := 0 }, rt₂) ∧
    rt₁.Renamed σ rt₂ := by
  obtain ⟨hread, hread'⟩ := family_is_read
  have hload : loadWorld {} {} (familyText childText parentText) = (.ok { types := 2, procs := 0 },
      (loadCompiled {} {} { types := [childType, parentType] }).2) := by
    rw [loadWorld, hread]
    exact Prod.ext family_is_loaded rfl
  obtain ⟨_, _, hall⟩ := loadWorld_installs_accepted {} {} _ _ hread
  obtain ⟨_, hinstalls, horder⟩ := hall _ _ hload
  obtain ⟨σ, rt₂, hload', _, hrenamed⟩ := horder Closed.empty _ _ hread' (List.Perm.swap _ _ _)
  exact ⟨_, rt₂, σ, hload, hinstalls, hload', hrenamed⟩

end Runtime

end ProcEngine
