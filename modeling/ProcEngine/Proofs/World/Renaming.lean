import Mathlib.Logic.Equiv.Defs
import ProcEngine.Proofs.World.Linking
/-!
# Renamed procs

A proc is known by when it was added, so two loads that add the same procs in another order differ
in their references. Whatever a load does once its procs are built, it does for all names alike:
assembling, linking, registering and defining commute with a renaming of the procs.
-/

namespace ProcEngine

variable {σ : Equiv.Perm Nat} {n : Nat}

/-! ### Tables with other entries -/

theorem map_insert {α : Type} (f : α → α) (names : Names α) (x : String) (v : α) :
    (names.map fun _ v => f v).insert x (f v) = (names.insert x v).map fun _ v => f v := by
  ext y : 1
  simp only [Std.ExtTreeMap.getElem?_insert, Std.ExtTreeMap.getElem?_map]
  split <;> rfl

theorem map_erase {α : Type} (f : α → α) (names : Names α) (x : String) :
    (names.map fun _ v => f v).erase x = (names.erase x).map fun _ v => f v := by
  ext y : 1
  simp only [Std.ExtTreeMap.getElem?_erase, Std.ExtTreeMap.getElem?_map]
  split <;> rfl

theorem map_insertMany {α : Type} (f : α → α) (names own : Names α) :
    (names.map fun _ v => f v).insertMany (own.map fun _ v => f v).toList =
      (names.insertMany own.toList).map fun _ v => f v := by
  ext y : 1
  simp only [lookup_insertMany, Std.ExtTreeMap.getElem?_map]
  cases own[y]? <;> rfl

/-! ### What refers to procs -/

def ProcRef.rename (σ : Equiv.Perm Nat) (q : ProcRef) : ProcRef := { q with id := σ q.id }

def Override.rename (σ : Equiv.Perm Nat) (o : Override) : Override where
  proc := o.proc.rename σ
  overridden := o.overridden.rename σ

def Proc.rename (σ : Equiv.Perm Nat) (p : Proc) : Proc :=
  { p with overridden := p.overridden.map (·.rename σ) }

def TypeSpec.rename (σ : Equiv.Perm Nat) (spec : TypeSpec) : TypeSpec :=
  { spec with
    procs := spec.procs.map fun q => (q.1, q.2.rename σ)
    initializer := spec.initializer.map (·.rename σ) }

def PendingType.rename (σ : Equiv.Perm Nat) (p : PendingType) : PendingType :=
  { p with spec := p.spec.rename σ }

namespace Definition

def rename (σ : Equiv.Perm Nat) : Definition → Definition
  | ⟨path, none, vars, procs, initializer, hooks⟩ =>
    ⟨path, none, vars, procs.map fun _ q => q.rename σ, initializer.map (·.rename σ), hooks⟩
  | ⟨path, some parent, vars, procs, initializer, hooks⟩ =>
    ⟨path, some (parent.rename σ), vars, procs.map fun _ q => q.rename σ,
      initializer.map (·.rename σ), hooks⟩

theorem rename_eq (d : Definition) : d.rename σ =
    { d with
      parent := d.parent.map (rename σ)
      procs := d.procs.map fun _ q => q.rename σ
      initializer := d.initializer.map (·.rename σ) } := by
  obtain ⟨path, _ | parent, vars, procs, initializer, hooks⟩ := d <;> rfl

/-- The definition and its ancestors refer only to the first `n` procs. -/
def Within (n : Nat) : Definition → Prop
  | ⟨_, none, _, procs, initializer, _⟩ =>
    (∀ (x : String) (q : ProcRef), procs[x]? = some q → q.id ≤ n) ∧ ∀ q, initializer = some q →
      q.id ≤ n
  | ⟨_, some parent, _, procs, initializer, _⟩ =>
    parent.Within n ∧
      (∀ (x : String) (q : ProcRef), procs[x]? = some q → q.id ≤ n) ∧ ∀ q, initializer = some q →
        q.id ≤ n

end Definition

/-- References to the first `n` procs stay as they are. -/
theorem ProcRef.rename_of_le (hσ : ∀ id ≤ n, σ id = id) {q : ProcRef} (hq : q.id ≤ n) :
    q.rename σ = q := by
  rw [rename, hσ q.id hq]

theorem rename_table (hσ : ∀ id ≤ n, σ id = id) {procs : Names ProcRef}
    (hprocs : ∀ (x : String) (q : ProcRef), procs[x]? = some q → q.id ≤ n) :
    (procs.map fun _ q => q.rename σ) = procs := by
  ext x : 1
  rw [Std.ExtTreeMap.getElem?_map]
  cases hq : procs[x]? with
  | none => rfl
  | some q => rw [Option.map_some, ProcRef.rename_of_le hσ (hprocs x q hq)]

theorem rename_option (hσ : ∀ id ≤ n, σ id = id) {o : Option ProcRef}
    (ho : ∀ q, o = some q → q.id ≤ n) :
    o.map (·.rename σ) = o := by
  cases o with
  | none => rfl
  | some q => rw [Option.map_some, ProcRef.rename_of_le hσ (ho q rfl)]

theorem Proc.rename_of_unlinked {p : Proc} (hp : p.overridden = none) : p.rename σ = p := by
  obtain ⟨signature, body, overridden, mark⟩ := p
  cases hp
  rfl

theorem Definition.rename_of_within (hσ : ∀ id ≤ n, σ id = id) : {d : Definition} → d.Within n →
    d.rename σ = d
  | ⟨_, none, _, procs, initializer, _⟩, ⟨hprocs, hinitializer⟩ => by
    rw [rename, rename_table hσ hprocs, rename_option hσ hinitializer]
  | ⟨_, some parent, _, procs, initializer, _⟩, ⟨hparent, hprocs, hinitializer⟩ => by
    rw [rename, rename_of_within hσ hparent, rename_table hσ hprocs, rename_option hσ hinitializer]

/-! ### Merging -/

theorem addProcs_rename (table : Names ProcRef) (procs : List (String × ProcRef)) :
    addProcs (table.map fun _ q => q.rename σ) (procs.map fun q => (q.1, q.2.rename σ)) =
      ((addProcs table procs).1.map fun _ q => q.rename σ,
        (addProcs table procs).2.map (·.rename σ)) := by
  induction procs generalizing table with
  | nil => rfl
  | cons q procs ih =>
    have hrest := ih (table.insert q.1 q.2)
    rw [← map_insert] at hrest
    simp only [List.map_cons, addProcs, hrest, Std.ExtTreeMap.getElem?_map]
    cases table[q.1]? <;> rfl

theorem TypeSpec.build_rename (spec : TypeSpec) (parent : Option Definition) :
    (spec.rename σ).build (parent.map (·.rename σ)) =
      ((spec.build parent).1.rename σ, (spec.build parent).2.map (·.rename σ)) := by
  have hinherited : ((parent.map (·.rename σ)).map Definition.procs).getD ∅ =
      ((parent.map Definition.procs).getD ∅).map fun _ q => q.rename σ := by
    cases parent with
    | none => simp
    | some d => simp [Definition.rename_eq]
  have hdefaults : ((parent.map (·.rename σ)).map Definition.vars).getD ∅ =
      (parent.map Definition.vars).getD ∅ := by
    cases parent with
    | none => rfl
    | some d => simp [Definition.rename_eq]
  have hhooks : (parent.map (·.rename σ)).bind Definition.hooks = parent.bind Definition.hooks := by
    cases parent with
    | none => rfl
    | some d => simp [Definition.rename_eq]
  rw [Definition.rename_eq (spec.build parent).1]
  simp only [build, rename, hinherited, hdefaults, hhooks, addProcs_rename]

/-! ### Runtimes -/

namespace Runtime

variable {rt rt' : Runtime}

/-- The second runtime is the first one with all procs renamed. -/
structure Renamed (σ : Equiv.Perm Nat) (rt rt' : Runtime) : Prop where
  types : rt'.objects.types = rt.objects.types.map fun _ d => d.rename σ
  globals : rt'.globals = rt.globals.map fun _ q => q.rename σ
  procs : ∀ id, rt'.proc? (σ id) = (rt.proc? id).map (·.rename σ)
  size : rt'.procs.size = rt.procs.size
  rest : rt'.bare = rt.bare

/-- Whatever refers to a proc refers to one that was added, or to the one that is always there. -/
structure Closed (rt : Runtime) : Prop where
  types : ∀ (path : String) (d : Definition), rt.objects.types[path]? = some d →
    d.Within rt.procs.size
  globals : ∀ (x : String) (q : ProcRef), rt.globals[x]? = some q → q.id ≤ rt.procs.size
  procs : ∀ id p q, rt.proc? id = some p → p.overridden = some q → q.id ≤ rt.procs.size

theorem Closed.empty : Closed {} where
  types path d h := by simp [objects] at h
  globals x q h := by simp at h
  procs id p q h := by cases id <;> simp [proc?] at h

/-- A renaming of procs that are still to be added changes nothing. -/
theorem Closed.renamed (h : rt.Closed) (hσ : ∀ id ≤ rt.procs.size, σ id = id) :
    rt.Renamed σ rt where
  types := by
    ext path : 1
    rw [Std.ExtTreeMap.getElem?_map]
    cases hd : rt.objects.types[path]? with
    | none => rfl
    | some d => rw [Option.map_some, Definition.rename_of_within hσ (h.types path d hd)]
  globals := (rename_table hσ h.globals).symm
  procs id := by
    by_cases hid : id ≤ rt.procs.size
    · rw [hσ id hid]
      cases hp : rt.proc? id with
      | none => rfl
      | some p =>
        rw [Option.map_some, Proc.rename, rename_option hσ fun q hq => h.procs id p q hp hq]
    · have hid' : rt.procs.size < σ id := by
        by_contra hle
        have hfixed := σ.injective (hσ (σ id) (Nat.not_lt.mp hle))
        omega
      rw [proc?_of_lt hid', proc?_of_lt (Nat.not_le.mp hid)]
      rfl
  size := rfl
  rest := rfl

namespace Renamed

/-- More procs can be added to both if the renaming tells them apart from those that are there. -/
theorem grow (h : rt.Renamed σ rt') {new new' : List Proc} (hlength : new'.length = new.length)
    (hold : ∀ id ≤ rt.procs.size, σ id ≤ rt.procs.size)
    (hnew : ∀ id, rt.procs.size < id → (rt'.grow new').proc? (σ id) =
      ((rt.grow new).proc? id).map (·.rename σ)) :
    (rt.grow new).Renamed σ (rt'.grow new') where
  types := h.types
  globals := h.globals
  procs id := by
    by_cases hid : id ≤ rt.procs.size
    · rw [proc?_grow_old new hid, proc?_grow_old new' (by rw [h.size]; exact hold id hid), h.procs]
    · exact hnew id (Nat.not_le.mp hid)
  size := by rw [size_grow, size_grow, h.size, hlength]
  rest := h.rest

theorem link (h : rt.Renamed σ rt') (o : Override) :
    (rt.link o).Renamed σ (rt'.link (o.rename σ)) := by
  obtain ⟨procs, hlink⟩ := link_eq rt o
  obtain ⟨procs', hlink'⟩ := link_eq rt' (o.rename σ)
  exact {
    types := by
      rw [hlink, hlink']
      exact h.types
    globals := by
      rw [hlink, hlink']
      exact h.globals
    procs := fun id => by
      rw [proc?_link, proc?_link, h.procs]
      cases hp : rt.proc? id with
      | none => rfl
      | some p =>
        by_cases hid : id = o.proc.id
        · subst hid
          cases hover : p.overridden <;> simp [Override.rename, ProcRef.rename, Proc.rename, hover]
        · have hid' : σ id ≠ (o.rename σ).proc.id := fun heq => hid (σ.injective heq)
          simp only [Option.map_some, if_neg hid, if_neg hid']
    size := by rw [size_link, size_link, h.size]
    rest := by
      rw [hlink, hlink']
      exact h.rest }

theorem links (h : rt.Renamed σ rt') (overrides : List Override) :
    (overrides.foldl Runtime.link rt).Renamed σ
      ((overrides.map (·.rename σ)).foldl Runtime.link rt') := by
  induction overrides generalizing rt rt' with
  | nil => exact h
  | cons o overrides ih => exact ih (h.link o)

theorem buildType (h : rt.Renamed σ rt') (spec : TypeSpec) (parent : Option Definition) :
    (rt'.buildType (spec.rename σ) (parent.map (·.rename σ))).1 =
      (rt.buildType spec parent).1.rename σ ∧
      (rt.buildType spec parent).2.Renamed σ (rt'.buildType (spec.rename σ)
        (parent.map (·.rename σ))).2 := by
  constructor
  · simp only [Runtime.buildType, TypeSpec.build_rename]
  · simp only [Runtime.buildType, TypeSpec.build_rename]
    exact h.links _

end Renamed

end Runtime

/-! ### Assembling -/

namespace Assembly

variable {a a' a₁ : Assembly} {fuel : Nat} {visiting : List String} {path : String} {d : Definition}

/-- The second assembly is the first one with all procs renamed. -/
structure Renamed (σ : Equiv.Perm Nat) (a a' : Assembly) : Prop where
  pending : a'.pending = a.pending.map fun _ p => p.rename σ
  built : a'.built = a.built.map fun _ d => d.rename σ
  runtime : a.runtime.Renamed σ a'.runtime

theorem Renamed.take (h : a.Renamed σ a') (path : String) :
    (a.take path).Renamed σ (a'.take path) where
  pending := by
    show a'.pending.erase path = (a.pending.erase path).map fun _ p => p.rename σ
    rw [h.pending, map_erase]
  built := h.built
  runtime := h.runtime

theorem Renamed.put (h : a.Renamed σ a') (path : String) (p : PendingType)
    (parent : Option Definition) :
    (a.put path p parent).Renamed σ (a'.put path (p.rename σ) (parent.map (·.rename σ))) := by
  obtain ⟨hd, hruntime⟩ := h.runtime.buildType p.spec parent
  exact {
    pending := h.pending
    built := by
      show a'.built.insert path _ = (a.built.insert path _).map fun _ d => d.rename σ
      rw [h.built, ← map_insert, ← hd]
      rfl
    runtime := hruntime }

/-- Under other names, the same definition is built. -/
theorem Renamed.build (h : a.Renamed σ a') (hbuild : a.build fuel visiting path = .ok (d, a₁)) :
    ∃ a₁', a'.build fuel visiting path = .ok (d.rename σ, a₁') ∧ a₁.Renamed σ a₁' := by
  -- Renaming keeps the paths, so that both find the same types built, waiting and registered.
  induction fuel generalizing visiting path a a' d a₁ with
  | zero => cases hbuild
  | succ fuel ih =>
    obtain ⟨hbuilt, rfl⟩
      | ⟨hbuilt, hfirst, ⟨hnone, hhost, rfl⟩ | ⟨p, parent, a₂, hp, rfl, rfl, hup⟩⟩ :=
      build_ok_iff.mp hbuild
    · exact ⟨a', build_ok_iff.mpr (Or.inl ⟨by simp [h.built, hbuilt], rfl⟩), h⟩
    · exact ⟨a', build_ok_iff.mpr (Or.inr ⟨by simp [h.built, hbuilt], hfirst, Or.inl
        ⟨by simp [h.pending, hnone], by simp [h.runtime.types, hhost], rfl⟩⟩), h⟩
    · have hp' : a'.pending[path]? = some (p.rename σ) := by simp [h.pending, hp]
      have hup' : ∃ a₂', a₂.Renamed σ a₂' ∧
          ((p.rename σ).parent = none ∧ parent.map (·.rename σ) = none ∧ a₂' = a'.take path ∨
            ∃ q d₁, (p.rename σ).parent = some q ∧ parent.map (·.rename σ) = some d₁ ∧
              (a'.take path).build fuel (path :: visiting) q = .ok (d₁, a₂')) := by
        obtain ⟨hnone, rfl, rfl⟩ | ⟨q, d₁, hsome, rfl, hrec⟩ := hup
        · exact ⟨_, h.take path, Or.inl ⟨hnone, rfl, rfl⟩⟩
        · obtain ⟨a₂', hrec', hrenamed⟩ := ih (h.take path) hrec
          exact ⟨a₂', hrenamed, Or.inr ⟨q, _, hsome, rfl, hrec'⟩⟩
      obtain ⟨a₂', hrenamed, hup'⟩ := hup'
      refine ⟨_, build_ok_iff.mpr (Or.inr ⟨by simp [h.built, hbuilt], hfirst, Or.inr
        ⟨p.rename σ, parent.map (·.rename σ), a₂', hp', ?_, rfl, hup'⟩⟩),
          hrenamed.put path p parent⟩
      exact (hrenamed.runtime.buildType p.spec parent).1.symm

theorem Renamed.buildAll {paths : List String} (h : a.Renamed σ a')
    (hbuild : a.buildAll fuel paths = .ok a₁) :
    ∃ a₁', a'.buildAll fuel paths = .ok a₁' ∧ a₁.Renamed σ a₁' := by
  induction paths generalizing a a' with
  | nil =>
    cases hbuild
    exact ⟨a', rfl, h⟩
  | cons path paths ih =>
    obtain ⟨⟨d, a₂⟩, hfirst, hrest⟩ := Except.of_bind_eq_ok hbuild
    obtain ⟨a₂', hfirst', hrenamed⟩ := h.build hfirst
    obtain ⟨a₁', hrest', hrenamed'⟩ := ih hrenamed hrest
    exact ⟨a₁', by rw [Assembly.buildAll, hfirst']; exact hrest', hrenamed'⟩

end Assembly

end ProcEngine
