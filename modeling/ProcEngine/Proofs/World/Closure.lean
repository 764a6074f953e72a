import ProcEngine.Proofs.Object.Faithful
import ProcEngine.Proofs.Scheduler.Tending
import ProcEngine.Proofs.World.Order
/-!
# No loose references

What types, global names and overrides refer to has been added. Running anything changes none of
them, and a load that finds it so leaves it so, whether it succeeds or fails.
-/

namespace ProcEngine

variable {n : Nat}

theorem ObjectTable.Evolves.types {t t' : ObjectTable} (h : t.Evolves t') : t'.types = t.types := by
  induction h with
  | refl => rfl
  | @tail t₁ t₂ _ hchange ih =>
    refine Eq.trans ?_ ih
    cases hchange with
    | assign => rfl
    | retire => exact t₁.retire_types _
    | @allocate path q hallocate =>
      rw [ObjectTable.allocate] at hallocate
      cases htype : t₁.type path with
      | error e =>
        rw [htype] at hallocate
        cases hallocate
      | ok d =>
        rw [htype] at hallocate
        cases hallocate
        exact t₁.allocateOf_types d
    | @referenceId o q hid =>
      obtain ⟨object, _, hid⟩ := Except.of_bind_eq_ok hid
      cases hgiven : t₁.idOf[o]? <;> rw [hgiven] at hid <;> cases hid <;> rfl

namespace Runtime

variable {rt rt' : Runtime} {r : Registry}

/-! ### Running -/

/-- Nothing that is loaded or defined has changed. -/
structure SameCode (rt rt' : Runtime) : Prop where
  types : rt'.objects.types = rt.objects.types
  globals : rt'.globals = rt.globals
  procs : rt'.procs = rt.procs

namespace SameCode

theorem refl (rt : Runtime) : SameCode rt rt := ⟨rfl, rfl, rfl⟩

theorem trans {rt'' : Runtime} (h : SameCode rt rt') (h' : SameCode rt' rt'') :
    SameCode rt rt'' where
  types := h'.types.trans h.types
  globals := h'.globals.trans h.globals
  procs := h'.procs.trans h.procs

instance : Std.Refl SameCode := ⟨refl⟩

instance : Trans SameCode SameCode SameCode := ⟨trans⟩

/-- Whatever is run works on objects and contexts only. -/
theorem upkept : Upkept SameCode where
  carried := {
    store := fun _ _ hworked => ⟨hworked.evolves.types, rfl, rfl⟩
    activate := fun rt p id i => by
      simp only [activate]
      split <;> exact ⟨rfl, rfl, rfl⟩ }
  recorded rt _ _ := ⟨rfl, rfl, rfl⟩
  created rt := ⟨rfl, rfl, rfl⟩
  refused rt p i _ h := h.trans ⟨rfl, rfl, rfl⟩
  faulted _ _ _ _ h := h.trans ⟨rfl, rfl, rfl⟩
  detached rt c _ := ⟨rfl, rfl, rfl⟩
  vacated rt := ⟨rfl, rfl, rfl⟩

end SameCode

theorem Closed.sameCode (h : rt.Closed) (hsame : SameCode rt rt') : rt'.Closed where
  types path d hd := by
    rw [hsame.types] at hd
    rw [hsame.procs]
    exact h.types path d hd
  globals x q hq := by
    rw [hsame.globals] at hq
    rw [hsame.procs]
    exact h.globals x q hq
  procs id p q hp hq := by
    have hsameProc : rt'.proc? id = rt.proc? id := by
      cases id with
      | zero => rfl
      | succ i => exact congrArg (·[i]?) hsame.procs
    rw [hsameProc] at hp
    rw [hsame.procs]
    exact h.procs id p q hp hq

end Runtime

/-- Whatever a host does, no reference gets loose. -/
theorem Host.Runs.closed {h h' : Host} {episodes : List Episode} (hfresh : h.IsFresh)
    (hclosed : h.runtime.Closed) (hruns : h.Runs episodes h') : h'.runtime.Closed :=
  hclosed.sameCode ((hfresh.tending Runtime.SameCode).runs Runtime.SameCode.upkept hruns).since

/-! ### What refers to the first procs -/

namespace Definition

theorem within_iff {d : Definition} : d.Within n ↔ (∀ d', d.parent = some d' → d'.Within n) ∧
    (∀ (x : String) (q : ProcRef), d.procs[x]? = some q → q.id ≤ n) ∧ ∀ q, d.initializer = some q →
      q.id ≤ n := by
  obtain ⟨path, _ | parent, vars, procs, initializer, hooks⟩ := d <;> simp [Within]

theorem Within.mono {m : Nat} (hle : n ≤ m) : {d : Definition} → d.Within n → d.Within m
  | ⟨_, none, _, _, _, _⟩, ⟨hprocs, hinitializer⟩ =>
    ⟨fun x q hq => (hprocs x q hq).trans hle, fun q hq => (hinitializer q hq).trans hle⟩
  | ⟨_, some _, _, _, _, _⟩, ⟨hparent, hprocs, hinitializer⟩ =>
    ⟨hparent.mono hle, fun x q hq => (hprocs x q hq).trans hle,
      fun q hq => (hinitializer q hq).trans hle⟩

end Definition

/-- The declaration refers only to the first `n` procs. -/
structure TypeSpec.Within (n : Nat) (spec : TypeSpec) : Prop where
  procs : ∀ q ∈ spec.procs, q.2.id ≤ n
  initializer : ∀ q, spec.initializer = some q → q.id ≤ n

theorem addProcs_within {table : Names ProcRef} {procs : List (String × ProcRef)}
    (htable : ∀ (x : String) (q : ProcRef), table[x]? = some q → q.id ≤ n)
    (hprocs : ∀ q ∈ procs, q.2.id ≤ n) :
    (∀ (x : String) (q : ProcRef), (addProcs table procs).1[x]? = some q → q.id ≤ n) ∧
      ∀ o ∈ (addProcs table procs).2, o.overridden.id ≤ n := by
  induction procs generalizing table with
  | nil => exact ⟨htable, by simp [addProcs]⟩
  | cons q procs ih =>
    rw [List.forall_mem_cons] at hprocs
    have hinserted : ∀ (x : String) (q' : ProcRef), (table.insert q.1 q.2)[x]? = some q' →
        q'.id ≤ n := by
      intro x q' hq'
      rw [Std.ExtTreeMap.getElem?_insert] at hq'
      split at hq'
      · cases hq'
        exact hprocs.1
      · exact htable x q' hq'
    obtain ⟨hfinal, hoverrides⟩ := ih hinserted hprocs.2
    refine ⟨by rwa [addProcs_cons], fun o ho => ?_⟩
    simp only [addProcs] at ho
    split at ho
    · rename_i overridden hthere
      obtain rfl | ho := List.mem_cons.mp ho
      · exact htable q.1 overridden hthere
      · exact hoverrides o ho
    · exact hoverrides o ho

theorem TypeSpec.Within.build {spec : TypeSpec} (h : spec.Within n) {parent : Option Definition}
    (hparent : ∀ d, parent = some d → d.Within n) :
    (spec.build parent).1.Within n ∧ ∀ o ∈ (spec.build parent).2, o.overridden.id ≤ n := by
  have hinherited : ∀ (x : String) (q : ProcRef), ((parent.map Definition.procs).getD ∅)[x]? =
      some q → q.id ≤ n := by
    intro x q hq
    rw [lookup_inherited] at hq
    obtain ⟨d, hd, hq⟩ := Option.bind_eq_some_iff.mp hq
    exact (Definition.within_iff.mp (hparent d hd)).2.1 x q hq
  obtain ⟨hfinal, hoverrides⟩ := addProcs_within hinherited h.procs
  exact ⟨Definition.within_iff.mpr ⟨hparent, hfinal, h.initializer⟩, hoverrides⟩

/-! ### Loading -/

namespace Runtime.Closed

variable {rt : Runtime} {r : Registry}

theorem grow (h : rt.Closed) {new : List Proc} (hnew : ∀ p ∈ new, p.overridden = none) :
    (rt.grow new).Closed where
  types path d hd := (h.types path d hd).mono (by simp)
  globals x q hq := (h.globals x q hq).trans (by simp)
  procs id p q hp hq := by
    by_cases hid : id ≤ rt.procs.size
    · rw [proc?_grow_old new hid] at hp
      exact (h.procs id p q hp hq).trans (by simp)
    · obtain ⟨k, rfl⟩ : ∃ k, id = rt.procs.size + k + 1 := ⟨id - rt.procs.size - 1, by omega⟩
      rw [proc?_grow_new] at hp
      rw [hnew p (List.mem_of_getElem? hp)] at hq
      cases hq

theorem link (h : rt.Closed) {o : Override} (ho : o.overridden.id ≤ rt.procs.size) :
    (rt.link o).Closed := by
  obtain ⟨procs, hlink⟩ := link_eq rt o
  exact {
    types := fun path d hd => by
      rw [size_link]
      rw [hlink] at hd
      exact h.types path d hd
    globals := fun x q hq => by
      rw [size_link]
      rw [hlink] at hq
      exact h.globals x q hq
    procs := fun id p q hp hq => by
      rw [size_link]
      rw [proc?_link] at hp
      obtain ⟨p', hp', rfl⟩ := Option.map_eq_some_iff.mp hp
      split at hq
      · cases hover : p'.overridden with
        | some q' =>
          rw [hover] at hq
          cases hq
          exact h.procs id p' _ hp' hover
        | none =>
          rw [hover] at hq
          cases hq
          exact ho
      · exact h.procs id p' q hp' hq }

theorem links (h : rt.Closed) {overrides : List Override}
    (ho : ∀ o ∈ overrides, o.overridden.id ≤ rt.procs.size) :
    (overrides.foldl Runtime.link rt).Closed ∧ (overrides.foldl Runtime.link rt).procs.size =
      rt.procs.size := by
  induction overrides generalizing rt with
  | nil => exact ⟨h, rfl⟩
  | cons o overrides ih =>
    rw [List.forall_mem_cons] at ho
    obtain ⟨hclosed, hsize⟩ := ih (h.link ho.1) (by simpa using ho.2)
    exact ⟨hclosed, hsize.trans (size_link rt o)⟩

theorem register (h : rt.Closed) {d : Definition} (hd : d.Within rt.procs.size) :
    (rt.register d).Closed where
  types path d' hd' := by
    have hd' : (rt.objects.types.insert d.path d)[path]? = some d' := hd'
    rw [Std.ExtTreeMap.getElem?_insert] at hd'
    split at hd'
    · cases hd'
      exact hd
    · exact h.types path d' hd'
  globals := h.globals
  procs := h.procs

theorem registers (h : rt.Closed) {definitions : List Definition}
    (hd : ∀ d ∈ definitions, d.Within rt.procs.size) :
    (definitions.foldl Runtime.register rt).Closed := by
  induction definitions generalizing rt with
  | nil => exact h
  | cons d definitions ih =>
    rw [List.forall_mem_cons] at hd
    exact ih (h.register hd.1) hd.2

theorem defineGlobal (h : rt.Closed) {name : String} {q : ProcRef} (hq : q.id ≤ rt.procs.size) :
    (rt.defineGlobal name q).Closed where
  types := h.types
  globals x q' hq' := by
    have hq' : (rt.globals.insert name q)[x]? = some q' := hq'
    rw [Std.ExtTreeMap.getElem?_insert] at hq'
    split at hq'
    · cases hq'
      exact hq
    · exact h.globals x q' hq'
  procs := h.procs

theorem defineGlobals (h : rt.Closed) (procs : List (String × CompiledProc)) :
    (rt.defineGlobals r procs).2.Closed := by
  induction procs generalizing rt with
  | nil => exact h
  | cons q procs ih =>
    rw [Runtime.defineGlobals, buildProc_eq]
    cases hq : r.proc s!"/proc/{q.1}" q.2 with
    | error e => exact h
    | ok p =>
      obtain ⟨body, _, rfl⟩ := Registry.proc_ok hq
      exact ih ((h.grow (by simp)).defineGlobal (by simp))

end Runtime.Closed

namespace Assembly

variable {a a' : Assembly} {fuel : Nat} {visiting : List String} {path : String} {d : Definition}

/-- Neither what is built nor what is still to be built refers to more than the `n` procs that there
are. -/
structure Closed (n : Nat) (a : Assembly) : Prop where
  runtime : a.runtime.Closed
  size : a.runtime.procs.size = n
  pending : ∀ (path : String) (p : PendingType), a.pending[path]? = some p → p.spec.Within n
  built : ∀ (path : String) (d : Definition), a.built[path]? = some d → d.Within n

theorem Closed.take (h : a.Closed n) (path : String) : (a.take path).Closed n where
  runtime := h.runtime
  size := h.size
  pending x p hp := by
    rw [Assembly.take, Std.ExtTreeMap.getElem?_erase] at hp
    split at hp
    · cases hp
    · exact h.pending x p hp
  built := h.built

theorem Closed.put (h : a.Closed n) {p : PendingType} (hp : p.spec.Within n)
    {parent : Option Definition} (hparent : ∀ d, parent = some d → d.Within n) (path : String) :
    (a.put path p parent).Closed n ∧ (a.runtime.buildType p.spec parent).1.Within n := by
  obtain ⟨hd, hoverrides⟩ := hp.build hparent
  obtain ⟨hclosed, hsize⟩ := h.runtime.links fun o ho => by
    rw [h.size]
    exact hoverrides o ho
  refine ⟨⟨hclosed, hsize.trans h.size, h.pending, fun x d hx => ?_⟩, hd⟩
  rw [lookup_put] at hx
  split at hx
  · cases hx
    exact hd
  · exact h.built x d hx

theorem Closed.build (h : a.Closed n) (hbuild : a.build fuel visiting path = .ok (d, a')) :
    a'.Closed n ∧ d.Within n := by
  induction fuel generalizing visiting path a d a' with
  | zero => cases hbuild
  | succ fuel ih =>
    obtain ⟨hbuilt, rfl⟩ | ⟨_, _, ⟨_, hhost, rfl⟩ | ⟨p, parent, a₁, hp, rfl, rfl, hup⟩⟩ :=
      build_ok_iff.mp hbuild
    · exact ⟨h, h.built path d hbuilt⟩
    · have hd := h.runtime.types path d hhost
      rw [h.size] at hd
      exact ⟨h, hd⟩
    · obtain ⟨_, rfl, rfl⟩ | ⟨q, d₁, _, rfl, hrec⟩ := hup
      · exact (h.take path).put (h.pending path p hp) (by simp) path
      · obtain ⟨hclosed, hd⟩ := ih (h.take path) hrec
        refine hclosed.put (h.pending path p hp) (fun d' hd' => ?_) path
        cases hd'
        exact hd

theorem Closed.buildAll {paths : List String} (h : a.Closed n)
    (hbuild : a.buildAll fuel paths = .ok a') :
    a'.Closed n := by
  induction paths generalizing a with
  | nil =>
    cases hbuild
    exact h
  | cons path paths ih =>
    obtain ⟨⟨d, a₁⟩, hfirst, hrest⟩ := Except.of_bind_eq_ok hbuild
    exact ih (h.build hfirst).1 hrest

end Assembly

namespace Runtime

open CompiledType

variable {rt : Runtime} {r : Registry}

theorem closed_assembly (h : rt.Closed) {types : List CompiledType} {new : List Proc}
    (hdistinct : (types.map CompiledType.path).Nodup)
    (hnew : r.procs (types.flatMap members) = .ok new) :
    (rt.assembly r types new).Closed (rt.procs.size + (types.flatMap members).length) where
  runtime := h.grow fun p hp => Registry.unlinked_of_procs hnew hp
  size := by rw [assembly, size_grow, Registry.length_procs hnew]
  pending path p hp := by
    obtain ⟨before, ty, after, rfl, _, rfl⟩ := (laidOut_iff hdistinct).mp hp
    have hroom : (before.flatMap members).length + ty.members.length ≤
        ((before ++ ty :: after).flatMap members).length := by
      rw [List.flatMap_append, List.flatMap_cons, List.length_append, List.length_append]
      omega
    constructor
    · rintro ⟨x, q⟩ hq
      obtain ⟨k, p, hk, rfl⟩ := of_mem_numbered hq
      obtain ⟨hlt, _⟩ := List.getElem?_eq_some_iff.mp (members_own hk)
      show rt.procs.size + (before.flatMap members).length + k + 1 ≤ _
      omega
    · intro q hq
      obtain ⟨p, hp, rfl⟩ := Option.map_eq_some_iff.mp hq
      obtain ⟨hlt, _⟩ := List.getElem?_eq_some_iff.mp (members_initializer hp)
      show rt.procs.size + (before.flatMap members).length + ty.procs.length + 1 ≤ _
      omega
  built path d hd := by simp [assembly] at hd

/-- A load leaves no reference loose, however it ends. -/
theorem Closed.loadWorld (h : rt.Closed) (r : Registry) (text : String) :
    (rt.loadWorld r text).2.Closed := by
  rw [Runtime.loadWorld]
  cases Format.readWorld text with
  | none => exact h
  | some w =>
    simp only [loadCompiled]
    cases hbuild : rt.buildTypes r w.types with
    | error e => exact h
    | ok q =>
      obtain ⟨new, a, hassembled, rfl⟩ := buildTypes_ok_iff_assembled.mp hbuild
      have hclosed :=
        (closed_assembly h hassembled.distinct hassembled.procs).buildAll hassembled.all
      refine (hclosed.runtime.registers fun d hd => ?_).defineGlobals w.procs
      obtain ⟨⟨path, d⟩, hmem, rfl⟩ := List.mem_map.mp hd
      rw [hclosed.size]
      exact hclosed.built path d (Std.ExtTreeMap.mem_toList_iff_getElem?_eq_some.mp hmem)

end Runtime

end ProcEngine
