import ProcEngine.Proofs.World.Acceptance
/-!
# What a load installs

Once a world is loaded, the runtime is told by the world: its types, each merged with its parent,
its global procs, and nothing else. The procs in them are new ones, made of the compiled ones.
-/

namespace ProcEngine

theorem lookup_inherited {α : Type} (table : Definition → Names α) (parent : Option Definition)
    (x : String) :
    ((parent.map table).getD ∅)[x]? = parent.bind fun d => (table d)[x]? := by
  cases parent with
  | none => simp
  | some d => rfl

theorem getElem?_flatMap {α β : Type} (f : α → List β) {l before after : List α} {x : α}
    {k : Nat} {y : β} (hsplit : l = before ++ x :: after) (hk : (f x)[k]? = some y) :
    (l.flatMap f)[(before.flatMap f).length + k]? = some y := by
  obtain ⟨hlt, _⟩ := List.getElem?_eq_some_iff.mp hk
  rw [hsplit, List.flatMap_append, List.getElem?_append_right (Nat.le_add_right _ _),
    Nat.add_sub_cancel_left, List.flatMap_cons, List.getElem?_append_left hlt, hk]

namespace Runtime

open CompiledType

variable {rt rt' : Runtime} {r : Registry} {w : CompiledWorld} {n : Nat}

/-! ### What is there afterwards -/

/-- The reference is to a proc that was added after the first `n`, and was made of the compiled
one. -/
structure Realizes (rt : Runtime) (r : Registry) (n : Nat) (q : ProcRef) (name : String)
    (p : CompiledProc) : Prop where
  called : q.name = name
  isNew : n < q.id
  added : q.id ≤ rt.procs.size
  made : ∃ body overridden, r.body name p.body = .ok body ∧
    rt.proc q = { signature := p.signature name, body, overridden }

theorem Realizes.keep {q : ProcRef} {name : String} {p : CompiledProc}
    (h : rt.Realizes r n q name p) (hsize : rt.procs.size ≤ rt'.procs.size)
    (hold : ∀ id ≤ rt.procs.size, rt'.proc? id = rt.proc? id) :
    rt'.Realizes r n q name p where
  called := h.called
  isNew := h.isNew
  added := Nat.le_trans h.added hsize
  made := by
    rw [proc_congr (hold q.id h.added)]
    exact h.made

theorem Realizes.weaken {m : Nat} {q : ProcRef} {name : String} {p : CompiledProc}
    (h : rt.Realizes r m q name p) (hle : n ≤ m) : rt.Realizes r n q name p where
  called := h.called
  isNew := Nat.lt_of_le_of_lt hle h.isNew
  added := h.added
  made := h.made

/-- What is built of a list is added at its place, and is there however it is linked. -/
theorem realizes_of_procs {listed : List (String × CompiledProc)} {new : List Proc} {k : Nat}
    {name : String}
    {p : CompiledProc} (h : r.procs listed = .ok new) (hk : listed[k]? = some (name, p))
    (hlinked : ∀ id p, (rt.grow new).proc? id = some p →
      ∃ o, rt'.proc? id = some { p with overridden := o }) :
    rt'.Realizes r rt.procs.size ⟨rt.procs.size + k + 1, name⟩ name p := by
  obtain ⟨proc, hproc, hmade⟩ := Registry.procs_getElem? h hk
  obtain ⟨body, hbody, rfl⟩ := Registry.proc_ok hmade
  rw [← proc?_grow_new rt] at hproc
  obtain ⟨overridden, hthere⟩ := hlinked _ _ hproc
  refine ⟨rfl, ?_, ?_, body, overridden, hbody, proc_of_proc? hthere⟩
  · show rt.procs.size < rt.procs.size + k + 1
    omega
  · exact (proc?_isSome_iff.mp ⟨_, hthere⟩).2

/-- The definition is that of the type: merged with its parent, the one built in the same load if
the world has it and else the one that was there. -/
structure Defines (rt : Runtime) (r : Registry) (w : CompiledWorld) (rt' : Runtime)
    (ty : CompiledType) (d : Definition) : Prop where
  path : d.path = ty.path
  orphan : ty.parent = none → d.parent = none
  parent : ∀ path, ty.parent = some path →
    ∃ d', d.parent = some d' ∧ (if path ∈ w.paths then rt' else rt).objects.types[path]? = some d'
  vars : ∀ x : String, d.vars[x]? = (ty.defaults[x]? <|> d.parent.bind fun d' => d'.vars[x]?)
  inherited : ∀ x ∉ ty.procs.map Prod.fst, d.procs[x]? = d.parent.bind fun d' => d'.procs[x]?
  own : ∀ x ∈ ty.procs.map Prod.fst, ∃ p q, (x, p) ∈ ty.procs ∧ d.procs[x]? = some q ∧
    rt'.Realizes r rt.procs.size q s!"{ty.path}/proc/{x}" p
  noInitializer : ty.initializer = none → d.initializer = none
  initializer : ∀ p, ty.initializer = some p → ∃ q, d.initializer = some q ∧
    rt'.Realizes r rt.procs.size q s!"{ty.path}/(init)" p
  hooks : d.hooks = (r.hooks[ty.path]? <|> d.parent.bind Definition.hooks)

/-- The world has been installed, and nothing else has changed. -/
structure Installs (rt : Runtime) (r : Registry) (w : CompiledWorld) (rt' : Runtime) : Prop where
  otherTypes : ∀ path ∉ w.paths, rt'.objects.types[path]? = rt.objects.types[path]?
  types : ∀ ty ∈ w.types, ∃ d, rt'.objects.types[ty.path]? = some d ∧ rt.Defines r w rt' ty d
  otherGlobals : ∀ x ∉ w.procs.map Prod.fst, rt'.globals[x]? = rt.globals[x]?
  globals : ∀ x ∈ w.procs.map Prod.fst, ∃ p q, (x, p) ∈ w.procs ∧ rt'.globals[x]? = some q ∧
    rt'.Realizes r rt.procs.size q s!"/proc/{x}" p
  otherProcs : ∀ q : ProcRef, q.id ≤ rt.procs.size → rt'.proc q = rt.proc q
  procs : rt'.procs.size = rt.procs.size + (w.types.flatMap members).length + w.procs.length
  rest : rt'.bare = rt.bare

namespace Loaded

variable {new later : List Proc} {a : Assembly}

theorem size_runtime (h : rt.Loaded r w new later a rt') :
    a.runtime.procs.size = rt.procs.size + (w.types.flatMap members).length := by
  rw [h.types.relinks.size, size_grow, Registry.length_procs h.types.procs]

theorem size (h : rt.Loaded r w new later a rt') :
    rt'.procs.size = rt.procs.size + (w.types.flatMap members).length + w.procs.length := by
  have hlater : later.length = w.procs.length := by
    rw [Registry.length_procs h.globals, named, List.length_map]
  rw [h.result, ← hlater, ← h.size_runtime]
  exact size_grow a.runtime later

theorem globals_runtime (h : rt.Loaded r w new later a rt') : a.runtime.globals = rt.globals := by
  obtain ⟨procs, hrest⟩ := h.types.relinks.rest
  rw [hrest]
  rfl

/-- Registering types and defining global procs leaves the procs of the types as they are. -/
theorem keeps (h : rt.Loaded r w new later a rt') {id : Nat} (hid : id ≤ a.runtime.procs.size) :
    rt'.proc? id = a.runtime.proc? id := by
  rw [h.result]
  show (a.runtime.grow later).proc? id = a.runtime.proc? id
  exact proc?_grow_old later hid

theorem lookup_types (h : rt.Loaded r w new later a rt') (path : String) :
    rt'.objects.types[path]? = (a.built[path]? <|> rt.objects.types[path]?) := by
  rw [h.result]
  exact lookup_insertMany _ _ _

theorem realizes_member (h : rt.Loaded r w new later a rt') {before after : List CompiledType}
    {ty : CompiledType}
    {k : Nat} {name : String} {p : CompiledProc} (hsplit : w.types = before ++ ty :: after)
    (hk : ty.members[k]? = some (name, p)) :
    rt'.Realizes r rt.procs.size ⟨rt.procs.size + (before.flatMap members).length + k + 1,
      name⟩ name p := by
  have hmade := realizes_of_procs h.types.procs (getElem?_flatMap members hsplit hk) fun id p hp =>
    (h.types.relinks.procs id p hp).imp fun _ => And.left
  rw [← Nat.add_assoc] at hmade
  refine hmade.keep ?_ fun id hid => h.keeps hid
  rw [h.size, h.size_runtime]
  exact Nat.le_add_right _ _

/-- A type that is built is defined as the world has it. -/
theorem defines (h : rt.Loaded r w new later a rt') {before after : List CompiledType}
    {ty : CompiledType} {d : Definition} (hsplit : w.types = before ++ ty :: after)
    (hbuilt : a.IsBuilt (laidOut r ∅ rt.procs.size w.types) rt.objects.types
      (ty.prepared r (rt.procs.size + (before.flatMap members).length)) d) :
      rt.Defines r w rt' ty d := by
  obtain ⟨parent, rfl, hnone, hsome⟩ := hbuilt
  refine {
    path := rfl
    orphan := hnone
    parent := fun path hpath => ?_
    vars := fun x => ?_
    inherited := fun x hx => ?_
    own := fun x hx => ?_
    noInitializer := fun hp => ?_
    initializer := fun p hp => ?_
    hooks := rfl }
  · obtain ⟨d', hd', hresolves⟩ := hsome path hpath
    refine ⟨d', hd', ?_⟩
    obtain hbuilt | ⟨hunwanted, hhost⟩ := hresolves
    · have hwanted : path ∈ w.paths := h.types.mem_built.mp (mem_of_lookup hbuilt)
      rw [if_pos hwanted, h.lookup_types, hbuilt]
      rfl
    · have hwanted : path ∉ w.paths := mt (mem_laidOut h.types.distinct).mpr hunwanted
      rw [if_neg hwanted, hhost]
  · exact (lookup_insertMany _ _ _).trans (by rw [lookup_inherited]; rfl)
  · refine (addProcs_of_not_mem ?_).trans (lookup_inherited _ _ _)
    show x ∉ (numbered ty.path _ ty.procs).map Prod.fst
    rwa [numbered_names]
  · have hx' :
        x ∈ (numbered ty.path (rt.procs.size + (before.flatMap members).length) ty.procs).map
          Prod.fst := by
      rwa [numbered_names]
    obtain ⟨q, hmem, hlookup⟩ := addProcs_of_mem ((parent.map Definition.procs).getD ∅) hx'
    obtain ⟨k, p, hk, rfl⟩ := of_mem_numbered hmem
    exact ⟨p, _, List.mem_of_getElem? hk, hlookup, h.realizes_member hsplit (members_own hk)⟩
  · show ty.initializer.map _ = none
    rw [hp]
    rfl
  · refine ⟨_, ?_, h.realizes_member hsplit (members_initializer hp)⟩
    show ty.initializer.map _ = _
    rw [hp]
    rfl

/-- The world has been installed, and nothing else has changed. -/
theorem installs (h : rt.Loaded r w new later a rt') : rt.Installs r w rt' where
  otherTypes path hpath := by
    rw [h.lookup_types, not_mem_iff_lookup.mp (mt h.types.mem_built.mp hpath)]
    rfl
  types ty hty := by
    obtain ⟨d, hd⟩ := Option.isSome_iff_exists.mp
      (Std.ExtTreeMap.mem_iff_isSome_getElem?.mp (h.types.mem_built.mpr (List.mem_map_of_mem hty)))
    obtain ⟨before, ty', after, hsplit, hpath, hbuilt⟩ := h.types.is_built hd
    have hty' : ty' ∈ w.types := by simp [hsplit]
    obtain rfl := List.inj_on_of_nodup_map h.types.distinct hty' hty hpath
    exact ⟨d, by rw [h.lookup_types, hd]; rfl, h.defines hsplit hbuilt⟩
  otherGlobals x hx := by
    rw [h.result]
    refine (addProcs_of_not_mem ?_).trans (congrArg (·[x]?) h.globals_runtime)
    rwa [numbered_names]
  globals x hx := by
    have hx' : x ∈ (numbered "" a.runtime.procs.size w.procs).map Prod.fst := by
      rwa [numbered_names]
    obtain ⟨q, hmem, hlookup⟩ := addProcs_of_mem a.runtime.globals hx'
    obtain ⟨k, p, hk, rfl⟩ := of_mem_numbered hmem
    rw [name_of_global] at hlookup
    have hnamed : (named w.procs)[k]? = some (s!"/proc/{x}", p) := by
      rw [named, List.getElem?_map, hk]
      rfl
    refine ⟨p, _, List.mem_of_getElem? hk, by rw [h.result]; exact hlookup, ?_⟩
    have hmade :
        rt'.Realizes r a.runtime.procs.size ⟨a.runtime.procs.size + k + 1,
          s!"/proc/{x}"⟩ s!"/proc/{x}" p :=
      realizes_of_procs h.globals hnamed fun id p hp => ⟨p.overridden, by rw [h.result]; exact hp⟩
    exact hmade.weaken (by rw [h.size_runtime]; exact Nat.le_add_right _ _)
  otherProcs q hq := proc_congr <| by
    have hle : rt.procs.size ≤ a.runtime.procs.size := by
      rw [h.size_runtime]
      exact Nat.le_add_right _ _
    rw [h.keeps (Nat.le_trans hq hle), h.types.relinks.old hq, proc?_grow_old new hq]
  procs := h.size
  rest := by
    obtain ⟨procs, hrest⟩ := h.types.relinks.rest
    rw [h.result, hrest]
    rfl

end Loaded

end Runtime

end ProcEngine
