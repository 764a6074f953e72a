import ProcEngine.Proofs.World.Installation
import ProcEngine.Proofs.World.Reading
import ProcEngine.Proofs.World.Supers
/-!
# Overrides follow the ancestry

When a world is loaded, each proc that a type declares is linked to what the type's parent has by
its name, and to nothing if the parent has none. All links are made while the definitions are
assembled, each when its own type is put together, and never touched again: the procs are new ones,
and no two types have one of them in common.
-/

namespace ProcEngine

/-! ### The overrides of one declaration -/

/-- If no name is declared twice, a proc overrides what is inherited by its name. -/
theorem mem_overrides_iff {table : Names ProcRef} {procs : List (String × ProcRef)}
    (hdistinct : (procs.map Prod.fst).Nodup) {o : Override} :
    o ∈ (addProcs table procs).2 ↔ ∃ x : String, (x, o.proc) ∈ procs ∧
      table[x]? = some o.overridden := by
  induction procs generalizing table with
  | nil => simp [addProcs]
  | cons q procs ih =>
    rw [List.map_cons, List.nodup_cons] at hdistinct
    -- The table has changed for a name that does not come again.
    have hlater : o ∈ (addProcs (table.insert q.1 q.2) procs).2 ↔
        ∃ x : String, (x, o.proc) ∈ procs ∧ table[x]? = some o.overridden := by
      rw [ih hdistinct.2]
      refine exists_congr fun x => and_congr_right fun hx => ?_
      have hne : q.1 ≠ x := fun heq => hdistinct.1 (heq ▸ List.mem_map_of_mem hx)
      rw [Std.ExtTreeMap.getElem?_insert, if_neg (mt Std.LawfulEqCmp.compare_eq_iff_eq.mp hne)]
    have hfirst : (∃ x : String, (x, o.proc) ∈ q :: procs ∧ table[x]? = some o.overridden) ↔
        o.proc = q.2 ∧ table[q.1]? = some o.overridden ∨
          ∃ x : String, (x, o.proc) ∈ procs ∧ table[x]? = some o.overridden := by
      constructor
      · rintro ⟨x, hx, hlookup⟩
        obtain rfl | hx := List.mem_cons.mp hx
        · exact Or.inl ⟨rfl, hlookup⟩
        · exact Or.inr ⟨x, hx, hlookup⟩
      · rintro (⟨hproc, hlookup⟩ | ⟨x, hx, hlookup⟩)
        · exact ⟨q.1, by rw [hproc]; exact List.mem_cons_self, hlookup⟩
        · exact ⟨x, List.mem_cons_of_mem _ hx, hlookup⟩
    rw [hfirst, ← hlater]
    simp only [addProcs]
    cases htable : table[q.1]? with
    | none => simp
    | some overridden =>
      rw [List.mem_cons]
      refine or_congr_left ⟨?_, ?_⟩
      · rintro rfl
        exact ⟨rfl, rfl⟩
      · obtain ⟨proc, overridden'⟩ := o
        rintro ⟨rfl, h⟩
        cases h
        rfl

/-- A declaration in which neither a name nor a proc comes twice. -/
structure TypeSpec.Separate (spec : TypeSpec) : Prop where
  names : (spec.procs.map Prod.fst).Nodup
  procs : ∀ q ∈ spec.procs, ∀ q' ∈ spec.procs, q.2.id = q'.2.id → q = q'

namespace Runtime

variable {rt rt' : Runtime} {spec : TypeSpec}

theorem size_buildType (rt : Runtime) (spec : TypeSpec) (parent : Option Definition) :
    (rt.buildType spec parent).2.procs.size = rt.procs.size := by
  show ((spec.build parent).2.foldl link rt).procs.size = rt.procs.size
  induction (spec.build parent).2 generalizing rt with
  | nil => rfl
  | cons o overrides ih => rw [List.foldl_cons, ih, size_link]

theorem overridden_buildType_of_not_mem (rt : Runtime) (parent : Option Definition) {id : Nat}
    (hid : ∀ q ∈ spec.procs, q.2.id ≠ id) : (rt.buildType spec parent).2.overridden id =
      rt.overridden id := by
  show ((spec.build parent).2.foldl link rt).overridden id = rt.overridden id
  have hnone : ((spec.build parent).2.find? fun o => o.proc.id = id) = none := by
    refine List.find?_eq_none.mpr fun o ho heq => ?_
    obtain ⟨x, hx⟩ := override_mem ho
    exact hid _ hx (of_decide_eq_true heq)
  rw [overridden_links, hnone]
  simp

/-- A proc that overrides nothing yet is linked to what the parent has by its name. -/
theorem overridden_buildType (rt : Runtime) (parent : Option Definition) (hspec : spec.Separate)
    {x : String} {q : ProcRef} (hq : (x, q) ∈ spec.procs) (hadded : 0 < q.id ∧ q.id ≤ rt.procs.size)
    (hnone : rt.overridden q.id = none) :
    (rt.buildType spec parent).2.overridden q.id = parent.bind fun d => d.procs[x]? := by
  show ((spec.build parent).2.foldl link rt).overridden q.id = _
  have hiff {o : Override} : o ∈ (spec.build parent).2 ↔
      ∃ x : String, (x, o.proc) ∈ spec.procs ∧ (parent.bind fun d => d.procs[x]?) =
        some o.overridden := by
    simp only [← lookup_inherited]
    exact mem_overrides_iff hspec.names
  rw [overridden_links, if_pos hadded, hnone]
  cases hfind : (spec.build parent).2.find? fun o => o.proc.id = q.id with
  | some o =>
    obtain ⟨x', hx', hlookup⟩ := hiff.mp (List.mem_of_find?_eq_some hfind)
    have hid : o.proc.id = q.id := by simpa using List.find?_some hfind
    cases hspec.procs _ hx' _ hq hid
    exact hlookup.symm
  | none =>
    refine (Option.eq_none_iff_forall_ne_some.mpr fun q' hq' => ?_).symm
    have hmem : (⟨q, q'⟩ : Override) ∈ (spec.build parent).2 := hiff.mpr ⟨x, hq, hq'⟩
    exact List.find?_eq_none.mp hfind _ hmem (decide_eq_true rfl)

end Runtime

/-! ### Assembling -/

namespace Assembly

variable {wanted : Names PendingType} {host : Names Definition} {visiting : List String}
  {path : String} {a a' : Assembly} {fuel m n : Nat} {d : Definition}

theorem Under.build (h : Under wanted host visiting a)
    (hbuild : a.build fuel visiting path = .ok (d, a')) :
    Under wanted host visiting a' ∧ a'.Resolves wanted host path d := by
  induction fuel generalizing visiting path a d a' with
  | zero => cases hbuild
  | succ fuel ih =>
    obtain ⟨hbuilt, rfl⟩
      | ⟨hbuilt, hfirst, ⟨hnone, hhost, rfl⟩ | ⟨p, parent, a₁, hp, rfl, rfl, hup⟩⟩ :=
      build_ok_iff.mp hbuild
    · exact ⟨h, Or.inl hbuilt⟩
    · rw [h.types] at hhost
      exact ⟨h, Or.inr ⟨h.unwanted hfirst hbuilt hnone, hhost⟩⟩
    · have hchain := ascends_of_build h hbuild
      obtain ⟨_, _, hwanted⟩ := h.of_pending hp
      obtain ⟨hnone, rfl, rfl⟩ | ⟨q, d₁, hsome, rfl, hrec⟩ := hup
      · obtain ⟨hunder, _, hresolves⟩ :=
          (h.take hp).put none hwanted (fun _ => rfl) (by simp [hnone]) hchain hfirst
        exact ⟨hunder, hresolves⟩
      · obtain ⟨hbefore, hparent⟩ := ih (h.take hp) hrec
        obtain ⟨hunder, _, hresolves⟩ := hbefore.put (some d₁) hwanted (by simp [hsome])
          (fun q' hq' => ⟨d₁, rfl, by rwa [Option.some.inj (hsome.symm.trans hq')] at hparent⟩)
            hchain hfirst
        exact ⟨hunder, hresolves⟩

/-- Each type that is wanted has procs of its own, which are among the first `n`. -/
structure Separate (wanted : Names PendingType) (n : Nat) : Prop where
  specs : ∀ (path : String) (p : PendingType), wanted[path]? = some p → p.spec.Separate
  types : ∀ (path path' : String) (p p' : PendingType), wanted[path]? = some p →
    wanted[path']? = some p' →
    path ≠ path' → ∀ q ∈ p.spec.procs, ∀ q' ∈ p'.spec.procs, q.2.id ≠ q'.2.id
  added : ∀ (path : String) (p : PendingType), wanted[path]? = some p → ∀ q ∈ p.spec.procs, 0 <
    q.2.id ∧ q.2.id ≤ n

/-- The procs of a type that is built override what its parent has by their names, and those of the
others nothing. Beside them there are `m` procs that were there before, and procs without a link. -/
structure Linked (wanted : Names PendingType) (m n : Nat) (a : Assembly) : Prop where
  size : a.runtime.procs.size = n
  links : ∀ (path : String) (p : PendingType), wanted[path]? = some p →
    ∀ (x : String) (q : ProcRef),
    (x, q) ∈ p.spec.procs →
      a.runtime.overridden q.id = a.built[path]?.bind fun d => d.parent.bind fun d' => d'.procs[x]?
  others : ∀ id, a.runtime.overridden id ≠ none → id ≤ m ∨
    ∃ (path : String) (p : PendingType), wanted[path]? = some p ∧ ∃ q ∈ p.spec.procs, q.2.id = id

theorem Linked.take (h : Linked wanted m n a) (path : String) : Linked wanted m n (a.take path) :=
  ⟨h.size, h.links, h.others⟩

theorem Linked.put (h : Linked wanted m n a) (hwanted : Separate wanted n) {p : PendingType}
    (hp : wanted[path]? = some p) (hfresh : a.built[path]? = none) (parent : Option Definition) :
    Linked wanted m n (a.put path p parent) where
  size := (Runtime.size_buildType a.runtime p.spec parent).trans h.size
  links path' p' hp' x q hq := by
    have hbefore := h.links path' p' hp' x q hq
    rw [lookup_put]
    by_cases hsame : path = path'
    · subst hsame
      cases hp.symm.trans hp'
      rw [hfresh] at hbefore
      rw [if_pos rfl]
      refine Runtime.overridden_buildType a.runtime parent (hwanted.specs path p hp) hq ?_ hbefore
      rw [h.size]
      exact hwanted.added path p hp _ hq
    · rw [if_neg hsame, ← hbefore]
      exact Runtime.overridden_buildType_of_not_mem a.runtime parent fun q' hq' =>
        hwanted.types path path' p p' hp hp' hsame q' hq' (x, q) hq
  others id hid := by
    by_cases hown : ∃ q ∈ p.spec.procs, q.2.id = id
    · exact Or.inr ⟨path, p, hp, hown⟩
    · refine h.others id ?_
      rwa [← Runtime.overridden_buildType_of_not_mem a.runtime parent fun q hq heq =>
        hown ⟨q, hq, heq⟩]

theorem Linked.build (h : Linked wanted m n a) (hwanted : Separate wanted n)
    (hunder : Under wanted host visiting a)
    (hbuild : a.build fuel visiting path = .ok (d, a')) : Linked wanted m n a' := by
  induction fuel generalizing visiting path a d a' with
  | zero => cases hbuild
  | succ fuel ih =>
    obtain ⟨_, rfl⟩ | ⟨_, _, ⟨_, _, rfl⟩ | ⟨p, parent, a₁, hp, rfl, rfl, hup⟩⟩ :=
      build_ok_iff.mp hbuild
    · exact h
    · exact h
    · obtain ⟨_, hfresh, hpath⟩ := hunder.of_pending hp
      obtain ⟨_, rfl, rfl⟩ | ⟨q, d₁, _, rfl, hrec⟩ := hup
      · exact (h.take path).put hwanted hpath (not_mem_iff_lookup.mp hfresh) none
      · -- While the parent is built, the type itself is not.
        have hbefore := (hunder.take hp).build hrec
        have hfresh' := (hbefore.1.visited path List.mem_cons_self).2
        exact (ih (h.take path) (hunder.take hp) hrec).put hwanted hpath
          (not_mem_iff_lookup.mp hfresh') (some d₁)

theorem Linked.buildAll {paths : List String} (h : Linked wanted m n a)
    (hwanted : Separate wanted n)
    (hunder : Under wanted host [] a) (hbuild : a.buildAll fuel paths = .ok a') :
    Linked wanted m n a' := by
  induction paths generalizing a with
  | nil =>
    cases hbuild
    exact h
  | cons path paths ih =>
    obtain ⟨⟨d, a₁⟩, hfirst, hrest⟩ := Except.of_bind_eq_ok hbuild
    exact ih (h.build hwanted hunder hfirst) (hunder.build hfirst).1 hrest

end Assembly

/-! ### Worlds as they are read -/

namespace CompiledWorld

/-- No type has two procs of one name. -/
def NamesApart (w : CompiledWorld) : Prop := ∀ ty ∈ w.types, (ty.procs.map Prod.fst).Nodup

/-- The types from one up to a type without a parent, nearest first, if the world has them all. -/
inductive Line (w : CompiledWorld) : CompiledType → List CompiledType → Prop
  | root {ty : CompiledType} : ty ∈ w.types → ty.parent = none → Line w ty [ty]
  | step {ty parent : CompiledType} {line : List CompiledType} : ty ∈ w.types →
    ty.parent = some parent.path →
    Line w parent line → Line w ty (ty :: line)

end CompiledWorld

/-- The procs that types declare by the name, with the types that they are of. -/
def declared (x : String) (line : List CompiledType) : List (CompiledType × CompiledProc) :=
  line.filterMap fun ty => (ty.procs.lookup x).map fun p => (ty, p)

theorem mem_of_lookup_eq_some {procs : List (String × CompiledProc)} {x : String} {p : CompiledProc}
    (h : procs.lookup x = some p) : (x, p) ∈ procs := by
  obtain ⟨before, after, rfl, _⟩ := List.lookup_eq_some_iff.mp h
  simp

theorem not_mem_of_lookup_eq_none {procs : List (String × CompiledProc)} {x : String}
    (h : procs.lookup x = none) :
    x ∉ procs.map Prod.fst := by
  rw [List.lookup_eq_none_iff] at h
  intro hx
  obtain ⟨q, hq, rfl⟩ := List.mem_map.mp hx
  simpa using h q hq

namespace Format

theorem fieldD_some {α : Type} {members : List (String × Json)} {key : String} {default a : α}
    {read : Json → Option α} (h : fieldD members key default read = some a) : a = default ∨
    ∃ j, read j = some a := by
  obtain ⟨_ | j, _, h⟩ := Option.bind_eq_some_iff.mp h
  · exact Or.inl (Option.some.inj h).symm
  · exact Or.inr ⟨j, h⟩

theorem named?_nodup {α : Type} {read : Json → Option α} {j : Json} {named : List (String × α)}
    (h : named? read j = some named) : (named.map Prod.fst).Nodup := by
  obtain ⟨_, _, h⟩ := Option.bind_eq_some_iff.mp h
  obtain ⟨entries, _, h⟩ := Option.bind_eq_some_iff.mp h
  cases h
  rw [Std.ExtTreeMap.map_fst_toList_eq_keys]
  exact Std.ExtTreeMap.nodup_keys

theorem type?_nodup {depth : Nat} {j : Json} {ty : CompiledType} (h : type? depth j = some ty) :
    (ty.procs.map Prod.fst).Nodup := by
  obtain ⟨members, _, h⟩ := Option.bind_eq_some_iff.mp h
  obtain ⟨field, _, h⟩ := Option.bind_eq_some_iff.mp h
  obtain ⟨_, _, h⟩ := Option.bind_eq_some_iff.mp h
  obtain ⟨path, _, h⟩ := Option.bind_eq_some_iff.mp h
  obtain ⟨parent, _, h⟩ := Option.bind_eq_some_iff.mp h
  obtain ⟨vars, _, h⟩ := Option.bind_eq_some_iff.mp h
  obtain ⟨procs, hprocs, h⟩ := Option.bind_eq_some_iff.mp h
  obtain ⟨initializer, _, h⟩ := Option.bind_eq_some_iff.mp h
  cases h
  obtain rfl | ⟨j, hj⟩ := fieldD_some hprocs
  · exact List.nodup_nil
  · exact named?_nodup hj

theorem namesApart_of_readWorld {text : String} {w : CompiledWorld} (h : readWorld text = some w) :
    w.NamesApart := by
  obtain ⟨j, _, h⟩ := Option.bind_eq_some_iff.mp h
  obtain ⟨members, _, h⟩ := Option.bind_eq_some_iff.mp h
  obtain ⟨types, htypes, h⟩ := Option.bind_eq_some_iff.mp h
  obtain ⟨procs, _, h⟩ := Option.bind_eq_some_iff.mp h
  cases h
  intro ty hty
  obtain rfl | ⟨j, hj⟩ := fieldD_some htypes
  · simp at hty
  · obtain ⟨items, _, hitems⟩ := Option.bind_eq_some_iff.mp hj
    obtain ⟨item, _, hitem⟩ := mem_mapM hitems hty
    exact type?_nodup hitem

end Format

namespace Runtime

open CompiledType

variable {rt rt' : Runtime} {r : Registry} {w : CompiledWorld} {new later : List Proc}
  {a : Assembly}

/-! ### The procs of a world -/

theorem spec_names (ty : CompiledType) (n : Nat) : (ty.spec r n).procs.map Prod.fst =
    ty.procs.map Prod.fst :=
  numbered_names ty.path n ty.procs

theorem separate_spec {ty : CompiledType} (hnames : (ty.procs.map Prod.fst).Nodup) (n : Nat) :
    (ty.spec r n).Separate where
  names := by rwa [spec_names]
  procs := by
    rintro ⟨x, q⟩ hq ⟨x', q'⟩ hq' hid
    obtain ⟨k, p, hk, rfl⟩ := of_mem_numbered hq
    obtain ⟨k', p', hk', rfl⟩ := of_mem_numbered hq'
    have hsame : k = k' := by
      have hid : n + k + 1 = n + k' + 1 := hid
      omega
    subst hsame
    cases hk.symm.trans hk'
    rfl

/-- The number of a proc tells the place of its type in the list. -/
theorem path_of_place {types before after before' after' : List CompiledType}
    {ty ty' : CompiledType} {k k' : Nat}
    (hsplit : types = before ++ ty :: after) (hsplit' : types = before' ++ ty' :: after')
    (hk : k < ty.members.length) (hk' : k' < ty'.members.length)
    (hplace : (before.flatMap members).length + k = (before'.flatMap members).length + k') :
    ty.path = ty'.path := by
  let place (ty : CompiledType) : List String := ty.members.map fun _ => ty.path
  have hlength (types : List CompiledType) : (types.flatMap place).length =
      (types.flatMap members).length := by
    simp [place, List.length_flatMap]
  have hat {ty : CompiledType} {k : Nat} (hk : k < ty.members.length) :
      (place ty)[k]? = some ty.path := by
    simp [place, hk]
  have h := getElem?_flatMap place hsplit (hat hk)
  have h' := getElem?_flatMap place hsplit' (hat hk')
  rw [hlength] at h h'
  rw [hplace, h'] at h
  exact (Option.some.inj h).symm

theorem separate_laidOut {types : List CompiledType}
    (hdistinct : (types.map CompiledType.path).Nodup)
    (hnames : ∀ ty ∈ types, (ty.procs.map Prod.fst).Nodup) (n : Nat) :
    Assembly.Separate (laidOut r ∅ n types) (n + (types.flatMap members).length) where
  specs path p hp := by
    obtain ⟨before, ty, after, hsplit, _, rfl⟩ := (laidOut_iff hdistinct).mp hp
    exact separate_spec (hnames ty (by simp [hsplit])) _
  types path path' p p' hp hp' hne := by
    obtain ⟨before, ty, after, hsplit, rfl, rfl⟩ := (laidOut_iff hdistinct).mp hp
    obtain ⟨before', ty', after', hsplit', rfl, rfl⟩ := (laidOut_iff hdistinct).mp hp'
    rintro ⟨x, q⟩ hq ⟨x', q'⟩ hq' hid
    obtain ⟨k, p, hk, rfl⟩ := of_mem_numbered hq
    obtain ⟨k', p', hk', rfl⟩ := of_mem_numbered hq'
    obtain ⟨hlt, _⟩ := List.getElem?_eq_some_iff.mp (members_own hk)
    obtain ⟨hlt', _⟩ := List.getElem?_eq_some_iff.mp (members_own hk')
    refine hne (path_of_place hsplit hsplit' hlt hlt' ?_)
    have hid : n + (before.flatMap members).length + k + 1 = n + (before'.flatMap members).length +
        k' + 1 := hid
    omega
  added path p hp := by
    obtain ⟨before, ty, after, hsplit, rfl, rfl⟩ := (laidOut_iff hdistinct).mp hp
    rintro ⟨x, q⟩ hq
    obtain ⟨k, p, hk, rfl⟩ := of_mem_numbered hq
    obtain ⟨hlt, _⟩ :=
      List.getElem?_eq_some_iff.mp (getElem?_flatMap members hsplit (members_own hk))
    show 0 < n + (before.flatMap members).length + k + 1 ∧
      n + (before.flatMap members).length + k + 1 ≤ _
    omega

theorem linked_assembly {types : List CompiledType}
    (hdistinct : (types.map CompiledType.path).Nodup)
    (hnew : r.procs (types.flatMap members) = .ok new) :
    Assembly.Linked (laidOut r ∅ rt.procs.size types) rt.procs.size
      (rt.procs.size + (types.flatMap members).length)
      (rt.assembly r types new) where
  size := by rw [assembly, size_grow, Registry.length_procs hnew]
  links path p hp x q hq := by
    obtain ⟨before, ty, after, _, _, rfl⟩ := (laidOut_iff hdistinct).mp hp
    obtain ⟨k, _, _, rfl⟩ := of_mem_numbered hq
    have hnone : (rt.assembly r types new).built[path]? = none := by simp [assembly]
    rw [hnone, Option.bind_none]
    refine (overridden_grow (fun p hp => Registry.unlinked_of_procs hnew hp) _).trans
      (overridden_of_lt ?_)
    show rt.procs.size < rt.procs.size + (before.flatMap members).length + k + 1
    omega
  others id hid := by
    refine Or.inl (Nat.le_of_not_lt fun hlt => hid ?_)
    exact (overridden_grow (fun p hp => Registry.unlinked_of_procs hnew hp) id).trans
      (overridden_of_lt hlt)

theorem Loaded.linked (h : rt.Loaded r w new later a rt') (hnames : w.NamesApart) :
    Assembly.Linked (laidOut r ∅ rt.procs.size w.types) rt.procs.size
      (rt.procs.size + (w.types.flatMap members).length) a :=
  (linked_assembly h.types.distinct h.types.procs).buildAll
    (separate_laidOut h.types.distinct hnames _)
    (under_assembly w.types new) h.types.all

/-- Registering types and defining global procs links nothing. -/
theorem Loaded.overridden_eq (h : rt.Loaded r w new later a rt') (id : Nat) :
    rt'.overridden id = a.runtime.overridden id := by
  rw [h.result]
  exact overridden_grow (fun p hp => Registry.unlinked_of_procs h.globals hp) id

/-- Once a world is loaded, its procs override what the parents of their types have by their
names. -/
theorem Loaded.overridden (h : rt.Loaded r w new later a rt') (hnames : w.NamesApart)
    {path : String} {p : PendingType}
    (hp : (laidOut r ∅ rt.procs.size w.types)[path]? = some p) {x : String} {q : ProcRef}
    (hq : (x, q) ∈ p.spec.procs) :
    (rt'.proc q).overridden = a.built[path]?.bind fun d => d.parent.bind fun d' =>
      d'.procs[x]? := by
  rw [overridden_proc, h.overridden_eq, (h.linked hnames).links path p hp x q hq]

/-- The definition is that of the type: what it does not declare is as its parent has it, and what
it declares is linked to what its parent has. -/
structure Overrides (rt : Runtime) (r : Registry) (rt' : Runtime) (ty : CompiledType)
    (d : Definition) : Prop where
  path : d.path = ty.path
  parent : d.parent = ty.parent.bind fun path => rt'.objects.types[path]?
  inherited : ∀ x ∉ ty.procs.map Prod.fst, d.procs[x]? = d.parent.bind fun d' => d'.procs[x]?
  own : ∀ (x : String) (p : CompiledProc), (x, p) ∈ ty.procs → ∃ q, d.procs[x]? = some q ∧
    rt'.Realizes r rt.procs.size q s!"{ty.path}/proc/{x}" p ∧
    (rt'.proc q).overridden = d.parent.bind fun d' => d'.procs[x]?

theorem Loaded.overrides (h : rt.Loaded r w new later a rt') (hnames : w.NamesApart)
    {ty : CompiledType}
    (hty : ty ∈ w.types) : ∃ d, rt'.objects.types[ty.path]? = some d ∧ rt.Overrides r rt' ty d := by
  obtain ⟨d, hd⟩ := Option.isSome_iff_exists.mp
    (Std.ExtTreeMap.mem_iff_isSome_getElem?.mp (h.types.mem_built.mpr (List.mem_map_of_mem hty)))
  obtain ⟨before, ty', after, hsplit, hpath, hbuilt⟩ := h.types.is_built hd
  obtain rfl := List.inj_on_of_nodup_map h.types.distinct (by simp [hsplit]) hty hpath
  have hdefines := h.defines hsplit hbuilt
  have hwanted : (laidOut r ∅ rt.procs.size w.types)[ty'.path]? =
      some (ty'.prepared r (rt.procs.size + (before.flatMap members).length)) :=
    (laidOut_iff h.types.distinct).mpr ⟨before, ty', after, hsplit, rfl, rfl⟩
  refine ⟨d, by rw [h.lookup_types, hd]; rfl, hdefines.path, ?_, hdefines.inherited,
    fun x p hp => ?_⟩
  · cases hparent : ty'.parent with
    | none => exact hdefines.orphan hparent
    | some path =>
      obtain ⟨d', hd', hlookup⟩ := hdefines.parent path hparent
      rw [hd', Option.bind_some]
      split at hlookup <;> rename_i hmem
      · exact hlookup.symm
      · rw [h.installs.otherTypes path hmem, hlookup]
  · obtain ⟨p', q, hp', hlookup, hmade⟩ := hdefines.own x (List.mem_map_of_mem hp)
    obtain rfl : p' = p := congrArg Prod.snd (List.inj_on_of_nodup_map (hnames ty' hty) hp' hp rfl)
    obtain ⟨parent, rfl, _⟩ := hbuilt
    have hx :
        x ∈ (ty'.spec r (rt.procs.size + (before.flatMap members).length)).procs.map Prod.fst := by
      rw [spec_names]
      exact List.mem_map_of_mem hp
    obtain ⟨q', hq', hlookup'⟩ := addProcs_of_mem ((parent.map Definition.procs).getD ∅) hx
    cases hlookup.symm.trans hlookup'
    refine ⟨q, hlookup, hmade, ?_⟩
    rw [h.overridden hnames hwanted hq', hd]
    rfl

/-! ### Along the ancestry -/

/-- The procs that the types on the line declare by the name, nearest first: each overrides the
next. -/
structure Succession (rt : Runtime) (r : Registry) (rt' : Runtime) (x : String)
    (line : List CompiledType) (qs : List ProcRef) : Prop where
  made : List.Forall₂ (fun p q => rt'.Realizes r rt.procs.size q s!"{p.1.path}/proc/{x}" p.2)
    (declared x line) qs
  supers : ∀ q, qs.head? = some q → rt'.Supers q qs

/-- A type goes on with what its parent has, behind a proc of its own if it declares one. -/
theorem Succession.cons {x : String} {line : List CompiledType} {qs : List ProcRef}
    {ty : CompiledType}
    {d : Definition} (h : Succession rt r rt' x line qs) (hd : rt.Overrides r rt' ty d)
    (hparent : (d.parent.bind fun d' => d'.procs[x]?) = qs.head?) :
    ∃ qs', Succession rt r rt' x (ty :: line) qs' ∧ d.procs[x]? = qs'.head? := by
  cases hp : ty.procs.lookup x with
  | none =>
    refine ⟨qs, ⟨by simpa [declared, hp] using h.made, h.supers⟩, ?_⟩
    rw [hd.inherited x (not_mem_of_lookup_eq_none hp), hparent]
  | some p =>
    obtain ⟨q, hlookup, hmade, hover⟩ := hd.own x p (mem_of_lookup_eq_some hp)
    refine ⟨q :: qs, ⟨by simpa [declared, hp] using ⟨hmade, h.made⟩, fun q' hq' => ?_⟩, hlookup⟩
    cases hq'
    rw [hparent] at hover
    cases hqs : qs.head? with
    | none =>
      obtain rfl := List.head?_eq_none_iff.mp hqs
      exact .last hover
    | some q' =>
      rw [hqs] at hover
      exact .next hover (h.supers q' hqs)

theorem Loaded.succession (h : rt.Loaded r w new later a rt') (hnames : w.NamesApart)
    {ty : CompiledType} {line : List CompiledType} (hline : w.Line ty line) (x : String) :
    ∃ qs d, Succession rt r rt' x line qs ∧ rt'.objects.types[ty.path]? = some d ∧
      d.procs[x]? = qs.head? := by
  induction hline with
  | root hty hnone =>
    obtain ⟨d, hd, hoverrides⟩ := h.overrides hnames hty
    have hnobody : Succession rt r rt' x [] [] := ⟨.nil, by simp⟩
    obtain ⟨qs, hqs, hlookup⟩ := hnobody.cons hoverrides (by rw [hoverrides.parent, hnone]; rfl)
    exact ⟨qs, d, hqs, hd, hlookup⟩
  | step hty hparent _ ih =>
    obtain ⟨qs, d', hqs, hd', hlookup'⟩ := ih
    obtain ⟨d, hd, hoverrides⟩ := h.overrides hnames hty
    obtain ⟨qs', hqs', hlookup⟩ := hqs.cons hoverrides (by
      rw [hoverrides.parent, hparent, Option.bind_some, hd', Option.bind_some, hlookup'])
    exact ⟨qs', d, hqs', hd, hlookup⟩

end Runtime

end ProcEngine
