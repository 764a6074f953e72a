import ProcEngine.Proofs.World.Closure
import ProcEngine.Proofs.World.Overriding
/-!
# Where overriding ends

A definition may be built of any procs that there are, so one proc can stand in several types, under
several names, and in the place of another in more than one of them. Then it is the first link that
counts. The way from a proc to what it overrides may have no end: the proc takes its own place, or
that of one which leads to it. These are the only links that are to blame. Loading a world makes
none of them, for each proc in it is new and stands in one place.
-/

namespace ProcEngine

namespace Runtime

variable {rt rt' : Runtime} {r : Registry} {q q' : ProcRef} {qs qs' : List ProcRef} {o : Override}

/-- From every proc the way to what it overrides, and on from there, comes to an end. -/
def Ends (rt : Runtime) : Prop := ∀ q, ∃ qs, rt.Supers q qs

theorem Ends.congr (h : rt.Ends) (hsame : ∀ id, rt'.overridden id = rt.overridden id) : rt'.Ends :=
  fun q => by
  obtain ⟨qs, hqs⟩ := h q
  exact ⟨qs, hqs.congr fun q' _ => by rw [overridden_proc, overridden_proc, hsame]⟩

theorem ends_congr (hsame : ∀ id, rt'.overridden id = rt.overridden id) : rt'.Ends ↔ rt.Ends :=
  ⟨fun h => h.congr fun id => (hsame id).symm, fun h => h.congr hsame⟩

/-! ### One link -/

/-- The link ties a knot: its proc has none yet, and is on the way from what it is to be linked
to. -/
structure Ties (rt : Runtime) (o : Override) : Prop where
  added : 0 < o.proc.id ∧ o.proc.id ≤ rt.procs.size
  unlinked : rt.overridden o.proc.id = none
  leads : ∃ qs, rt.Supers o.overridden qs ∧ o.proc.id ∈ qs.map ProcRef.id

/-- The proc takes its own place, or the place of one that leads to it since something overrides it
already. -/
theorem Ties.reused (h : rt.Ties o) :
    o.overridden.id = o.proc.id ∨ ∃ q q', (rt.proc q).overridden = some q' ∧ q'.id = o.proc.id := by
  obtain ⟨qs, hqs, hmem⟩ := h.leads
  have hway {q : ProcRef} {qs : List ProcRef} (hqs : rt.Supers q qs)
      (hmem : o.proc.id ∈ qs.map ProcRef.id) :
      q.id = o.proc.id ∨ ∃ q q', (rt.proc q).overridden = some q' ∧ q'.id = o.proc.id := by
    induction hqs with
    | last _ => exact Or.inl (by simpa [eq_comm] using hmem)
    | @next q q' qs hnext _ ih =>
      obtain hid | hmem := List.mem_cons.mp hmem
      · exact Or.inl hid.symm
      · exact Or.inr ((ih hmem).elim (fun hid => ⟨q, q', hnext, hid⟩) id)
  exact hway hqs hmem

/-- A proc that is linked stays linked as it is. -/
theorem overridden_link_of_some (o : Override) (h : (rt.proc q).overridden = some q') :
    ((rt.link o).proc q).overridden = some q' := by
  rw [overridden_proc] at h
  rw [overridden_proc, overridden_link, h]
  split <;> rfl

/-- What is on the way is on it still after another link. -/
theorem Supers.mem_link (h : rt.Supers q qs) {id : Nat} (hmem : id ∈ qs.map ProcRef.id)
    (h' : (rt.link o).Supers q qs') : id ∈ qs'.map ProcRef.id := by
  have hfirst {q : ProcRef} {qs : List ProcRef} (h : (rt.link o).Supers q qs) :
      q.id ∈ qs.map ProcRef.id :=
    List.mem_map_of_mem (List.mem_of_mem_head? h.head?)
  induction h generalizing qs' with
  | last _ =>
    rw [List.map_singleton, List.mem_singleton] at hmem
    exact hmem ▸ hfirst h'
  | next hnext _ ih =>
    obtain rfl | hmem := List.mem_cons.mp hmem
    · exact hfirst h'
    · have hnext' := overridden_link_of_some o hnext
      cases h' with
      | last hlast => cases hlast.symm.trans hnext'
      | next hnext'' hrest =>
        cases hnext'.symm.trans hnext''
        exact List.mem_cons_of_mem _ (ih hmem hrest)

/-- A way that comes to an end with a link more does without it. -/
theorem ends_of_link (h : (rt.link o).Ends) : rt.Ends := by
  intro q
  obtain ⟨qs, hqs⟩ := h q
  induction hqs with
  | @last q hlast =>
    refine ⟨[q], .last (Option.eq_none_iff_forall_ne_some.mpr fun q' hq' => ?_)⟩
    cases hlast.symm.trans (overridden_link_of_some o hq')
  | @next q q' qs hnext _ ih =>
    cases hover : (rt.proc q).overridden with
    | none => exact ⟨[q], .last hover⟩
    | some q'' =>
      cases hnext.symm.trans (overridden_link_of_some o hover)
      obtain ⟨qs', hqs'⟩ := ih
      exact ⟨q :: qs', .next hover hqs'⟩

theorem Ties.endless (h : rt.Ties o) : ¬ (rt.link o).Ends := by
  intro hends
  obtain ⟨qs, hqs, hmem⟩ := h.leads
  obtain ⟨qs', hqs'⟩ := hends o.overridden
  have hlink : ((rt.link o).proc o.proc).overridden = some o.overridden := by
    rw [overridden_proc, overridden_link, if_pos ⟨rfl, h.added⟩, h.unlinked]
    rfl
  -- The way from the proc would come by the proc again.
  exact (List.nodup_cons.mp (Supers.next hlink hqs').nodup).1 (hqs.mem_link hmem hqs')

/-- A link leaves a way without an end if and only if it ties a knot. -/
theorem ends_link_iff (h : rt.Ends) : (rt.link o).Ends ↔ ¬ rt.Ties o := by
  refine ⟨fun hends hties => hties.endless hends, fun hfree => ?_⟩
  by_cases hworks : (0 < o.proc.id ∧ o.proc.id ≤ rt.procs.size) ∧ rt.overridden o.proc.id = none
  · have hother {q : ProcRef} (hq : q.id ≠ o.proc.id) : ((rt.link o).proc q).overridden =
        (rt.proc q).overridden := by
      rw [overridden_proc, overridden_link, if_neg fun hid => hq hid.1.symm, overridden_proc]
    -- From what is overridden on, the way is as it was.
    obtain ⟨above, habove⟩ := h o.overridden
    have habove' : (rt.link o).Supers o.overridden above :=
      habove.congr fun q hq => hother fun hid =>
      hfree ⟨hworks.1, hworks.2, above, habove, hid ▸ List.mem_map_of_mem hq⟩
    intro q
    obtain ⟨qs, hqs⟩ := h q
    induction hqs with
    | @last q hlast =>
      by_cases hq : q.id = o.proc.id
      · refine ⟨q :: above, .next ?_ habove'⟩
        rw [overridden_proc, overridden_link, if_pos ⟨hq.symm, hq ▸ hworks.1⟩, hq, hworks.2]
        rfl
      · exact ⟨[q], .last ((hother hq).trans hlast)⟩
    | @next q q' qs hnext _ ih =>
      obtain ⟨qs', hqs'⟩ := ih
      exact ⟨q :: qs', .next (overridden_link_of_some o hnext) hqs'⟩
  · refine h.congr fun id => ?_
    rw [overridden_link]
    split
    · rename_i hid
      obtain ⟨rfl, hadded⟩ := hid
      cases hover : rt.overridden o.proc.id with
      | none => exact absurd ⟨hadded, hover⟩ hworks
      | some q => rfl
    · rfl

/-! ### Many links -/

/-- The links that are made one after the other, each with the runtime that it is made in. -/
def trail (rt : Runtime) : List Override → List (Runtime × Override)
  | [] => []
  | o :: overrides => (rt, o) :: (rt.link o).trail overrides

theorem ends_links_iff {overrides : List Override} :
    (overrides.foldl link rt).Ends ↔ rt.Ends ∧ ∀ l ∈ rt.trail overrides, ¬ l.1.Ties l.2 := by
  induction overrides generalizing rt with
  | nil => simp [trail]
  | cons o overrides ih =>
    rw [List.foldl_cons, ih, trail, List.forall_mem_cons]
    constructor
    · rintro ⟨hends, hfree⟩
      have hbefore := ends_of_link hends
      exact ⟨hbefore, (ends_link_iff hbefore).mp hends, hfree⟩
    · rintro ⟨hends, hfirst, hfree⟩
      exact ⟨(ends_link_iff hends).mpr hfirst, hfree⟩

/-! ### Loading -/

/-- What is overridden was there before. -/
theorem Closed.overridden_le (h : rt.Closed) {id : Nat} (hq : rt.overridden id = some q) :
    q.id ≤ rt.procs.size := by
  obtain ⟨p, hp, hq⟩ := Option.bind_eq_some_iff.mp hq
  exact h.procs id p q hp hq

theorem Supers.within (h : rt.Supers q qs) (hclosed : rt.Closed) (hq : q.id ≤ rt.procs.size) :
    ∀ q' ∈ qs, q'.id ≤ rt.procs.size := by
  induction h with
  | last _ => simpa using hq
  | next hnext _ ih =>
    rw [overridden_proc] at hnext
    exact List.forall_mem_cons.mpr ⟨hq, ih (hclosed.overridden_le hnext)⟩

variable {w : CompiledWorld} {new later : List Proc} {a : Assembly}

theorem Loaded.supers_old_iff (h : rt.Loaded r w new later a rt') (hclosed : rt.Closed)
    (hq : q.id ≤ rt.procs.size) : rt'.Supers q qs ↔ rt.Supers q qs := by
  have hold {q : ProcRef} (hq : q.id ≤ rt.procs.size) :
      (rt'.proc q).overridden = (rt.proc q).overridden := by
    rw [h.installs.otherProcs q hq]
  constructor
  · intro hqs
    induction hqs with
    | last hlast => exact .last ((hold hq).symm.trans hlast)
    | next hnext _ ih =>
      rw [hold hq] at hnext
      exact .next hnext (ih (hclosed.overridden_le (by rw [← overridden_proc, hnext])))
  · intro hqs
    exact hqs.congr fun q' hq' => hold (hqs.within hclosed hq q' hq')

/-- If the ways from all procs of the parent end, so do those from all procs of the type. -/
theorem Overrides.ends {ty : CompiledType} {d : Definition} (h : rt.Overrides r rt' ty d)
    (hparent : ∀ d', d.parent = some d' → ∀ (x : String) q, d'.procs[x]? = some q →
      ∃ qs, rt'.Supers q qs)
    (x : String) (hq : d.procs[x]? = some q) : ∃ qs, rt'.Supers q qs := by
  have hinherited (hq : (d.parent.bind fun d' => d'.procs[x]?) = some q) :
      ∃ qs, rt'.Supers q qs := by
    obtain ⟨d', hd', hq⟩ := Option.bind_eq_some_iff.mp hq
    exact hparent d' hd' x q hq
  by_cases hx : x ∈ ty.procs.map Prod.fst
  · obtain ⟨⟨_, p⟩, hp, rfl⟩ := List.mem_map.mp hx
    obtain ⟨q', hq', _, hover⟩ := h.own _ p hp
    cases hq.symm.trans hq'
    cases hparent' : (rt'.proc q).overridden with
    | none => exact ⟨[q], .last hparent'⟩
    | some q'' =>
      obtain ⟨d', hd', hq''⟩ := Option.bind_eq_some_iff.mp (hover.symm.trans hparent')
      obtain ⟨qs, hqs⟩ := hparent d' hd' _ q'' hq''
      exact ⟨q :: qs, .next hparent' hqs⟩
  · exact hinherited (by rw [← h.inherited x hx, hq])

theorem Loaded.ends_of_ascent (h : rt.Loaded r w new later a rt') (hnames : w.NamesApart)
    (hclosed : rt.Closed)
    (hends : rt.Ends) {path : String} {chain : List String} (hchain : w.Ascent rt path chain)
    {d : Definition}
    (hd : rt'.objects.types[path]? = some d) (x : String) (hq : d.procs[x]? = some q) :
    ∃ qs, rt'.Supers q qs := by
  induction hchain generalizing d x q with
  | host hpath _ =>
    rw [h.installs.otherTypes _ hpath] at hd
    have hold := (Definition.within_iff.mp (hclosed.types _ d hd)).2.1 x q hq
    obtain ⟨qs, hqs⟩ := hends q
    exact ⟨qs, (h.supers_old_iff hclosed hold).mpr hqs⟩
  | root hty hnone =>
    obtain ⟨d', hd', hoverrides⟩ := h.overrides hnames hty
    cases hd.symm.trans hd'
    refine hoverrides.ends (fun d' hd' => ?_) x hq
    rw [hoverrides.parent, hnone] at hd'
    cases hd'
  | step hty hparent _ _ ih =>
    obtain ⟨d', hd', hoverrides⟩ := h.overrides hnames hty
    cases hd.symm.trans hd'
    refine hoverrides.ends (fun d' hd' y q hq => ih ?_ y hq) x hq
    rwa [hoverrides.parent, hparent] at hd'

theorem Loaded.ends_of_type (h : rt.Loaded r w new later a rt') (hnames : w.NamesApart)
    (hclosed : rt.Closed)
    (hends : rt.Ends) {path : String} {d : Definition} (hd : rt'.objects.types[path]? = some d)
    {x : String} (hq : d.procs[x]? = some q) : ∃ qs, rt'.Supers q qs := by
  have haccepted : w.Accepted rt r := loadCompiled_isOk_iff.mp
    ⟨_, congrArg Prod.fst (loadCompiled_ok_iff.mpr ⟨rfl, new, later, a, h⟩)⟩
  obtain ⟨chain, hchain⟩ : ∃ chain, w.Ascent rt path chain := by
    by_cases hpath : path ∈ w.paths
    · obtain ⟨ty, hty, rfl⟩ := List.mem_map.mp hpath
      exact haccepted.ascends ty hty
    · rw [h.installs.otherTypes path hpath] at hd
      exact ⟨[], .host hpath (mem_of_lookup hd)⟩
  exact h.ends_of_ascent hnames hclosed hends hchain hd x hq

/-- A load neither ties a knot nor unties one. -/
theorem Loaded.ends_iff (h : rt.Loaded r w new later a rt') (hnames : w.NamesApart)
    (hclosed : rt.Closed) :
    rt'.Ends ↔ rt.Ends := by
  constructor
  · intro hends q
    by_cases hold : q.id ≤ rt.procs.size
    · obtain ⟨qs, hqs⟩ := hends q
      exact ⟨qs, (h.supers_old_iff hclosed hold).mp hqs⟩
    · exact ⟨[q], .last (by rw [overridden_proc, overridden_of_lt (Nat.lt_of_not_le hold)])⟩
  · intro hends q
    cases hover : (rt'.proc q).overridden with
    | none => exact ⟨[q], .last hover⟩
    | some q' =>
      rw [overridden_proc, h.overridden_eq] at hover
      obtain hold | ⟨path, p, hp, ⟨x, q₀⟩, hq₀, hid⟩ :=
        (h.linked hnames).others q.id (by simp [hover])
      · obtain ⟨qs, hqs⟩ := hends q
        exact ⟨qs, (h.supers_old_iff hclosed hold).mpr hqs⟩
      · -- The proc is one that a type declares, and overrides what the type's parent has.
        rw [← hid, (h.linked hnames).links path p hp x q₀ hq₀] at hover
        obtain ⟨d, hbuilt, hover'⟩ := Option.bind_eq_some_iff.mp hover
        obtain ⟨d', hd', hq'⟩ := Option.bind_eq_some_iff.mp hover'
        obtain ⟨before, ty, after, hsplit, rfl, _⟩ := (laidOut_iff h.types.distinct).mp hp
        have hty : ty ∈ w.types := by simp [hsplit]
        obtain ⟨d₁, hd₁, hoverrides⟩ := h.overrides hnames hty
        rw [h.lookup_types, hbuilt] at hd₁
        cases hd₁
        rw [hoverrides.parent] at hd'
        obtain ⟨parent, _, hd'⟩ := Option.bind_eq_some_iff.mp hd'
        obtain ⟨qs, hqs⟩ := h.ends_of_type hnames hclosed hends hd' hq'
        refine ⟨q :: qs, .next ?_ hqs⟩
        rw [overridden_proc, h.overridden_eq, ← hid, (h.linked hnames).links _ p hp x q₀ hq₀]
        exact hover

theorem overridden_defineGlobals (procs : List (String × CompiledProc)) (id : Nat) :
    (rt.defineGlobals r procs).2.overridden id = rt.overridden id := by
  induction procs generalizing rt with
  | nil => rfl
  | cons q procs ih =>
    rw [defineGlobals, buildProc_eq]
    cases hq : r.proc s!"/proc/{q.1}" q.2 with
    | error e => rfl
    | ok p =>
      obtain ⟨body, _, rfl⟩ := Registry.proc_ok hq
      have hgrown : (rt.grow [{ signature := q.2.signature s!"/proc/{q.1}", body }]).overridden id =
          rt.overridden id :=
        overridden_grow (by simp) id
      exact ih.trans hgrown

theorem overridden_registers (definitions : List Definition) (id : Nat) :
    (definitions.foldl register rt).overridden id = rt.overridden id := by
  induction definitions generalizing rt with
  | nil => rfl
  | cons d definitions ih => exact ih

/-- The same of a load that fails. -/
theorem Closed.ends_loadWorld_iff (h : rt.Closed) (r : Registry) (text : String) :
    (rt.loadWorld r text).2.Ends ↔ rt.Ends := by
  rw [Runtime.loadWorld]
  cases hread : Format.readWorld text with
  | none => rfl
  | some w =>
    simp only [loadCompiled]
    cases hbuild : rt.buildTypes r w.types with
    | error e => rfl
    | ok q =>
      -- Had the world no global procs, the load would have succeeded.
      obtain ⟨new, a, hassembled, rfl⟩ := buildTypes_ok_iff_assembled.mp hbuild
      have hloaded : rt.Loaded r { w with procs := [] } new [] a _ := ⟨hassembled, rfl, rfl⟩
      have hnames : CompiledWorld.NamesApart { w with procs := [] } :=
        Format.namesApart_of_readWorld (w := w) hread
      rw [← hloaded.ends_iff hnames h]
      refine ends_congr fun id => ?_
      rw [hloaded.overridden_eq]
      exact (overridden_defineGlobals w.procs id).trans (overridden_registers _ id)

/-! ### Defining types -/

/-- How types come about: procs are added, definitions are built of procs that were added, under
definitions that refer to such, definitions are registered and global names defined, worlds are
loaded, and anything is run. The links that building definitions makes are listed, each with the
runtime that it is made in. -/
inductive Defining : List (Runtime × Override) → Runtime → Prop
  | start {rt : Runtime} : rt.procs = #[] → rt.objects.types = ∅ → rt.globals = ∅ → Defining [] rt
  | proc {links : List (Runtime × Override)} {rt : Runtime} {p : Proc} : Defining links rt →
    p.overridden = none →
    Defining links (rt.addProc p).2
  | type {links : List (Runtime × Override)} {rt : Runtime} {spec : TypeSpec}
    {parent : Option Definition} :
    Defining links rt → spec.Within rt.procs.size → (∀ q ∈ spec.procs, 0 < q.2.id) →
    (∀ d, parent = some d → d.Within rt.procs.size) →
    Defining (links ++ rt.trail (spec.build parent).2) (rt.buildType spec parent).2
  | register {links : List (Runtime × Override)} {rt : Runtime} {d : Definition} :
    Defining links rt →
    d.Within rt.procs.size → Defining links (rt.register d)
  | global {links : List (Runtime × Override)} {rt : Runtime} {name : String} {q : ProcRef} :
    Defining links rt →
    q.id ≤ rt.procs.size → Defining links (rt.defineGlobal name q)
  | load {links : List (Runtime × Override)} {rt : Runtime} (r : Registry) (text : String) :
    Defining links rt →
    Defining links (rt.loadWorld r text).2
  | run {links : List (Runtime × Override)} {rt rt' : Runtime} : Defining links rt →
    SameCode rt rt' →
    Defining links rt'

variable {links : List (Runtime × Override)}

theorem Closed.start (hprocs : rt.procs = #[]) (htypes : rt.objects.types = ∅)
    (hglobals : rt.globals = ∅) :
    rt.Closed where
  types path d hd := by simp [htypes] at hd
  globals x q hq := by simp [hglobals] at hq
  procs id p q hp := by
    have hthere := proc?_isSome_iff.mp ⟨p, hp⟩
    simp only [hprocs, List.size_toArray, List.length_nil] at hthere
    omega

theorem addProc_eq (rt : Runtime) (p : Proc) : (rt.addProc p).2 = rt.grow [p] := by
  simp [addProc, grow]

theorem Defining.closed (h : Defining links rt) : rt.Closed := by
  induction h with
  | start hprocs htypes hglobals => exact .start hprocs htypes hglobals
  | proc _ hp ih =>
    rw [addProc_eq]
    exact ih.grow (by simpa using hp)
  | type _ hspec _ hparent ih => exact (ih.links (hspec.build hparent).2).1
  | register _ hd ih => exact ih.register hd
  | global _ hq ih => exact ih.defineGlobal hq
  | load r text _ ih => exact ih.loadWorld r text
  | run _ hsame ih => exact ih.sameCode hsame

theorem Defining.ends (h : Defining links rt) : rt.Ends ↔ ∀ l ∈ links, ¬ l.1.Ties l.2 := by
  induction h with
  | @start rt hprocs _ _ =>
    refine iff_of_true (fun q => ⟨[q], .last ?_⟩) (by simp)
    rw [overridden_proc, overridden]
    cases hid : q.id with
    | zero => rfl
    | succ i => simp [proc?, hprocs]
  | proc _ hp ih =>
    rw [← ih, addProc_eq]
    exact ends_congr (overridden_grow (by simpa using hp))
  | @type links rt spec parent _ _ _ _ ih =>
    show ((spec.build parent).2.foldl link rt).Ends ↔ _
    rw [ends_links_iff, ih, List.forall_mem_append]
  | register _ _ ih =>
    rw [← ih]
    exact ends_congr fun _ => rfl
  | global _ _ ih =>
    rw [← ih]
    exact ends_congr fun _ => rfl
  | load r text hbefore ih => rw [← ih, hbefore.closed.ends_loadWorld_iff]
  | run _ hsame ih =>
    rw [← ih]
    refine ends_congr fun id => ?_
    cases id with
    | zero => rfl
    | succ i => rw [overridden, proc?, hsame.procs, overridden, proc?]

/-- However types come about, the way from every proc to what it overrides, and on from there, comes
to an end and passes by no proc twice, unless a link was made that ties a knot while a definition
was built. For that its proc must take its own place, or must have been overridden before. Loading a
world makes no such link. -/
theorem Defining.supers_end_iff (h : Defining links rt) :
    ((∀ q, ∃ qs, rt.Supers q qs ∧ (qs.map ProcRef.id).Nodup) ↔ ∀ l ∈ links, ¬ l.1.Ties l.2) ∧
      ∀ l : Runtime × Override, l.1.Ties l.2 → l.2.overridden.id = l.2.proc.id ∨
        ∃ q q', (l.1.proc q).overridden = some q' ∧ q'.id = l.2.proc.id := by
  refine ⟨?_, fun l hties => hties.reused⟩
  rw [← h.ends]
  exact forall_congr' fun q => exists_congr fun qs => and_iff_left_of_imp Supers.nodup

/-! ### Shared procs -/

/-- Two procs and nothing else. -/
def pair : Runtime where
  procs := #[{ signature := { name := "one" }, body := .script #[] 0 },
    { signature := { name := "two" }, body := .script #[] 0 }]

def one : ProcRef := ⟨1, "one"⟩

def two : ProcRef := ⟨2, "two"⟩

theorem defining_pair : Defining [] pair := by
  have hstart : Defining [] {} := .start rfl rfl rfl
  exact .proc (.proc hstart rfl) rfl

/-- Has the first proc under two names. -/
def elder : TypeSpec where
  path := "/elder"
  procs := [("x", one), ("y", one)]

/-- Has the second proc in the place of the first. -/
def younger : TypeSpec where
  path := "/younger"
  procs := [("x", two), ("z", one)]

/-- Has one proc twice by the same name. -/
def twice : TypeSpec where
  path := "/twice"
  procs := [("x", one), ("x", one)]

theorem elder_within : elder.Within 2 := ⟨by simp [elder, one], by simp [elder]⟩

theorem younger_within : younger.Within 2 := ⟨by simp [younger, one, two], by simp [younger]⟩

theorem twice_within : twice.Within 2 := ⟨by simp [twice, one], by simp [twice]⟩

theorem younger_links : (younger.build (some (elder.build none).1)).2 = [⟨two, one⟩] := by cbv

theorem twice_links : (twice.build none).2 = [⟨one, one⟩] := by cbv

/-- Procs that stand in two types, or under two names, do no harm as long as none leads to
itself. -/
theorem shared_procs_end : ∃ rt, Defining [(pair, ⟨two, one⟩)] rt ∧ ¬ pair.Ties ⟨two, one⟩ ∧
    ∀ q, ∃ qs, rt.Supers q qs ∧ (qs.map ProcRef.id).Nodup := by
  have hdefining : Defining ([] ++ pair.trail (younger.build (some (elder.build none).1)).2) _ :=
    .type defining_pair younger_within (by simp [younger, one, two]) fun d hd => by
      cases hd
      exact (elder_within.build (by simp)).1
  rw [younger_links] at hdefining
  have hfree : ¬ pair.Ties ⟨two, one⟩ := by
    rintro ⟨_, _, qs, hqs, hmem⟩
    obtain rfl := hqs.unique (.last rfl)
    simp [one, two] at hmem
  exact ⟨_, hdefining, hfree, hdefining.supers_end_iff.1.mpr (by simpa [trail] using hfree)⟩

/-- A proc that is added twice under one name overrides itself, and the way from it has no end. -/
theorem proc_takes_own_place : ∃ links rt, Defining links rt ∧ (rt.proc one).overridden = some one ∧
    ¬ ∃ qs, rt.Supers one qs := by
  have hdefining : Defining ([] ++ pair.trail (twice.build none).2) (pair.buildType twice none).2 :=
    .type defining_pair twice_within (by simp [twice, one]) (by simp)
  have hself : ((pair.buildType twice none).2.proc one).overridden = some one := by
    show (((twice.build none).2.foldl link pair).proc one).overridden = some one
    rw [twice_links]
    rfl
  refine ⟨_, _, hdefining, hself, fun ⟨qs, hqs⟩ => ?_⟩
  cases hqs with
  | last hlast => cases hlast.symm.trans hself
  | next hnext hrest =>
    cases hnext.symm.trans hself
    exact (List.nodup_cons.mp (Supers.next hself hrest).nodup).1
      (List.mem_map_of_mem (List.mem_of_mem_head? hrest.head?))

end Runtime

end ProcEngine
