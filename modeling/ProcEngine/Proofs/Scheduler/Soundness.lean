import ProcEngine.Proofs.Context.Levels
import ProcEngine.Proofs.Scheduler.Tending
/-!
# Well-formed code does not fail as malformed

A proc is well-formed if there is an account of its operands (`Heights`). Every activation of it
stays on its level in whatever context it is, so an instruction of it never lacks an operand or a
slot. It can only fail for malformed code if a hook fails so that its object asks, and if no hook
does that, whoever is to blame executes other code.
-/

namespace ProcEngine

/-- A script whose operands can be accounted for. -/
def Proc.WellFormed (p : Proc) : Prop :=
  ∃ code locals height, p.body = .script code locals ∧
    Heights code (p.signature.params.length + locals.toNat) height

/-- Executes the code of the script `p` under its signature. -/
structure Activation.IsOf (p : Proc) (a : Activation) : Prop where
  signature : a.signature = p.signature
  frame : ∃ f locals, a.frame = .script f ∧ p.body = .script f.code locals ∧ f.extra = locals

namespace Activation.IsOf

variable {p : Proc} {a b : Activation} {signal : Signal} {rt rt' : Runtime}

theorem activate {r : ProcRef} (hp : (rt.proc r).WellFormed) (id : ContextId) (i : Invocation) :
    (rt.activate r id i).1.IsOf (rt.proc r) := by
  obtain ⟨code, locals, height, hbody, _⟩ := hp
  refine ⟨rfl, { code, extra := locals }, locals, ?_, hbody, rfl⟩
  show (rt.proc r).body.frame = _
  rw [hbody]
  rfl

theorem step (h : a.IsOf p) {fuel : Nat} {drive : Drive}
    (hstep : a.fetch.2.step fuel drive a.fetch.1 rt = .ok (b, signal) rt')
    (hsignal : signal ≠ .returned) :
    b.IsOf p := by
  obtain ⟨f, locals, hframe, hbody, hextra⟩ := h.frame
  have hsteps := step_script hframe fuel drive rt
  rw [hstep] at hsteps
  obtain ⟨hsignature, f', hframe', hcode, hextra', _⟩ := hsteps hsignal
  exact ⟨hsignature.trans h.signature, f', locals, hframe', hcode ▸ hbody, hextra'.trans hextra⟩

theorem receive (h : a.IsOf p) (v : Value) : (a.receive v).IsOf p := by
  obtain ⟨f, locals, hframe, hbody, hextra⟩ := h.frame
  simp only [Activation.receive, hframe]
  exact ⟨h.signature, f.receive v, locals, rfl, hbody, hextra⟩

/-- Whoever is on its level and executes well-formed code does not fail for malformed code by
itself. -/
theorem step_fault (h : a.IsOf p) (hp : p.WellFormed) (hlevel : a.OnLevel 0) {fuel : Nat}
    {drive : Drive} {e : Fault}
    (hstep : a.fetch.2.step fuel drive a.fetch.1 rt = .fault e rt') : e.isMalformed = false ∨
    rt.Denies fuel e rt' := by
  obtain ⟨code, locals, height, hbody, hheights⟩ := hp
  obtain ⟨f, locals', hframe, hbody', hextra⟩ := h.frame
  cases hbody.symm.trans hbody'
  rw [← h.signature, ← hextra] at hheights
  have hsteps := step_script hframe fuel drive rt
  rw [hstep] at hsteps
  exact hsteps height _ hheights (hlevel f height _ hframe hheights (Nat.le_refl _))

end Activation.IsOf

/-- What activations of a proc are from the first step to the last, and that none of them is to
blame for a fault of malformed code. -/
structure Proc.Sound (p : Proc) : Prop where
  activated : ∀ (rt : Runtime) r id i, rt.proc r = p → (rt.activate r id i).1.IsOf p
  stepped : ∀ (m : Moment) top callers a signal rt, m.context.stack = top :: callers → top.IsOf p →
    m.report = .ok (a, signal) rt → signal ≠ .returned → a.IsOf p
  received : ∀ (a : Activation) v, a.IsOf p → (a.receive v).IsOf p
  /-- If it fails so all the same, that is what it has got from the object table, where a hook has
  failed so. -/
  innocent : ∀ past (m : Moment) top callers why rt, Course past m.context →
    m.context.stack = top :: callers →
    top.IsOf p → m.report = .fault why rt → why.isMalformed →
    m.runtime.Denies m.fuel why rt ∧ ¬ m.runtime.objects.Blameless

theorem Proc.WellFormed.sound {p : Proc} (hp : p.WellFormed) : p.Sound where
  activated rt r id i hr := by
    subst hr
    exact .activate hp id i
  stepped m top callers a signal rt hstack hof hreport hsignal := by
    rw [Moment.report_eq hstack] at hreport
    exact hof.step hreport hsignal
  received a v hof := hof.receive v
  innocent past m top callers why rt hcourse hstack hof hreport hmalformed := by
    rw [Moment.report_eq hstack] at hreport
    obtain hinnocent | hdenies := hof.step_fault hp (hcourse.levels.top top callers hstack) hreport
    · rw [hmalformed] at hinnocent
      cases hinnocent
    · refine ⟨hdenies, fun hblameless => ?_⟩
      rw [hdenies.innocent hblameless] at hmalformed
      cases hmalformed

/-! ### Whom a host may blame -/

/-- At some time after `rt` a context has failed in the course of its steps, because its innermost
activation has. -/
inductive Runtime.Sees (rt : Runtime) : ContextId → Fault → Prop
  | raised {past : List Moment} {m : Moment} {top : Activation} {callers : List Activation}
    {why : Fault} {rt' : Runtime} : Course past m.context → m.context.stack = top :: callers →
      m.report = .fault why rt' →
    rt.objects.Evolves m.runtime.objects → rt.Sees m.context.id why

/-- What holds of a runtime and one that comes of running something in it: all contexts that have
failed for malformed code meanwhile have been seen to. -/
structure Witnesses (rt rt' : Runtime) : Prop where
  evolves : rt.objects.Evolves rt'.objects
  seen : ∃ log, rt'.chronicle = log ++ rt.chronicle ∧
    ∀ id why, .stopped id (.faulted why) ∈ log → why.isMalformed → rt.Sees id why

namespace Witnesses

variable {rt rt' rt'' : Runtime}

theorem of_chronicle (hevolves : rt.objects.Evolves rt'.objects)
    (hchronicle : rt'.chronicle = rt.chronicle) :
    Witnesses rt rt' := ⟨hevolves, [], hchronicle, fun id why h => by cases h⟩

theorem refl (rt : Runtime) : Witnesses rt rt := of_chronicle .refl rfl

theorem trans (h : Witnesses rt rt') (h' : Witnesses rt' rt'') : Witnesses rt rt'' := by
  obtain ⟨log, hlog, hseen⟩ := h.seen
  obtain ⟨log', hlog', hseen'⟩ := h'.seen
  refine ⟨h.evolves.trans h'.evolves, log' ++ log, by rw [hlog', hlog, List.append_assoc],
    fun id why hm hwhy => ?_⟩
  obtain hm | hm := List.mem_append.mp hm
  · obtain ⟨hcourse, hstack, hreport, hevolves⟩ := hseen' id why hm hwhy
    exact .raised hcourse hstack hreport (h.evolves.trans hevolves)
  · exact hseen id why hm hwhy

instance : Std.Refl Witnesses := ⟨refl⟩

instance : Trans Witnesses Witnesses Witnesses := ⟨trans⟩

/-- One more milestone, of a context that has been seen to fail if it has failed for malformed
code. -/
theorem record (h : Witnesses rt rt') {m : Milestone}
    (hm : ∀ id why, m = .stopped id (.faulted why) → why.isMalformed → rt.Sees id why) :
    Witnesses rt (rt'.record m) := by
  obtain ⟨log, hlog, hseen⟩ := h.seen
  refine ⟨h.evolves, m :: log, congrArg (m :: ·) hlog, fun id why hmem hwhy => ?_⟩
  obtain rfl | hmem := List.mem_cons.mp hmem
  · exact hm id why rfl hwhy
  · exact hseen id why hmem hwhy

theorem of_fault? {m : Milestone} (hm : m.fault? = none) (h : Witnesses rt rt') :
    Witnesses rt (rt'.record m) := by
  refine h.record fun id why heq => ?_
  subst heq
  cases hm

theorem upkept : Upkept Witnesses where
  carried := {
    store := fun rt s hworked => of_chronicle hworked.evolves rfl
    activate := fun rt p id i => by
      simp only [Runtime.activate]
      split
      · exact of_chronicle .refl rfl
      · exact refl rt }
  recorded rt m hm := (refl rt).of_fault? hm
  created rt := by
    have hcounted : Witnesses rt { rt with contexts := rt.contexts + 1 } := of_chronicle .refl rfl
    exact hcounted.of_fault? (m := .created (rt.contexts + 1)) rfl
  refused rt p i hdepth h := by
    have htold :
        Witnesses rt
          ((rt.opened p i).2.tell (.fault (rt.contexts + 1) (.stackOverflow rt.maxDepth) [])) :=
      h.trans (of_chronicle .refl rfl)
    refine htold.record fun id why heq hwhy => ?_
    cases heq
    cases hwhy
  faulted {past m top callers shown why rt} hcourse hunfinished hstack hfaults h := by
    have htold :
        Witnesses m.runtime (rt.tell (.fault m.context.id why (shown.map Activation.traceLine))) :=
      h.trans (of_chronicle .refl rfl)
    refine htold.record fun id why heq hwhy => ?_
    cases heq
    cases hfaults with
    | raised hreport => exact .raised hcourse hstack hreport .refl
    | refused => cases hwhy
  detached rt c _ := of_chronicle .refl rfl
  vacated rt := of_chronicle .refl rfl

end Witnesses

namespace Host

variable {h h' : Host} {episodes : List Episode}

/-- Well-formed code is sound in all contexts, which are those that a host holds and those that it
runs to their end. If no hook claims that code is malformed, then whenever a context fails for that
reason it is another than well-formed code that it has failed in. -/
theorem Runs.well_formed_code_is_sound (hfresh : h.IsFresh) (hruns : h.Runs episodes h') :
    (∀ p : Proc, p.WellFormed → p.Sound) ∧
    (∀ c ∈ h'.held, c.UnderWay) ∧
    (h.runtime.objects.Blameless →
    ∀ id why, .stopped id (.faulted why) ∈ episodes.flatMap Episode.deeds →
      why.isMalformed → ∃ past, ∃ m : Moment, ∃ top callers rt, m.context.id = id ∧
        Course past m.context ∧
        m.context.stack = top :: callers ∧ m.report = .fault why rt ∧ ∀ p : Proc, p.WellFormed →
          ¬ top.IsOf p) := by
  have htending := (hfresh.tending Witnesses).runs Witnesses.upkept hruns
  refine ⟨fun p hp => hp.sound, fun c hc => underWay_of_held htending hc,
    fun hblameless id why hm hwhy => ?_⟩
  obtain ⟨log, hlog, hseen⟩ := htending.since.seen
  have hdeeds : log = (episodes.flatMap Episode.deeds).reverse := by
    rw [hruns.chronicle hfresh.inOrder] at hlog
    exact (List.append_cancel_right hlog).symm
  obtain ⟨hcourse, hstack, hreport, hevolves⟩ :=
    hseen id why (hdeeds ▸ List.mem_reverse.mpr hm) hwhy
  refine ⟨_, _, _, _, _, rfl, hcourse, hstack, hreport, fun p hp hof => ?_⟩
  exact (hp.sound.innocent _ _ _ _ _ _ hcourse hstack hof hreport hwhy).2
    (hevolves.blameless hblameless)

/-- A host with a proc that loops, sleeps and calls one that takes an operand that it does not
have. -/
def looping : Host where
  runtime := {
    procs := #[
      { signature := { name := "main", params := ["n"] }
        body :=
          .script #[.getLocal 0, .jumpIfFalse 8, .push (.int 1), .sleep, .getLocal 0,
            .call "step" 1,
          .setLocal 1, .jump 0, .ret] 1 },
      { signature := { name := "step", params := ["n"] }, body := .script #[.pop] 0 }]
    globals := (∅ : Names ProcRef).insert "step" ⟨2, "step"⟩ }

theorem looping_main_innocent : ∃ episodes h', looping.Runs episodes h' ∧
    (looping.runtime.proc ⟨1, "main"⟩).WellFormed ∧ looping.runtime.objects.Blameless ∧
    episodes.flatMap Episode.deeds = [.created 1, .stopped 1 (.deferred (.ticks 1)), .filed 1 1,
      .ticked 1, .resumed 1, .stopped 1 (.faulted (.malformedCode (.underflow 0)))] ∧
    ∃ past, ∃ m : Moment, ∃ top callers rt, Course past m.context ∧
      m.context.stack = top :: callers ∧
      m.report = .fault (.malformedCode (.underflow 0)) rt ∧
      ¬ top.IsOf (looping.runtime.proc ⟨1, "main"⟩) := by
  have hperforms :
      ((looping.performAll 20 [.callAsync ⟨1, "main"⟩
        { arguments := { positional := [.int 3] } } none,
      .tick]).map fun q => q.1.flatMap Episode.deeds) =
        some [.created 1, .stopped 1 (.deferred (.ticks 1)),
        .filed 1 1, .ticked 1, .resumed 1,
          .stopped 1 (.faulted (.malformedCode (.underflow 0)))] := by decide +kernel
  have hmain : (looping.runtime.proc ⟨1, "main"⟩).WellFormed :=
    ⟨_, 1, fun p => [0, 1, 0, 1, 0, 1, 1, 0, 0][p]?, rfl, by decide⟩
  have hblameless : looping.runtime.objects.Blameless := .empty
  obtain ⟨⟨episodes, h'⟩, hperform, hdeeds⟩ := Option.map_eq_some_iff.mp hperforms
  have hruns := runs_of_performAll hperform
  obtain ⟨_, _, hblames⟩ := Runs.well_formed_code_is_sound ⟨rfl, rfl, rfl⟩ hruns
  obtain ⟨past, m, top, callers, rt, _, hcourse, hstack, hreport, hof⟩ :=
    hblames hblameless 1 (.malformedCode (.underflow 0)) (by rw [hdeeds]; decide) rfl
  exact ⟨episodes, h', hruns, hmain, hblameless, hdeeds, past, m, top, callers, rt, hcourse,
    hstack, hreport, hof _ hmain⟩

end Host

end ProcEngine
