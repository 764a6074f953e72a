import ProcEngine.Proofs.Context.Upkeep
/-!
# Faults and their reports

A report is made when a context ends with a fault and at no other time, and it lists the stack at
that moment: for the innermost activation the instruction that it executes, for each of the others
the one that has called. While contexts run in whatever nesting, the reports that are told are those
of the contexts that stop with a fault, one each and in the same order (`Reporting`).
-/

namespace ProcEngine

/-! ### The lines of a report -/

/-- The line for an activation that is about to take a step. -/
def Activation.upcoming (a : Activation) : TraceLine where
  proc := a.proc.name
  position := match a.frame with
    | .script f => .instruction f.position
    | .handler _ => .native
    | .routine _ => .suspendable

/-- The line for the activation that takes the step. -/
def Moment.line? (m : Moment) : Option TraceLine := m.context.stack.head?.map Activation.upcoming

theorem Activation.proc_of_origin {a b : Activation} (h : b.origin = a.origin) : b.proc = a.proc :=
  congrArg (fun o : ContextId × ProcRef × Signature × Invocation => o.2.1) h

namespace Moment

variable {m : Moment} {top a callee : Activation} {callers : List Activation}

/-- A caller is listed with the instruction that has called. -/
theorem IsCall.line (hcall : m.IsCall a callee callers) : m.line? = some a.traceLine := by
  obtain ⟨top, hstack⟩ := hcall.stack
  obtain ⟨rt, hreport⟩ := hcall.report
  have hleaves := leaves_of_report hstack hreport
  have hproc : a.proc = top.proc :=
    Activation.proc_of_origin (hleaves.origin.trans (Activation.fetch_origin top))
  rw [line?, hstack, List.head?_cons, Option.map_some, Activation.upcoming,
    Activation.traceLine, hproc, Activation.position]
  cases hframe : top.frame with
  | script f =>
    obtain ⟨_, i, k, _, _, _, rfl⟩ := hcall.script hstack hframe
    rfl
  | handler run =>
    rw [Activation.fetch, hframe] at hleaves
    cases hleaves with
    | callsScript hframe' => cases hframe.symm.trans hframe'
    | callsRoutine hframe' => cases hframe.symm.trans hframe'
  | routine f =>
    rw [Activation.fetch, hframe] at hleaves
    cases hleaves with
    | callsScript hframe' => cases hframe.symm.trans hframe'
    | callsRoutine => rfl

/-- A script raises a fault when it binds its arguments or executes an instruction. -/
theorem raised_script (hstack : m.context.stack = top :: callers) {f : ScriptFrame}
    (hframe : top.frame = .script f)
    {why : Fault} {rt : Runtime} (hreport : m.report = .fault why rt) :
    (f.locals = none ∧ top.fetch.2 = top) ∨ f.locals.isSome ∧ ∃ i, f.code[f.position]? = some i ∧
      top.fetch.2 = top.withFrame (.script { f with position := f.position + 1 }) := by
  rw [report_eq hstack] at hreport
  cases hlocals : f.locals with
  | none => exact Or.inl ⟨rfl, by simp [Activation.fetch, hframe, hlocals]⟩
  | some slots =>
    refine Or.inr ⟨rfl, ?_⟩
    cases hcode : f.code[f.position]? with
    | none =>
      rw [Evaluator.step_fetch_script hframe] at hreport
      simp [hlocals, hcode] at hreport
    | some i =>
      exact ⟨i, rfl,
        by simp [Activation.fetch, ScriptFrame.fetch, Activation.withFrame, hframe, hlocals, hcode]⟩

/-- What is listed of the innermost activation when the context ends with a fault. -/
theorem Faults.line (hstack : m.context.stack = top :: callers)
    (hunbound : ∀ f, top.frame = .script f → f.locals = none → f.position = 0)
    {shown : List Activation} {why : Fault} {rt : Runtime} (h : m.Faults top callers shown why rt) :
    ∃ a, shown = a :: callers ∧ a.proc = top.proc ∧ m.line? = some a.traceLine := by
  cases h with
  | refused hreport _ =>
    have hcall : m.IsCall _ _ callers := ⟨⟨top, hstack⟩, _, hreport⟩
    have horigin := (leaves_of_report hstack hreport).origin.trans (Activation.fetch_origin top)
    exact ⟨_, rfl, Activation.proc_of_origin horigin, hcall.line⟩
  | raised hreport =>
    have hproc : top.fetch.2.proc = top.proc :=
      Activation.proc_of_origin (Activation.fetch_origin top)
    refine ⟨_, rfl, hproc, ?_⟩
    rw [line?, hstack, List.head?_cons, Option.map_some, Activation.upcoming,
      Activation.traceLine, hproc]
    cases hframe : top.frame with
    | script f =>
      obtain ⟨hlocals, hfetch⟩ | ⟨_, i, _, hfetch⟩ := raised_script hstack hframe hreport
      · simp [hfetch, Activation.position, hframe, hunbound f hframe hlocals]
      · rw [hfetch]
        rfl
    | handler run => simp [Activation.fetch, Activation.position, hframe]
    | routine f => simp [Activation.fetch, Activation.position, hframe]

/-- A fault ends the context that it arises in. -/
theorem Faults.outcome (hstack : m.context.stack = top :: callers)
    (hown : top.context = m.context.id)
    {shown : List Activation} {why : Fault} {rt : Runtime} (h : m.Faults top callers shown why rt) :
    m.outcome = .ok (.stopped .null { m.context with stack := [], state := .faulted why })
      (rt.tell (.fault m.context.id why (shown.map Activation.traceLine))) := by
  simp only [Moment.outcome, Context.step, hstack]
  rw [← report_eq hstack]
  cases h with
  | raised hreport =>
    rw [hreport]
    rfl
  | refused hreport hdepth =>
    have hd := (own_of_report hstack hown hreport).2 _ rfl
    simp only [hreport, Context.proceed, Context.push, hd, ne_eq, not_true_eq_false, if_false,
      List.length_cons]
    rw [if_pos hdepth]
    rfl

end Moment

theorem Pending.lines {callers : List Activation} {past calls : List Moment}
    (h : Pending callers past calls) :
    calls.map Moment.line? = callers.map fun a => some a.traceLine := by
  induction h with
  | none => rfl
  | call during _ hcall _ ih => rw [List.map_cons, List.map_cons, ih, hcall.line]

/-! ### What a report says -/

/-- A report made at a moment at which the context ends with a fault, of `top` and the `callers`,
who have called at the moments `calls`. -/
structure Report (past : List Moment) (m : Moment) (top : Activation) (callers : List Activation)
    (calls : List Moment) (why : Fault) (trace : List TraceLine) : Prop where
  course : Course past m.context
  unfinished : ¬ m.context.isFinished
  stack : m.context.stack = top :: callers
  faults : ∃ shown rt, m.Faults top callers shown why rt
  pending : Pending callers past calls
  /-- Every activation has its entry, the innermost first. -/
  procs : trace.map TraceLine.proc = m.context.stack.map fun a => a.proc.name
  /-- An entry says what its activation was executing. -/
  lines : trace.map some = (m :: calls).map Moment.line?
  /-- A script that raises the fault has an instruction there, or is at its start and has not bound
  its arguments. -/
  innermost : ∀ f, top.frame = .script f →
    (f.locals = none ∧ f.position = 0) ∨ f.locals.isSome ∧ ∃ i, f.code[f.position]? = some i
  /-- The others have a call there. -/
  outer : ∀ m' ∈ calls, ∀ top' callers' f, m'.context.stack = top' :: callers' →
    top'.frame = .script f →
    ∃ i, f.code[f.position]? = some i ∧ i.taken?.isSome

/-- What a report of a context may say. One that may not hold any activation is reported with
none. -/
inductive Reported : ContextId → Fault → List TraceLine → Prop
  | refused (rt : Runtime) : rt.maxDepth = 0 → Reported (rt.contexts + 1)
    (.stackOverflow rt.maxDepth) []
  | faulted {past : List Moment} {m : Moment} {top : Activation} {callers : List Activation}
    {calls : List Moment}
    {why : Fault} {trace : List TraceLine} : Report past m top callers calls why trace →
      Reported m.context.id why trace

theorem Pending.outer {callers : List Activation} {past calls : List Moment}
    (h : Pending callers past calls)
    {m : Moment} (hm : m ∈ calls) {top : Activation} {callers' : List Activation} {f : ScriptFrame}
    (hstack : m.context.stack = top :: callers') (hframe : top.frame = .script f) :
    ∃ i, f.code[f.position]? = some i ∧ i.taken?.isSome := by
  induction h with
  | none => cases hm
  | call during _ hcall _ ih =>
    obtain rfl | hm := List.mem_cons.mp hm
    · obtain ⟨top', hstack'⟩ := hcall.stack
      obtain ⟨rfl, rfl⟩ := List.cons.inj (hstack.symm.trans hstack')
      obtain ⟨_, i, k, hcode, htaken, _⟩ := hcall.script hstack hframe
      exact ⟨i, hcode, by rw [htaken]; rfl⟩
    · exact ih hm

theorem Course.report {past : List Moment} {m : Moment} (h : Course past m.context)
    (hunfinished : ¬ m.context.isFinished) {top : Activation} {callers : List Activation}
    (hstack : m.context.stack = top :: callers) {shown : List Activation} {why : Fault}
    {rt : Runtime} (hfaults : m.Faults top callers shown why rt) :
    ∃ calls, Report past m top callers calls why (shown.map Activation.traceLine) := by
  have hunbound := h.coherent.unbound top (by rw [hstack]; exact List.mem_cons_self)
  obtain ⟨calls, hpending⟩ := h.coherent.pending
  rw [hstack, List.tail_cons] at hpending
  obtain ⟨a, rfl, hproc, hline⟩ := hfaults.line hstack hunbound
  refine ⟨calls, {
    course := h
    unfinished := hunfinished
    stack := hstack
    faults := ⟨_, rt, hfaults⟩
    pending := hpending
    procs := ?_
    lines := ?_
    innermost := fun f hframe => ?_
    outer := fun m' hm' top' callers' f => hpending.outer hm' }⟩
  · rw [hstack, List.map_map, List.map_cons, List.map_cons]
    simp only [Function.comp_apply, Activation.traceLine, hproc]
    rfl
  · rw [List.map_cons, List.map_cons, List.map_cons, hline, hpending.lines, List.map_map]
    rfl
  · cases hfaults with
    | raised hreport =>
      obtain ⟨hlocals, _⟩ | ⟨hlocals, i, hcode, _⟩ := Moment.raised_script hstack hframe hreport
      · exact Or.inl ⟨hlocals, hunbound f hframe hlocals⟩
      · exact Or.inr ⟨hlocals, i, hcode⟩
    | refused hreport _ =>
      have hcall : m.IsCall _ _ callers := ⟨⟨top, hstack⟩, _, hreport⟩
      obtain ⟨hlocals, i, k, hcode, _⟩ := hcall.script hstack hframe
      exact Or.inr ⟨hlocals, i, hcode⟩

/-! ### What is told while contexts run -/

/-- Of whom and of what an event reports, if it is a report. -/
def Event.report? : Event → Option (ContextId × Fault)
  | .fault id why _ => some (id, why)
  | _ => none

/-- What is told between two states of a runtime: a report of each context that stops with a fault,
in the order in which they stop, and no other report. -/
def Tells (rt rt' : Runtime) : Prop :=
  ∃ (log : List Milestone) (events : List Event), rt'.chronicle = log ++ rt.chronicle ∧
    rt'.store.journal.toList = rt.store.journal.toList ++ events ∧
    events.filterMap Event.report? = log.reverse.filterMap Milestone.fault? ∧
    ∀ id why trace, .fault id why trace ∈ events → Reported id why trace

namespace Tells

variable {rt rt' rt'' : Runtime}

theorem of_eq (hchronicle : rt'.chronicle = rt.chronicle) (hnotes : rt.store.Notes rt'.store) :
    Tells rt rt' := by
  obtain ⟨notes, hjournal, hnotes⟩ := hnotes
  refine ⟨[], notes, hchronicle, hjournal, ?_, fun id why trace hmem =>
    absurd (hnotes _ hmem) Bool.noConfusion⟩
  refine List.filterMap_eq_nil_iff.mpr fun e he => ?_
  have hreport := hnotes e he
  cases e with
  | fault => cases hreport
  | _ => rfl

theorem refl (rt : Runtime) : Tells rt rt := of_eq rfl (Store.Notes.refl _)

theorem trans (h : Tells rt rt') (h' : Tells rt' rt'') : Tells rt rt'' := by
  obtain ⟨log, events, hlog, hevents, hsame, hreported⟩ := h
  obtain ⟨log', events', hlog', hevents', hsame', hreported'⟩ := h'
  refine ⟨log' ++ log, events ++ events', by rw [hlog', hlog, List.append_assoc],
    by rw [hevents', hevents, List.append_assoc], ?_, fun id why trace hmem => ?_⟩
  · rw [List.filterMap_append, hsame, hsame', List.reverse_append, List.filterMap_append]
  · exact (List.mem_append.mp hmem).elim (hreported id why trace) (hreported' id why trace)

theorem record (rt : Runtime) {m : Milestone} (hm : m.fault? = none) : Tells rt (rt.record m) :=
  ⟨[m], [], rfl, by simp [Runtime.record], by simp [hm], by simp⟩

instance : Std.Refl Tells := ⟨refl⟩

instance : Trans Tells Tells Tells := ⟨trans⟩

/-- The report of a context, and then its end. -/
theorem report {id : ContextId} {why : Fault} {trace : List TraceLine} (h : Reported id why trace)
    (rt : Runtime) :
    Tells rt ((rt.tell (.fault id why trace)).record (.stopped id (.faulted why))) := by
  refine ⟨[.stopped id (.faulted why)], [.fault id why trace], rfl,
    by simp [Runtime.record, Runtime.tell], rfl, ?_⟩
  intro id' why' trace' hmem
  cases List.mem_singleton.mp hmem
  exact h

theorem upkept : Upkept Tells where
  carried := {
    store := fun rt s hworked => of_eq rfl hworked.notes
    activate := fun rt p id i => by
      simp only [Runtime.activate]
      cases (rt.proc p).mark with
      | none => exact refl rt
      | some label => exact of_eq rfl (Store.Notes.refl _) }
  recorded rt m hm := record rt hm
  created rt := record { rt with contexts := rt.contexts + 1 } (m := .created (rt.contexts + 1)) rfl
  refused rt p i hdepth h := h.trans (report (.refused rt hdepth) _)
  faulted hcourse hunfinished hstack hfaults h := by
    obtain ⟨calls, hreport⟩ := hcourse.report hunfinished hstack hfaults
    exact h.trans (report (.faulted hreport) _)
  detached rt c _ := of_eq rfl (Store.Notes.refl _)
  vacated rt := of_eq rfl (Store.Notes.refl _)

end Tells

/-- What holds of a runtime and one that comes of running something in it. -/
structure Reporting (rt rt' : Runtime) : Prop where
  tells : Tells rt rt'
  detached : (∀ c ∈ rt.detached, c.UnderWay) → ∀ c ∈ rt'.detached, c.UnderWay

namespace Reporting

variable {rt rt' rt'' : Runtime}

theorem refl (rt : Runtime) : Reporting rt rt := ⟨Tells.refl rt, id⟩

theorem trans (h : Reporting rt rt') (h' : Reporting rt' rt'') : Reporting rt rt'' :=
  ⟨h.tells.trans h'.tells, fun hd => h'.detached (h.detached hd)⟩

instance : Std.Refl Reporting := ⟨refl⟩

instance : Trans Reporting Reporting Reporting := ⟨trans⟩

theorem of_tells (htells : Tells rt rt') (hdetached : rt'.detached = rt.detached) :
    Reporting rt rt' :=
  ⟨htells, fun hd => hdetached ▸ hd⟩

theorem upkept : Upkept Reporting where
  carried := {
    store := fun rt s hworked => of_tells (Tells.upkept.carried.store rt s hworked) rfl
    activate := fun rt p id i => by
      refine of_tells (Tells.upkept.carried.activate rt p id i) ?_
      simp only [Runtime.activate]
      split <;> rfl }
  recorded rt m hm := of_tells (.record rt hm) rfl
  created rt := of_tells (Tells.upkept.created rt) rfl
  refused rt p i hdepth h := ⟨Tells.upkept.refused rt p i hdepth h.tells, h.detached⟩
  faulted hcourse hunfinished hstack hfaults h :=
    ⟨Tells.upkept.faulted hcourse hunfinished hstack hfaults h.tells, h.detached⟩
  detached rt c hunder := by
    refine ⟨Tells.upkept.detached rt c hunder, fun hd c' hc' => ?_⟩
    obtain hc' | rfl := Array.mem_push.mp hc'
    · exact hd c' hc'
    · exact hunder
  vacated rt := ⟨Tells.upkept.vacated rt, fun _ c hc => by simp at hc⟩

end Reporting

/-- How a run ends that ends with a fault: the last thing that happens is the report. -/
theorem Context.run_faulted {n : Nat} {c c' : Context} {rt rt' : Runtime} {v : Value} {why : Fault}
    (hunder : c.UnderWay) (hrun : run n c rt = .ok (v, c') rt') (hstate : c'.state = .faulted why) :
    v = .null ∧ c'.stack = [] ∧ ∃ rt₁ past m top callers calls trace, m.context.id = c'.id ∧
      Report past m top callers calls why trace ∧ Reporting rt rt₁ ∧
      rt' = rt₁.tell (.fault c'.id why trace) := by
  have hR := Reporting.upkept
  obtain ⟨hunfinished, past, hcourse⟩ := hunder
  obtain ⟨m, later, hcourse', hunfinished', hstop, hreporting⟩ := hR.course hcourse hunfinished hrun
  obtain ⟨top, callers, hstack, hmoves⟩ := hcourse'.coherent.moves hunfinished' hstop
  cases hmoves with
  | ends => cases hstate
  | defers => cases hstate
  | @faults shown why' rt₁ hfaults =>
    cases hstate
    obtain ⟨calls, hreport⟩ := hcourse'.report hunfinished' hstack hfaults
    have hraised : Reporting m.runtime rt₁ := hR.of_faults (hR.run m.fuel) hstack hfaults
    exact ⟨rfl, rfl, rt₁, _, m, top, callers, calls, _, rfl, hreport, hreporting.trans hraised, rfl⟩

end ProcEngine
