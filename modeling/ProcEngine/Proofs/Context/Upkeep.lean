import ProcEngine.Proofs.Context.Course
import ProcEngine.Proofs.Scheduler.Bookkeeping
/-!
# What running contexts upholds

A context that runs makes others run, which host code starts in it, and so on. A relation between
runtimes that is kept by each thing that happens on the way, whichever context it happens to, is
`Upkept`; it holds between the runtime in which any context is driven and the one in which it has
stopped.
-/

namespace ProcEngine

/-- Whether a context has come about by steps and is not finished. -/
def Context.UnderWay (c : Context) : Prop := ¬ c.isFinished ∧ ∃ past, Course past c

/-- Who has stopped with what fault. -/
def Milestone.fault? : Milestone → Option (ContextId × Fault)
  | .stopped id (.faulted why) => some (id, why)
  | _ => none

theorem Runtime.opened_underWay {rt : Runtime} (hdepth : rt.maxDepth ≠ 0) (p : ProcRef)
    (i : Invocation) :
    (rt.opened p i).1.UnderWay := ⟨Bool.false_ne_true, [], .opened rt p i hdepth⟩

/-- A relation between runtimes that holds of whatever is done by contexts and by those who drive
them. -/
structure Upkept (R : Runtime → Runtime → Prop) : Prop where
  carried : Carried R
  recorded : ∀ (rt : Runtime) (m : Milestone), m.fault? = none → R rt (rt.record m)
  created : ∀ rt : Runtime, R rt rt.newContext.2
  refused : ∀ (rt : Runtime) p i, rt.maxDepth = 0 → R rt (rt.opened p i).2 → R rt (rt.refused p i)
  faulted :
    ∀ {past : List Moment} {m : Moment} {top : Activation} {callers shown : List Activation}
      {why : Fault}
    {rt : Runtime}, Course past m.context → ¬ m.context.isFinished →
      m.context.stack = top :: callers →
    m.Faults top callers shown why rt → R m.runtime rt →
    R m.runtime ((rt.tell (.fault m.context.id why (shown.map Activation.traceLine))).record
      (.stopped m.context.id (.faulted why)))
  detached : ∀ (rt : Runtime) (c : Context), c.UnderWay → R rt (rt.detach c)
  vacated : ∀ rt : Runtime, R rt { rt with detached := #[] }

/-- Takes the context that it is given further, and upholds the relation up to the record of its
stop. -/
def Drive.Upholds (R : Runtime → Runtime → Prop) (drive : Drive) : Prop :=
  ∀ c rt, c.UnderWay → (drive c rt).Gives fun q rt' =>
    (∃ past, Course past q.2) ∧ R rt (rt'.record (.stopped q.2.id q.2.state))

namespace Upkept

variable {R : Runtime → Runtime → Prop} [Std.Refl R] [Trans R R R] (hR : Upkept R)
include hR

omit [Std.Refl R] in
theorem opened (rt : Runtime) (p : ProcRef) (i : Invocation) : R rt (rt.opened p i).2 :=
  Trans.trans (hR.created rt) (hR.carried.activate rt.newContext.2 p rt.newContext.1.id i)

omit [Std.Refl R] in
theorem of_refused {rt : Runtime} (hdepth : rt.maxDepth = 0) (p : ProcRef) (i : Invocation) :
    R rt (rt.refused p i) :=
  hR.refused rt p i hdepth (hR.opened rt p i)

omit [Std.Refl R] in
theorem callWith {drive : Drive} (hdrive : drive.Upholds R) (p : ProcRef) (i : Invocation) :
    Act.Preserves R (Runtime.callWith drive p i) := by
  refine Runtime.preserves_callWith (fun rt hdepth => hR.of_refused hdepth p i) fun rt hdepth => ?_
  have hgives := hdrive _ (rt.opened p i).2 (Runtime.opened_underWay hdepth p i)
  refine hgives.mono fun q rt' ⟨hcourse, hstopped⟩ => ?_
  have hstopped := Trans.trans (hR.opened rt p i) hstopped
  rw [Runtime.leave]
  split
  · exact hstopped
  · rename_i hunfinished
    exact Trans.trans hstopped (hR.detached _ q.2 ⟨hunfinished, hcourse⟩)

section Drive

variable {past : List Moment} {m : Moment} (hdrive : Drive.Upholds R (Context.run m.fuel))
include hdrive

theorem of_report {top : Activation} {callers : List Activation}
    (hstack : m.context.stack = top :: callers)
    {rt : Runtime} (h : m.report.state? = some rt) : R m.runtime rt := by
  rw [Moment.report_eq hstack] at h
  exact hR.carried.step (hR.callWith hdrive) m.fuel _ _ m.runtime rt h

theorem of_faults {top : Activation} {callers shown : List Activation} {why : Fault} {rt : Runtime}
    (hstack : m.context.stack = top :: callers) (hfaults : m.Faults top callers shown why rt) :
    R m.runtime rt := by
  cases hfaults with
  | raised hreport | refused hreport => exact hR.of_report hdrive hstack (by rw [hreport]; rfl)

theorem of_running (hcourse : Course past m.context) (hunfinished : ¬ m.context.isFinished)
    {c : Context} {rt : Runtime} (h : m.outcome = .ok (.running c) rt) : R m.runtime rt := by
  obtain ⟨top, callers, hstack, hmoves⟩ := hcourse.coherent.moves hunfinished h
  cases hmoves with
  | works hreport | returns hreport | calls hreport =>
    exact hR.of_report hdrive hstack (by rw [hreport]; rfl)

theorem of_stopped (hcourse : Course past m.context) (hunfinished : ¬ m.context.isFinished)
    {v : Value} {c : Context} {rt : Runtime} (h : m.outcome = .ok (.stopped v c) rt) :
    R m.runtime (rt.record (.stopped c.id c.state)) := by
  obtain ⟨top, callers, hstack, hmoves⟩ := hcourse.coherent.moves hunfinished h
  cases hmoves with
  | ends hreport | defers hreport =>
    exact Trans.trans (hR.of_report hdrive hstack (by rw [hreport]; rfl)) (hR.recorded _ _ rfl)
  | faults hfaults =>
    exact hR.faulted hcourse hunfinished hstack hfaults (hR.of_faults hdrive hstack hfaults)

end Drive

theorem run (n : Nat) : Drive.Upholds R (Context.run n) := by
  -- The steps of a run call host code with less fuel.
  induction n using Nat.strongRecOn with
  | ind n ih =>
    intro c rt ⟨hunfinished, past, hcourse⟩
    have hlawful := Context.run_isLawful n c rt
    cases hrun : Context.run n c rt with
    | ok q rt' =>
      obtain ⟨v, c'⟩ := q
      obtain ⟨m, later, hfuel, hcourse', hunfinished', hstop, hearlier⟩ :=
        hcourse.of_run (fun hm hcourse hunfinished hstep =>
          hR.of_running (ih _ hm) hcourse hunfinished hstep)
          hunfinished hrun
      refine ⟨⟨_, .step hcourse' hunfinished' hstop⟩, ?_⟩
      exact Trans.trans hearlier (hR.of_stopped (ih _ hfuel) hcourse' hunfinished' hstop)
    | fault e rt' =>
      rw [hrun] at hlawful
      exact hlawful.elim
    | breach b rt' => trivial
    | exhausted => trivial

/-- The relation holds up to the step that a run stops with. -/
theorem course {n : Nat} {past : List Moment} {c c' : Context} {rt rt' : Runtime} {v : Value}
    (hcourse : Course past c)
    (hunfinished : ¬ c.isFinished) (hrun : Context.run n c rt = .ok (v, c') rt') :
    ∃ (m : Moment) (later : List Moment), Course (later ++ past) m.context ∧
      ¬ m.context.isFinished ∧
      m.outcome = .ok (.stopped v c') rt' ∧ R rt m.runtime := by
  obtain ⟨m, later, _, h⟩ := hcourse.of_run (R := R) (fun _ hcourse hunfinished hstep =>
    hR.of_running (hR.run _) hcourse hunfinished hstep) hunfinished hrun
  exact ⟨m, later, h⟩

theorem resume (n : Nat) : Drive.Upholds R (Context.resume n) := by
  intro c rt hunder
  rw [Context.resume_eq_run hunder.1]
  exact hR.run n c rt hunder

end Upkept

end ProcEngine
