import ProcEngine.Proofs.Context.Handling
import ProcEngine.Proofs.Scheduler.Tending
/-!
# Hosts never break a rule

Whatever a host does, in whatever order and with whatever it changes in the runtime in between,
every context that it holds is under way, and no operation breaks a rule: not in the contexts that
the scheduler resumes, nor in those that natives, routines and completions run.
-/

namespace ProcEngine

namespace Runtime

theorem call_safe (fuel : Nat) (p : ProcRef) (i : Invocation) :
    Act.Safe (callWith (Context.resume fuel) p i) :=
  callWith_safe (fun rt p i hdepth => (Course.opened rt p i hdepth).resume_safe fuel _) p i

theorem perform_safe {α : Type} (fuel : Nat) (program : Program HostCalls α) :
    Act.Safe (perform fuel program) :=
  .run (serve_safe (call_safe fuel) fuel) program

theorem recording_safe (m : Milestone) : Act.Safe (recording m) := fun _ => .ok () _

end Runtime

theorem Completion.run_safe (fuel : Nat) (completion : Completion) (id : ContextId) (v : Value) :
    Act.Safe (completion.run fuel id v) := by
  intro rt
  have hsafe := Runtime.perform_safe fuel (completion v) (rt.record (.completed id v))
  simp only [Completion.run]
  cases hrun : Runtime.perform fuel (completion v) (rt.record (.completed id v)) with
  | ok u rt' => exact .ok u rt'
  | fault e rt' => exact .ok () rt'
  | breach b rt' => exact hsafe.broken hrun _
  | exhausted => exact .exhausted

namespace Scheduler

theorem park_safe (fuel : Nat) (s : Scheduler) (p : Parked) (v : Value) :
    Act.Safe (s.park fuel p v) := by
  simp only [park]
  cases p.context.state with
  | deferred w =>
    cases w with
    | ticks n =>
      exact (Act.Safe.need _ rfl).bind fun _ => (Runtime.recording_safe _).bind fun _ => .pure _
    | external => exact .pure _
  | ready | returned | faulted why =>
    cases p.completion with
    | none => exact .pure _
    | some completion => exact (completion.run_safe fuel _ v).bind fun _ => .pure _

theorem parkAll_safe (fuel : Nat) (s : Scheduler) (contexts : List Context) :
    Act.Safe (s.parkAll fuel contexts) := by
  induction contexts generalizing s with
  | nil => exact .pure s
  | cons c contexts ih => exact (s.park_safe fuel _ _).bind fun s => ih s

theorem adopt_safe (fuel : Nat) (s : Scheduler) : Act.Safe (s.adopt fuel) :=
  Act.Safe.get.bind fun _ => Act.Safe.bind (fun _ => .ok () _) fun _ => s.parkAll_safe fuel _

variable {p : Parked}

theorem drive_safe (fuel : Nat) (s : Scheduler) (hp : p.context.UnderWay) :
    Act.Safe (s.drive fuel p) := by
  obtain ⟨_, past, hcourse⟩ := hp
  exact Act.Safe.bind (hcourse.resume_safe fuel) fun q => (Runtime.recording_safe _).bind fun _ =>
    (s.park_safe fuel _ _).bind fun s => s.adopt_safe fuel

theorem rouse_safe (fuel : Nat) (s : Scheduler) (hp : p.context.UnderWay) :
    Act.Safe (s.rouse fuel p) :=
  (Runtime.recording_safe _).bind fun _ => drive_safe fuel _ hp

theorem callAsync_safe (fuel : Nat) (s : Scheduler) (p : ProcRef) (i : Invocation)
    (completion : Option Completion) :
    Act.Safe (s.callAsync fuel p i completion) := by
  intro rt
  rw [callAsync_eq]
  by_cases hdepth : rt.maxDepth = 0
  · rw [if_pos hdepth]
    cases completion with
    | none => exact .ok _ _
    | some completion => exact ((completion.run_safe fuel _ _).bind fun _ => .pure _) _
  · rw [if_neg hdepth]
    exact ((drive_safe fuel s (Runtime.opened_underWay hdepth p i)).bind fun _ => .pure _) _

end Scheduler

namespace Tending

variable {R : Runtime → Runtime → Prop} [Std.Refl R] [Trans R R R] (hR : Upkept R)
  {rt₀ rt : Runtime} {s : Scheduler}

omit [Trans R R R] in
/-- Whom one tends does not depend on what has been done to the runtime, as long as nobody is let
go. -/
theorem rebase (h : Tending R rt₀ s rt) {rt' : Runtime} (hdetached : rt'.detached = rt.detached) :
    Tending R rt' s rt' where
  parked := h.parked
  detached := hdetached ▸ h.detached
  since := Std.Refl.refl rt'

omit [Std.Refl R] [Trans R R R] in
theorem wake_safe (fuel : Nat) (h : Tending R rt₀ s rt) (id : ContextId) :
    (s.wake fuel id rt).Safe := by
  simp only [Scheduler.wake]
  cases hp : s.parked[id]? with
  | none => exact .ok _ rt
  | some p =>
    dsimp only
    split
    · exact ((s.rouse_safe fuel (h.parked id p hp)).bind fun _ => .pure _) rt
    · exact .ok _ rt

include hR

theorem resumeDue_safe (fuel : Nat) (resumed : Nat) (h : Tending R rt₀ s rt) :
    (Scheduler.resumeDue fuel s resumed rt).Safe := by
  induction fuel generalizing s rt resumed with
  | zero => exact .exhausted
  | succ fuel ih =>
    simp only [Scheduler.resumeDue]
    cases hs : s.sleepers with
    | nil => exact .ok _ rt
    | cons first rest =>
      dsimp only
      split
      · exact .ok _ rt
      · have hrest : Tending R rt₀ { s with sleepers := rest } rt := ⟨h.parked, h.detached, h.since⟩
        cases hp : s.parked[first.context]? with
        | none => exact ih resumed hrest
        | some p =>
          have hunder := h.parked _ p hp
          exact Act.safe_bind (Scheduler.rouse_safe fuel _ hunder rt)
            (hrest.rouse hR fuel hunder) fun s' rt' h' =>
            ih (resumed + 1) h'

theorem advance_safe (fuel : Nat) (h : Tending R rt₀ s rt) : (s.advance fuel rt).Safe := by
  refine Act.safe_bind (s.adopt_safe fuel rt) (h.adopt hR fuel) fun s' rt' h' => ?_
  have hlater := h'.record hR (m := .ticked (s'.tick + 1)) rfl
  exact resumeDue_safe hR fuel 0 ⟨hlater.parked, hlater.detached, hlater.since⟩

theorem act_safe (fuel : Nat) (h : Tending R rt₀ s rt) (op : Operation) :
    (op.act fuel s rt).Safe := by
  cases op with
  | run p i => exact ((Runtime.call_safe fuel p i).bind fun _ => .pure _) rt
  | callOn o name arguments usr =>
    exact (((Runtime.ask_safe _).bind fun p => Runtime.call_safe fuel p _).bind fun _ => .pure _) rt
  | newObject path arguments usr =>
    exact ((Runtime.constructWith_safe (Runtime.call_safe fuel) fuel path arguments usr).bind
      fun _ => .pure _) rt
  | spawn p i => exact ((s.callAsync_safe fuel p i none).bind fun _ => .pure _) rt
  | callAsync p i completion =>
    exact ((s.callAsync_safe fuel p i completion).bind fun _ => .pure _) rt
  | wake c => exact Act.safe_bind (h.wake_safe fuel c) (h.wake hR fuel c) fun q rt' _ => .ok _ rt'
  | tick =>
    exact Act.safe_bind (h.advance_safe hR fuel) (h.advance hR fuel) fun q rt' _ => .ok _ rt'

end Tending

namespace Host

/-- A host that has come about by operations, and by whatever else has been done to its runtime in
between: the contexts that wait to be adopted are not the host's to touch. -/
inductive Reached : Host → Prop
  | fresh {h : Host} : h.IsFresh → Reached h
  | performed {fuel : Nat} {h h' : Host} {op : Operation} {e : Episode} : Reached h →
    h.perform fuel op = some (e, h') →
    Reached h'
  | changed {h : Host} {rt : Runtime} : Reached h → rt.detached = h.runtime.detached →
    Reached ⟨rt, h.scheduler⟩

variable {h h' : Host}

theorem Reached.runs {episodes : List Episode} (hreached : h.Reached) (hruns : h.Runs episodes h') :
    h'.Reached := by
  induction hruns with
  | nil => exact hreached
  | cons hperform _ ih => exact ih (.performed hreached hperform)

theorem Reached.tending (hreached : h.Reached) :
    Tending Reporting h.runtime h.scheduler h.runtime := by
  induction hreached with
  | fresh hfresh => exact hfresh.tending Reporting
  | performed _ hperform ih => exact (ih.perform Reporting.upkept hperform).rebase rfl
  | changed _ hdetached ih => exact ih.rebase hdetached

/-- Contexts that start empty stay sound whatever is pushed onto them and however they are resumed,
and once they have ended they stay so and do nothing any more; those that the engine opens are among
them, and are never without an activation when they go on. So no operation of a host breaks a
rule. -/
theorem Reached.rules_are_kept (hreached : h.Reached) :
    (∀ id maxDepth c, Context.Handled { id, maxDepth } c → c.id = id ∧ c.maxDepth = maxDepth ∧
      c.Sound ∧
      (∀ n rt v c' rt', c.resume n rt = .ok (v, c') rt' → c.Handled c') ∧
      (∀ n rt, (c.state = .ready → c.stack ≠ []) → (c.resume n rt).Safe) ∧
      (c.isFinished → ∀ c', c.Handled c' → c'.state = c.state ∧ ∀ n rt, c'.resume n rt =
        .ok (.null, c') rt)) ∧
    (∀ past c, Course past c → Context.Handled { id := c.id, maxDepth := c.maxDepth } c ∧
      ∀ n rt, (c.resume n rt).Safe) ∧
    (∀ c ∈ h.held, ¬ c.isFinished ∧ ∃ past, Course past c) ∧
    ∀ fuel (op : Operation), (op.act fuel h.scheduler h.runtime).Safe := by
  refine ⟨fun id maxDepth c hhandled => ?_,
    fun past c hcourse => ⟨hcourse.handled, hcourse.resume_safe⟩,
    fun c hc => underWay_of_held hreached.tending hc,
      fun fuel op => hreached.tending.act_safe Reporting.upkept fuel op⟩
  obtain ⟨hsound, hid, hdepth⟩ := hhandled.sound (.new id maxDepth)
  refine ⟨hid, hdepth, hsound, fun n rt v c' rt' hresume => Context.Handled.resume .refl hresume,
    fun n rt hready => hsound.resume_safe hready n rt, fun hfinished c' hlater => ?_⟩
  have hstate := hlater.state_of_finished hfinished
  exact ⟨hstate, Context.resume_finished (by rwa [Context.isFinished, hstate])⟩

/-- A host whose proc sleeps, while one is asleep. -/
theorem napping_keeps_rules : ∃ h : Host, h.Reached ∧
    h.scheduler.sleepers.map Sleeper.context = [1] ∧
    ∀ fuel (op : Operation), (op.act fuel h.scheduler h.runtime).Safe := by
  have hperforms : ((napping.performAll 10 [.spawn ⟨1, "nap"⟩ {}]).map fun q =>
      q.2.scheduler.sleepers.map Sleeper.context) = some [1] := by decide +kernel
  obtain ⟨⟨episodes, h⟩, hperform, hsleepers⟩ := Option.map_eq_some_iff.mp hperforms
  have hreached : h.Reached := (Reached.fresh ⟨rfl, rfl, rfl⟩).runs (runs_of_performAll hperform)
  exact ⟨h, hreached, hsleepers, hreached.rules_are_kept.2.2.2⟩

end Host

end ProcEngine
