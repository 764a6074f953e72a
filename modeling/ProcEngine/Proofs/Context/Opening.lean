import ProcEngine.Proofs.Preserves
import ProcEngine.Scheduler
/-!
# How contexts start

Calls from outside, calls by host code and calls that nobody waits for all start in the same way: a
new context takes one activation. It is refused only if contexts may not hold any.
-/

namespace ProcEngine

namespace Runtime

/-- A new context with its first activation, and the runtime in which it is about to run. -/
def opened (rt : Runtime) (p : ProcRef) (i : Invocation) : Context × Runtime :=
  ({ rt.newContext.1 with stack := [(rt.newContext.2.activate p rt.newContext.1.id i).1] },
   (rt.newContext.2.activate p rt.newContext.1.id i).2)

theorem opened_chronicle (rt : Runtime) (p : ProcRef) (i : Invocation) :
    (rt.opened p i).2.chronicle = .created (rt.contexts + 1) :: rt.chronicle := by
  simp only [opened, activate]
  split <;> rfl

theorem opened_contexts (rt : Runtime) (p : ProcRef) (i : Invocation) :
    (rt.opened p i).2.contexts = rt.contexts + 1 := by
  simp only [opened, activate]
  split <;> rfl

theorem opened_detached (rt : Runtime) (p : ProcRef) (i : Invocation) : (rt.opened p i).2.detached =
    rt.detached := by
  simp only [opened, activate]
  split <;> rfl

/-- What is left of a new context that may not hold its first activation: its fault. -/
def refused (rt : Runtime) (p : ProcRef) (i : Invocation) : Runtime :=
  ((rt.opened p i).2.tell (.fault (rt.contexts + 1) (.stackOverflow rt.maxDepth) [])).record
    (.stopped (rt.contexts + 1) (.faulted (.stackOverflow rt.maxDepth)))

/-- Leaves a context that has stopped to itself. -/
def leave (rt : Runtime) (c : Context) : Runtime :=
  if c.isFinished then rt.record (.stopped c.id c.state)
  else (rt.record (.stopped c.id c.state)).detach c

theorem leave_contexts (rt : Runtime) (c : Context) : (rt.leave c).contexts = rt.contexts := by
  rw [leave]
  split <;> rfl

end Runtime

/-- A new context takes its first activation unless contexts may not hold any. -/
theorem Context.push_new (rt : Runtime) (p : ProcRef) (i : Invocation) :
    rt.newContext.1.push (rt.newContext.2.activate p rt.newContext.1.id i).1 =
      if rt.maxDepth = 0 then .overflow (.stackOverflow rt.maxDepth)
        else .pushed (rt.opened p i).1 := by
  have hown : (rt.newContext.2.activate p rt.newContext.1.id i).1.context = rt.newContext.1.id :=
    rfl
  have hdepth : rt.newContext.1.maxDepth = rt.maxDepth := rfl
  have hempty : rt.newContext.1.stack = [] := rfl
  simp only [push, hown, ne_eq, not_true_eq_false, if_false, hdepth, hempty,
    List.length_nil, Nat.le_zero]
  rfl

theorem Runtime.callWith_eq (drive : Drive) (p : ProcRef) (i : Invocation) (rt : Runtime) :
    callWith drive p i rt =
      if rt.maxDepth = 0 then .ok .null (rt.refused p i)
      else match drive (rt.opened p i).1 (rt.opened p i).2 with
        | .ok (v, c) rt => .ok v (rt.leave c)
        | .fault e rt => .fault e rt
        | .breach b rt => .breach b rt
        | .exhausted => .exhausted := by
  simp only [callWith, Context.push_new]
  by_cases hdepth : rt.maxDepth = 0
  · rw [if_pos hdepth, if_pos hdepth]
    rfl
  · rw [if_neg hdepth, if_neg hdepth]
    rfl

/-- What holds of a context that is refused and of one that is driven and left to itself holds of a
call. -/
theorem Runtime.preserves_callWith {R : Runtime → Runtime → Prop} {drive : Drive} {p : ProcRef}
    {i : Invocation} (hrefused : ∀ rt : Runtime, rt.maxDepth = 0 → R rt (rt.refused p i))
    (hdrive : ∀ rt : Runtime, rt.maxDepth ≠ 0 →
      (drive (rt.opened p i).1 (rt.opened p i).2).Gives fun q rt' => R rt (rt'.leave q.2)) :
    Act.Preserves R (callWith drive p i) := by
  intro rt rt' hs
  rw [callWith_eq] at hs
  by_cases hdepth : rt.maxDepth = 0
  · rw [if_pos hdepth] at hs
    cases hs
    exact hrefused rt hdepth
  · rw [if_neg hdepth] at hs
    have hgives := hdrive rt hdepth
    cases hrun : drive (rt.opened p i).1 (rt.opened p i).2 with
    | ok q rt₁ =>
      rw [hrun] at hs hgives
      cases hs
      exact hgives
    | fault e rt₁ =>
      rw [hrun] at hgives
      exact hgives.elim
    | breach b rt₁ => simp [hrun, Outcome.state?] at hs
    | exhausted => simp [hrun, Outcome.state?] at hs

theorem Scheduler.callAsync_eq (fuel : Nat) (s : Scheduler) (p : ProcRef) (i : Invocation)
    (completion : Option Completion) (rt : Runtime) :
    s.callAsync fuel p i completion rt =
      if rt.maxDepth = 0 then
        (show Act Runtime (ContextId × Scheduler) from do
          if let some completion := completion then completion.run fuel (rt.contexts + 1) .null
          return (rt.contexts + 1, s)) (rt.refused p i)
      else
        (show Act Runtime (ContextId × Scheduler) from do
          return (rt.contexts + 1, ← s.drive fuel { context := (rt.opened p i).1, completion }))
            (rt.opened p i).2 := by
  simp only [callAsync, Act.bind_apply, Act.get_apply, Act.set_apply, Context.push_new]
  by_cases hdepth : rt.maxDepth = 0
  · rw [if_pos hdepth, if_pos hdepth]
    cases completion <;> rfl
  · rw [if_neg hdepth, if_neg hdepth]
    rfl

end ProcEngine
