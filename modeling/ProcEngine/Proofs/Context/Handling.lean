import ProcEngine.Proofs.Context.Course
import ProcEngine.Proofs.Safety
/-!
# Contexts that are pushed onto and resumed

`Handled c₀ c` says that `c` has come of `c₀` by pushing activations and by steps, in any order and
in whatever runtimes. What the pushes and the steps keep of a context that starts empty is `Sound`;
going on breaks a rule only where nothing has been pushed yet.
-/

namespace ProcEngine

namespace Context

/-! ### Running -/

/-- A context whose activations are its own runs safely if it has any. -/
theorem run_safe (n : Nat) {c : Context} (hown : c.Own c.stack) (hstack : c.stack ≠ [])
    (rt : Runtime) :
    (c.run n rt).Safe := by
  -- The contexts that host code opens in a step are run with the fuel that is left for the steps to
  -- come.
  induction n generalizing c rt with
  | zero => exact .exhausted
  | succ n ih =>
    have hcall (p : ProcRef) (i : Invocation) : Act.Safe (Runtime.callWith (run n) p i) :=
      Runtime.callWith_safe (fun rt p i _ =>
        ih (Coherent.opened rt p i).own (List.cons_ne_nil _ _) _) p i
    obtain ⟨top, callers, hcons⟩ := List.exists_cons_of_ne_nil hstack
    rw [hcons] at hown
    rw [← c.on_stack, hcons, run_on (hown top List.mem_cons_self)]
    have hsafe := Activation.step_safe hcall n top.fetch.2 top.fetch.1 rt
    cases hs : top.fetch.2.step n (run n) top.fetch.1 rt with
    | ok q rt' =>
      obtain ⟨a, signal⟩ := q
      obtain ⟨hleft, hcallee⟩ := own_after_step hown hs
      cases signal with
      | proceed => exact ih (c := c.on (a :: callers)) hleft (List.cons_ne_nil _ _) rt'
      | returned =>
        cases callers with
        | nil => exact .ok _ rt'
        | cons caller rest =>
          have hrest : c.Own (caller :: rest) := fun b hb => hown b (List.mem_cons_of_mem _ hb)
          exact ih (c := c.on (caller.receive a.result :: rest)) (hrest.receive _)
            (List.cons_ne_nil _ _) rt'
      | deferred w => exact .ok _ rt'
      | called d =>
        simp only [follow]
        split
        · exact .ok _ _
        · exact ih (c := c.on (d :: a :: callers)) (hcallee d rfl) (List.cons_ne_nil _ _) rt'
    | fault e rt' => exact .ok _ _
    | breach b rt' => exact hsafe.broken hs _
    | exhausted => exact .exhausted

theorem resume_safe (n : Nat) {c : Context} (hown : c.Own c.stack)
    (hstack : ¬ c.isFinished → c.stack ≠ []) (rt : Runtime) : (c.resume n rt).Safe := by
  by_cases hfinished : c.isFinished
  · rw [resume_finished hfinished]
    exact .ok _ rt
  · rw [resume_eq_run hfinished]
    exact run_safe n hown (hstack hfinished) rt

/-! ### Pushing and resuming -/

/-- What may become of a context, step by step. -/
inductive Handled (c₀ : Context) : Context → Prop
  | refl : Handled c₀ c₀
  | pushed {c c' : Context} {a : Activation} : Handled c₀ c → c.push a = .pushed c' → Handled c₀ c'
  /-- A context that cannot take an activation is aborted by whoever has opened it. -/
  | refused {c : Context} {a : Activation} {why : Fault} (rt : Runtime) : Handled c₀ c →
    ¬ c.isFinished →
    c.push a = .overflow why → Handled c₀ (rt.abort c why).1
  | stepped {m : Moment} {progress : Progress} {rt : Runtime} : Handled c₀ m.context →
    ¬ m.context.isFinished →
    m.outcome = .ok progress rt → Handled c₀ progress.context

/-- What holds of a context at any time. -/
structure Sound (c : Context) : Prop where
  bounded : c.stack.length ≤ c.maxDepth
  own : c.Own c.stack
  deferred : ∀ w, c.state = .deferred w → c.stack ≠ []

theorem push_pushed {c c' : Context} {a : Activation} (h : c.push a = .pushed c') :
    a.context = c.id ∧ c.stack.length < c.maxDepth ∧ c' = c.on (a :: c.stack) := by
  simp only [push] at h
  split at h
  · cases h
  · rename_i hown
    split at h
    · cases h
    · cases h
      exact ⟨Decidable.not_not.mp hown, by omega, rfl⟩

namespace Sound

variable {c c' : Context} {m : Moment}

theorem new (id : ContextId) (maxDepth : Nat) : Sound { id, maxDepth } where
  bounded := Nat.zero_le _
  own := by simp [Own]
  deferred w h := by cases h

/-- Nothing is left of a context that has ended. -/
theorem ended {c : Context} (hstack : c.stack = []) (hfinished : c.isFinished) : c.Sound where
  bounded := by simp [hstack]
  own := by simp [Own, hstack]
  deferred w h := by simp [isFinished, h] at hfinished

theorem push (h : c.Sound) {a : Activation} (hpush : c.push a = .pushed c') : c'.Sound := by
  obtain ⟨hown, hroom, rfl⟩ := push_pushed hpush
  exact ⟨hroom, Own.cons hown h.own, fun _ _ => List.cons_ne_nil _ _⟩

theorem step (h : m.context.Sound) {progress : Progress} {rt : Runtime}
    (hstep : m.outcome = .ok progress rt) :
    progress.context.Sound ∧ progress.context.id = m.context.id ∧
      progress.context.maxDepth = m.context.maxDepth := by
  cases hstack : m.context.stack with
  | nil => simp [Moment.outcome, Context.step, hstack] at hstep
  | cons top callers =>
    have hbounded := h.bounded
    have hown := h.own
    rw [hstack] at hbounded hown
    have htop : top.context = m.context.id := hown top List.mem_cons_self
    have hcallers : m.context.Own callers := fun b hb => hown b (List.mem_cons_of_mem _ hb)
    cases Moment.moves_of_outcome hstack htop hstep with
    | @works a rt hreport =>
      have ha := (Moment.own_of_report hstack htop hreport).1
      exact ⟨⟨hbounded, hcallers.cons ha, fun _ _ => List.cons_ne_nil _ _⟩, rfl, rfl⟩
    | ends => exact ⟨ended rfl rfl, rfl, rfl⟩
    | @returns a caller rest rt hreport heq =>
      subst heq
      have hroom : rest.length + 1 ≤ m.context.maxDepth := Nat.le_of_succ_le hbounded
      exact ⟨⟨hroom, hcallers.receive a.result, fun _ _ => List.cons_ne_nil _ _⟩, rfl, rfl⟩
    | @defers a w rt hreport =>
      have ha := (Moment.own_of_report hstack htop hreport).1
      exact ⟨⟨hbounded, hcallers.cons ha, fun _ _ => List.cons_ne_nil _ _⟩, rfl, rfl⟩
    | @calls a d rt hreport hdepth =>
      obtain ⟨ha, hd⟩ := Moment.own_of_report hstack htop hreport
      exact ⟨⟨hdepth, (hcallers.cons ha).cons (hd d rfl), fun _ _ => List.cons_ne_nil _ _⟩, rfl,
        rfl⟩
    | faults => exact ⟨ended rfl rfl, rfl, rfl⟩

/-- Only a context that nothing has been pushed onto yet cannot go on. -/
theorem resume_safe (h : c.Sound) (hready : c.state = .ready → c.stack ≠ []) (n : Nat)
    (rt : Runtime) :
    (c.resume n rt).Safe := by
  refine Context.resume_safe n h.own (fun hunfinished => ?_) rt
  cases hstate : c.state with
  | ready => exact hready hstate
  | deferred w => exact h.deferred w hstate
  | returned | faulted why => simp [isFinished, hstate] at hunfinished

end Sound

namespace Handled

variable {c₀ c c' : Context}

theorem sound (h : c₀.Handled c) (hsound : c₀.Sound) : c.Sound ∧ c.id = c₀.id ∧
    c.maxDepth = c₀.maxDepth := by
  induction h with
  | refl => exact ⟨hsound, rfl, rfl⟩
  | pushed _ hpush ih =>
    obtain ⟨hsound, hid, hdepth⟩ := ih
    obtain ⟨_, _, rfl⟩ := push_pushed hpush
    exact ⟨hsound.push hpush, hid, hdepth⟩
  | refused rt _ _ _ ih => exact ⟨.ended rfl rfl, ih.2⟩
  | stepped _ _ hstep ih =>
    obtain ⟨hsound, hid, hdepth⟩ := ih
    obtain ⟨hsound', hid', hdepth'⟩ := hsound.step hstep
    exact ⟨hsound', hid'.trans hid, hdepth'.trans hdepth⟩

/-- What has ended stays as it has ended, whatever is pushed onto it. -/
theorem state_of_finished (h : c₀.Handled c) (hfinished : c₀.isFinished) : c.state = c₀.state := by
  have hstill {c : Context} (hstate : c.state = c₀.state) : c.isFinished := by
    rwa [isFinished, hstate]
  induction h with
  | refl => rfl
  | pushed _ hpush ih =>
    obtain ⟨_, _, rfl⟩ := push_pushed hpush
    exact ih
  | refused _ _ hunfinished _ ih => exact absurd (hstill ih) hunfinished
  | stepped _ hunfinished _ ih => exact absurd (hstill ih) hunfinished

/-- Resuming takes steps, and nothing else. -/
theorem run {n : Nat} (h : c₀.Handled c) (hunfinished : ¬ c.isFinished)
    {rt rt' : Runtime} {v : Value} (hrun : c.run n rt = .ok (v, c') rt') : c₀.Handled c' := by
  induction n generalizing c rt with
  | zero => cases hrun
  | succ n ih =>
    have hstepped {progress : Progress} {rt₁ : Runtime}
        (hstep : c.step n (Context.run n) rt = .ok progress rt₁) :
        c₀.Handled progress.context := .stepped (m := ⟨c, n, rt⟩) h hunfinished hstep
    obtain hstop | ⟨c₁, rt₁, hstep, hrun⟩ := run_ok hrun
    · exact hstepped hstop
    · exact ih (hstepped hstep) (unfinished_of_running hunfinished hstep) hrun

theorem resume {n : Nat} (h : c₀.Handled c) {rt rt' : Runtime} {v : Value}
    (hresume : c.resume n rt = .ok (v, c') rt') :
    c₀.Handled c' := by
  by_cases hfinished : c.isFinished
  · rw [resume_finished hfinished] at hresume
    cases hresume
    exact h
  · rw [resume_eq_run hfinished] at hresume
    exact h.run hfinished hresume

end Handled

end Context

/-- A context that the engine has opened has been handled from the start. -/
theorem Course.handled {past : List Moment} {c : Context} (h : Course past c) :
    Context.Handled { id := c.id, maxDepth := c.maxDepth } c := by
  induction h with
  | opened rt p i hdepth =>
    have hpush := Context.push_new rt p i
    rw [if_neg hdepth] at hpush
    exact .pushed .refl hpush
  | @step past m progress rt _ hunfinished hstep ih =>
    obtain ⟨hsound, _, _⟩ := ih.sound (.new _ _)
    obtain ⟨_, hid, hdepth⟩ := hsound.step hstep
    rw [hid, hdepth]
    exact .stepped ih hunfinished hstep

theorem Course.resume_safe {past : List Moment} {c : Context} (h : Course past c) (n : Nat)
    (rt : Runtime) :
    (c.resume n rt).Safe :=
  Context.resume_safe n h.coherent.own h.coherent.running rt

end ProcEngine
