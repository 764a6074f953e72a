import ProcEngine.Proofs.Context.Moment
import ProcEngine.Proofs.Context.Opening
/-!
# The course of a context

`Course past c` says that `c` has come about by the steps `past`, the latest first, in whatever
runtimes it was resumed. Whoever waits on its stack made its call at one of them, and has been under
another activation ever since.
-/

namespace ProcEngine

def Context.Progress.context : Context.Progress → Context
  | .running c | .stopped _ c => c

namespace Context

theorem resume_eq_run {c : Context} (hunfinished : ¬ c.isFinished) (n : Nat) (rt : Runtime) :
    c.resume n rt = c.run n rt := by
  rw [resume, if_neg hunfinished]

theorem resume_finished {c : Context} (hfinished : c.isFinished) (n : Nat) (rt : Runtime) :
    c.resume n rt = .ok (.null, c) rt := by
  rw [resume, if_pos hfinished]
  rfl

theorem state_of_proceed {c c' : Context} {top : Activation} {callers : List Activation}
    {signal : Signal}
    {rt rt' : Runtime} (h : c.proceed top callers signal rt = .ok (.running c') rt') :
    c'.state = c.state := by
  cases signal with
  | proceed =>
    cases h
    rfl
  | returned =>
    cases callers with
    | nil => cases h
    | cons caller rest =>
      cases h
      rfl
  | deferred w => cases h
  | called callee =>
    simp only [proceed, push] at h
    by_cases hown : callee.context ≠ c.id
    · simp only [if_pos hown] at h
      cases h
    · simp only [if_neg hown] at h
      by_cases hfull : c.maxDepth ≤ (top :: callers).length
      · simp only [if_pos hfull] at h
        cases h
      · simp only [if_neg hfull] at h
        cases h
        rfl

theorem state_of_running {fuel : Nat} {drive : Drive} {c c' : Context} {rt rt' : Runtime}
    (h : c.step fuel drive rt = .ok (.running c') rt') : c'.state = c.state := by
  cases hstack : c.stack with
  | nil => simp [step, hstack] at h
  | cons top callers =>
    simp only [step, hstack] at h
    cases hstep : top.fetch.2.step fuel drive top.fetch.1 rt with
    | ok q rt₁ =>
      rw [hstep] at h
      exact state_of_proceed h
    | fault e rt₁ =>
      rw [hstep] at h
      cases h
    | breach b rt₁ =>
      rw [hstep] at h
      cases h
    | exhausted =>
      rw [hstep] at h
      cases h

theorem unfinished_of_running {fuel : Nat} {drive : Drive} {c c' : Context} {rt rt' : Runtime}
    (hunfinished : ¬ c.isFinished) (h : c.step fuel drive rt = .ok (.running c') rt') :
    ¬ c'.isFinished := by
  rwa [isFinished, state_of_running h]

/-- A run is a step that stops the context, or one that does not and the rest of the run. -/
theorem run_ok {n : Nat} {c : Context} {rt rt' : Runtime} {q : Value × Context}
    (h : c.run (n + 1) rt = .ok q rt') :
    c.step n (run n) rt = .ok (.stopped q.1 q.2) rt' ∨
      ∃ c₁ rt₁, c.step n (run n) rt = .ok (.running c₁) rt₁ ∧ c₁.run n rt₁ = .ok q rt' := by
  simp only [run] at h
  cases hstep : c.step n (run n) rt with
  | ok progress rt₁ =>
    rw [hstep] at h
    cases progress with
    | running c₁ => exact Or.inr ⟨c₁, rt₁, rfl, h⟩
    | stopped v c₁ =>
      cases h
      exact Or.inl rfl
  | fault e rt₁ =>
    rw [hstep] at h
    cases h
  | breach b rt₁ =>
    rw [hstep] at h
    cases h
  | exhausted =>
    rw [hstep] at h
    cases h

end Context

inductive Course : List Moment → Context → Prop
  | opened (rt : Runtime) (p : ProcRef) (i : Invocation) : rt.maxDepth ≠ 0 →
    Course [] (rt.opened p i).1
  | step {past : List Moment} {m : Moment} {progress : Context.Progress} {rt : Runtime} :
    Course past m.context →
    ¬ m.context.isFinished → m.outcome = .ok progress rt → Course (m :: past) progress.context

/-- `a` waits on the stack, on top of `callers`, while another activation is above it. -/
def Above (a : Activation) (callers stack : List Activation) : Prop :=
  ∃ b inner, stack = b :: (inner ++ a :: callers)

/-- Each of the `callers` has called at one of the `calls`, the innermost last, and has waited
since. -/
inductive Pending : (callers : List Activation) → (past calls : List Moment) → Prop
  | none (past : List Moment) : Pending [] past []
  | call {a callee : Activation} {callers : List Activation} {before calls : List Moment}
    {m : Moment} (during : List Moment) : Pending callers before calls → m.IsCall a callee callers →
    (∀ m' ∈ during, Above a callers m'.context.stack) → Pending (a :: callers)
      (during ++ m :: before) (m :: calls)

namespace Pending

variable {callers : List Activation} {past calls : List Moment}

/-- They go on waiting as long as something is above them. -/
theorem later (h : Pending callers past calls) {m : Moment} {b : Activation} {l : List Activation}
    (hstack : m.context.stack = b :: (l ++ callers)) : Pending callers (m :: past) calls := by
  cases h with
  | none => exact .none _
  | call during hbefore hcall hduring =>
    rw [← List.cons_append]
    refine .call (m :: during) hbefore hcall fun m' hm' => ?_
    obtain rfl | hm' := List.mem_cons.mp hm'
    · exact ⟨b, l, hstack⟩
    · exact hduring m' hm'

theorem tail {a : Activation} (h : Pending (a :: callers) past calls) :
    Pending callers past calls.tail := by
  cases h with
  | @call _ _ _ before calls m during hbefore hcall hduring =>
    obtain ⟨top, hstack⟩ := hcall.stack
    have hcalled : Pending callers (m :: before) calls := hbefore.later (l := []) hstack
    show Pending callers (during ++ m :: before) calls
    clear hcall
    induction during with
    | nil => exact hcalled
    | cons m' during ih =>
      obtain ⟨b, inner, hstack⟩ := hduring m' List.mem_cons_self
      have hrest := ih fun m hm => hduring m (List.mem_cons_of_mem _ hm)
      exact hrest.later (b := b) (l := inner ++ [a]) (by rw [hstack, List.append_assoc]; rfl)

end Pending

/-- What holds of a context at any time of its course. -/
structure Coherent (past : List Moment) (c : Context) : Prop where
  running : ¬ c.isFinished → c.stack ≠ []
  finished : c.isFinished → c.stack = []
  own : c.Own c.stack
  /-- A script whose arguments are not bound is at its start. -/
  unbound : ∀ a ∈ c.stack, ∀ f, a.frame = .script f → f.locals = none → f.position = 0
  /-- A routine finds what was returned in the step before, and nothing else. -/
  returned : ∀ top callers f, c.stack = top :: callers → top.frame = .routine f →
    f.returned = past.head?.bind Moment.value?
  pending : ∃ calls, Pending c.stack.tail past calls

namespace Coherent

theorem opened (rt : Runtime) (p : ProcRef) (i : Invocation) : Coherent [] (rt.opened p i).1 where
  running _ := List.cons_ne_nil _ _
  finished h := by cases h
  own := by
    intro a ha
    obtain rfl := List.mem_singleton.mp ha
    rfl
  unbound := by
    intro a ha f hframe _
    obtain rfl := List.mem_singleton.mp ha
    exact Activation.IsFresh.position ⟨_, rfl⟩ hframe
  returned := by
    intro top callers f hstack hframe
    cases hstack
    exact Activation.IsFresh.returned ⟨_, rfl⟩ hframe
  pending := ⟨[], .none _⟩

theorem of_finished {past : List Moment} {c : Context} (hfinished : c.isFinished)
    (hstack : c.stack = []) :
    Coherent past c where
  running h := absurd hfinished h
  finished _ := hstack
  own := by simp [Context.Own, hstack]
  unbound := by simp [hstack]
  returned := by simp [hstack]
  pending := by
    rw [hstack]
    exact ⟨[], .none _⟩

variable {past : List Moment} {m : Moment}

theorem of_stack {c : Context} {a : Activation} {callers : List Activation}
    (hstack : c.stack = a :: callers)
    (hunfinished : c.isFinished = false) (hown : c.Own (a :: callers))
    (hunbound : ∀ b ∈ a :: callers, ∀ f, b.frame = .script f → f.locals = none → f.position = 0)
    (hreturned : ∀ f, a.frame = .routine f → f.returned = past.head?.bind Moment.value?)
    {calls : List Moment} (hpending : Pending callers past calls) : Coherent past c where
  running _ := by simp [hstack]
  finished h := by simp [hunfinished] at h
  own := hstack ▸ hown
  unbound := hstack ▸ hunbound
  returned top callers' f hstack' hframe := by
    rw [hstack] at hstack'
    cases hstack'
    exact hreturned f hframe
  pending := by
    rw [hstack]
    exact ⟨calls, hpending⟩

/-- Once an activation has taken a step its arguments are bound. -/
theorem unbound_of_leaves {a b : Activation} {instr : Option Instr} {signal : Signal}
    (h : a.Leaves instr b signal)
    (hsignal : signal ≠ .returned) {f : ScriptFrame} (hframe : b.frame = .script f) :
    f.locals.isSome := by
  cases h with
  | works _ hframe' hlocals =>
    cases hframe.symm.trans hframe'
    exact hlocals
  | callsScript _ hlocals =>
    cases hframe
    exact hlocals
  | sleepsScript _ hlocals =>
    cases hframe
    exact hlocals
  | callsRoutine => cases hframe
  | defersRoutine => cases hframe
  | ends => exact absurd rfl hsignal

theorem unbound_of_receive {a : Activation} {v : Value}
    (h : ∀ f, a.frame = .script f → f.locals = none → f.position = 0) {f : ScriptFrame}
    (hframe : (a.receive v).frame = .script f) (hlocals : f.locals = none) : f.position = 0 := by
  simp only [Activation.receive] at hframe
  split at hframe
  · rename_i f' hframe'
    cases hframe
    exact h f' hframe' hlocals
  · cases hframe
  · rename_i hhandler
    cases hhandler.symm.trans hframe

theorem returned_of_receive {a : Activation} {v : Value} {f : RoutineFrame}
    (hframe : (a.receive v).frame = .routine f) : f.returned = some v := by
  simp only [Activation.receive] at hframe
  split at hframe
  · cases hframe
  · cases hframe
    rfl
  · rename_i hhandler
    cases hhandler.symm.trans hframe

/-- The innermost activation, and everything that a step of it can come to. -/
theorem moves (h : Coherent past m.context) (hunfinished : ¬ m.context.isFinished)
    {progress : Context.Progress} {rt : Runtime} (hstep : m.outcome = .ok progress rt) :
    ∃ top callers, m.context.stack = top :: callers ∧ m.Moves top callers progress rt := by
  obtain ⟨top, callers, hstack⟩ := List.exists_cons_of_ne_nil (h.running hunfinished)
  have hown : top.context = m.context.id := h.own top (by rw [hstack]; exact List.mem_cons_self)
  exact ⟨top, callers, hstack, Moment.moves_of_outcome hstack hown hstep⟩

theorem step (h : Coherent past m.context) (hunfinished : ¬ m.context.isFinished)
    {progress : Context.Progress} {rt : Runtime} (hstep : m.outcome = .ok progress rt) :
    Coherent (m :: past) progress.context := by
  obtain ⟨top, callers, hstack, hmoves⟩ := h.moves hunfinished hstep
  have hown := h.own
  rw [hstack] at hown
  have htop : top.context = m.context.id := hown top List.mem_cons_self
  have hcallers : m.context.Own callers := fun b hb => hown b (List.mem_cons_of_mem _ hb)
  obtain ⟨calls, hpending⟩ := h.pending
  rw [hstack, List.tail_cons] at hpending
  have hunbound : ∀ b ∈ callers, ∀ f, b.frame = .script f → f.locals = none → f.position = 0 :=
    fun b hb => h.unbound b (by rw [hstack]; exact List.mem_cons_of_mem _ hb)
  -- Whoever has just taken a step is bound, so that only those below it have to be looked at.
  have hbound {a : Activation} {signal : Signal} {rt : Runtime}
      (hreport : m.report = .ok (a, signal) rt) (hsignal : signal ≠ .returned) :
      ∀ b ∈ a :: callers, ∀ f, b.frame = .script f → f.locals = none → f.position = 0 := by
    intro b hb f hframe hlocals
    obtain rfl | hb := List.mem_cons.mp hb
    · have hsome := unbound_of_leaves (Moment.leaves_of_report hstack hreport) hsignal hframe
      simp [hlocals] at hsome
    · exact hunbound b hb f hframe hlocals
  have hunfinished : m.context.isFinished = false := by simpa using hunfinished
  cases hmoves with
  | @works a rt hreport =>
    refine of_stack (a := a) rfl hunfinished ?_ (hbound hreport (by simp)) ?_
      (hpending.later (l := []) hstack)
    · exact hcallers.cons (Moment.own_of_report hstack htop hreport).1
    · intro f hframe
      cases Moment.leaves_of_report hstack hreport with
      | works _ hframe' => cases hframe.symm.trans hframe'
  | ends hreport hnone => exact of_finished rfl rfl
  | @returns a caller rest rt hreport hcallers' =>
    subst hcallers'
    refine of_stack (a := caller.receive a.result) rfl hunfinished (hcallers.receive a.result) ?_ ?_
      (hpending.tail.later (l := [caller]) hstack)
    · intro b hb f hframe hlocals
      obtain rfl | hb := List.mem_cons.mp hb
      · exact unbound_of_receive (hunbound caller List.mem_cons_self) hframe hlocals
      · exact hunbound b (List.mem_cons_of_mem _ hb) f hframe hlocals
    · intro f hframe
      rw [returned_of_receive hframe, List.head?_cons, Option.bind_some, Moment.value?, hreport]
  | @defers a w rt hreport =>
    refine of_stack (a := a) rfl rfl ?_ (hbound hreport (by simp)) ?_
      (hpending.later (l := []) hstack)
    · exact hcallers.cons (Moment.own_of_report hstack htop hreport).1
    · intro f hframe
      rw [List.head?_cons, Option.bind_some, Moment.value?, hreport]
      cases Moment.leaves_of_report hstack hreport with
      | sleepsScript => cases hframe
      | defersRoutine =>
        cases hframe
        rfl
  | @calls a d rt hreport hdepth =>
    obtain ⟨ha, hd⟩ := Moment.own_of_report hstack htop hreport
    have hfresh : d.IsFresh := by
      cases Moment.leaves_of_report hstack hreport with
      | callsScript _ _ _ _ _ hfresh => exact hfresh
      | callsRoutine _ hfresh => exact hfresh
    refine of_stack (a := d) rfl hunfinished ((hcallers.cons ha).cons (hd d rfl)) ?_ ?_
      (.call [] hpending ⟨⟨top, hstack⟩, rt, hreport⟩ (by simp))
    · intro b hb f hframe hlocals
      obtain rfl | hb := List.mem_cons.mp hb
      · exact hfresh.position hframe
      · exact hbound hreport (by simp) b hb f hframe hlocals
    · intro f hframe
      rw [hfresh.returned hframe, List.head?_cons, Option.bind_some, Moment.value?, hreport]
  | faults hfaults => exact of_finished rfl rfl

end Coherent

namespace Course

variable {past later : List Moment} {c : Context} {m : Moment}

theorem coherent (h : Course past c) : Coherent past c := by
  induction h with
  | opened rt p i _ => exact Coherent.opened rt p i
  | step _ hunfinished hstep ih => exact ih.step hunfinished hstep

theorem before (h : Course (later ++ m :: past) c) : Course past m.context ∧
    ¬ m.context.isFinished := by
  induction later generalizing c with
  | nil =>
    cases h with
    | step hbefore hunfinished _ => exact ⟨hbefore, hunfinished⟩
  | cons m' later ih =>
    cases h with
    | step hbefore _ _ => exact ih hbefore

/-- Running a context takes its course further, up to the step that stops it. Whatever the steps
before that one carry along is carried along up to it. -/
theorem of_run {R : Runtime → Runtime → Prop} [Std.Refl R] [Trans R R R] {n : Nat}
    (hR : ∀ {past : List Moment} {m : Moment} {c : Context} {rt : Runtime}, m.fuel < n →
      Course past m.context →
      ¬ m.context.isFinished → m.outcome = .ok (.running c) rt → R m.runtime rt)
    (h : Course past c) (hunfinished : ¬ c.isFinished) {rt rt' : Runtime} {v : Value} {c' : Context}
    (hrun : Context.run n c rt = .ok (v, c') rt') :
    ∃ (m : Moment) (later : List Moment), m.fuel < n ∧ Course (later ++ past) m.context ∧
      ¬ m.context.isFinished ∧
      m.outcome = .ok (.stopped v c') rt' ∧ R rt m.runtime := by
  induction n generalizing past c rt with
  | zero => cases hrun
  | succ n ih =>
    have hrest {past : List Moment} {m : Moment} {c : Context} {rt : Runtime} (hm : m.fuel < n) :=
      @hR past m c rt (Nat.lt_succ_of_lt hm)
    let m : Moment := ⟨c, n, rt⟩
    obtain hstop | ⟨c₁, rt₁, hstep, hrun⟩ := Context.run_ok hrun
    · exact ⟨m, [], Nat.lt_succ_self n, h, hunfinished, hstop, Std.Refl.refl rt⟩
    · have houtcome : m.outcome = .ok (.running c₁) rt₁ := hstep
      have hcourse : Course (m :: past) c₁ := .step h hunfinished houtcome
      have hunfinished₁ : ¬ c₁.isFinished := Context.unfinished_of_running hunfinished hstep
      obtain ⟨m', later, hfuel, hcourse', hunfinished', hstop, hcarried⟩ :=
        ih hrest hcourse hunfinished₁ hrun
      refine ⟨m', later ++ [m], by omega, by rwa [List.append_assoc], hunfinished', hstop, ?_⟩
      exact Trans.trans (hR (Nat.lt_succ_self n) h hunfinished houtcome) hcarried

end Course

end ProcEngine
