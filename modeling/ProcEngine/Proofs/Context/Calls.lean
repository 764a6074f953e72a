import ProcEngine.Proofs.Context.Course
/-!
# Calls and returns

What becomes of a call is one of three things, and each step of the context decides it anew
(`Course.fate`): the caller still waits, untouched; or the callee has returned, and the caller has
gone on with its value in the next step; or the context has ended with a fault, and nobody has got
anything.
-/

namespace ProcEngine

/-- `a` waits on the stack, on top of `callers`, for what it called. -/
def Waits (a callee : Activation) (callers stack : List Activation) : Prop :=
  ∃ inner b, stack = inner ++ b :: a :: callers ∧ b.origin = callee.origin

namespace Waits

variable {a callee b b' : Activation} {callers stack : List Activation}

theorem push (h : Waits a callee callers stack) (b : Activation) :
    Waits a callee callers (b :: stack) := by
  obtain ⟨inner, b', rfl, horigin⟩ := h
  exact ⟨b :: inner, b', rfl, horigin⟩

theorem retop (h : Waits a callee callers (b :: stack)) (horigin : b'.origin = b.origin) :
    Waits a callee callers (b' :: stack) := by
  obtain ⟨inner, d, heq, hd⟩ := h
  cases inner with
  | nil =>
    obtain ⟨rfl, rfl⟩ := List.cons.inj heq
    exact ⟨[], b', rfl, horigin.trans hd⟩
  | cons x inner =>
    obtain ⟨_, rfl⟩ := List.cons.inj heq
    exact ⟨b' :: inner, d, rfl, hd⟩

/-- Under the activation on top there is the caller, and then that one is its callee, or the caller
still waits. -/
theorem pop (h : Waits a callee callers (b :: b' :: stack)) :
    (b' = a ∧ stack = callers ∧ b.origin = callee.origin) ∨
    Waits a callee callers (b' :: stack) := by
  obtain ⟨inner, d, heq, hd⟩ := h
  cases inner with
  | nil =>
    simp only [List.nil_append, List.cons.injEq] at heq
    obtain ⟨rfl, rfl, rfl⟩ := heq
    exact Or.inl ⟨rfl, rfl, hd⟩
  | cons x inner =>
    obtain ⟨_, heq⟩ := List.cons.inj heq
    exact Or.inr ⟨inner, d, heq, hd⟩

theorem length (h : Waits a callee callers stack) : callers.length + 2 ≤ stack.length := by
  obtain ⟨inner, b, rfl, _⟩ := h
  simp only [List.length_append, List.length_cons]
  omega

end Waits

/-- The context as it was when the first of the moments began, if there are any. -/
def contextBefore (moments : List Moment) (c : Context) : Context :=
  (moments.getLast?.map Moment.context).getD c

/-- What has become of a call since: `a` called, and waits or waited on top of `callers`. -/
inductive Fate (a callee : Activation) (callers : List Activation) : (since : List Moment) →
    Context → Prop
  | pending {since : List Moment} {c : Context} :
    (∀ m ∈ since, Waits a callee callers m.context.stack) →
    Waits a callee callers c.stack → Fate a callee callers since c
  /-- The callee is popped at `r`, and `a` has its value when the next step begins. -/
  | returned {after during : List Moment} {r : Moment} {top : Activation} {v : Value}
    {c : Context} :
    (∀ m ∈ during, Waits a callee callers m.context.stack) →
    r.context.stack = top :: a :: callers → top.origin = callee.origin → r.value? = some v →
    (contextBefore after c).stack = a.receive v :: callers →
      Fate a callee callers (after ++ r :: during) c
  | aborted {since : List Moment} {why : Fault} {c : Context} :
    (∀ m ∈ since, Waits a callee callers m.context.stack) → c.state = .faulted why → c.stack = [] →
    Fate a callee callers since c

namespace Course

variable {past since earlier : List Moment} {c : Context} {m : Moment} {a callee : Activation}
  {callers : List Activation}

theorem fate_of_waits (h : Course past m.context) (hunfinished : ¬ m.context.isFinished)
    {progress : Context.Progress} {rt : Runtime} (hstep : m.outcome = .ok progress rt)
    (hsince : ∀ m ∈ since, Waits a callee callers m.context.stack)
    (hwaits : Waits a callee callers m.context.stack) :
    Fate a callee callers (m :: since) progress.context := by
  have hsince' : ∀ m' ∈ m :: since, Waits a callee callers m'.context.stack := by
    intro m' hm'
    obtain rfl | hm' := List.mem_cons.mp hm'
    · exact hwaits
    · exact hsince m' hm'
  obtain ⟨top, stack, hstack, hmoves⟩ := h.coherent.moves hunfinished hstep
  have horigin {b : Activation} {signal : Signal} {rt : Runtime}
      (hreport : m.report = .ok (b, signal) rt) :
      b.origin = top.origin :=
    (Moment.leaves_of_report hstack hreport).origin.trans (Activation.fetch_origin top)
  rw [hstack] at hwaits
  cases hmoves with
  | works hreport => exact .pending hsince' (hwaits.retop (horigin hreport))
  | ends hreport hnone =>
    subst hnone
    have hlength := hwaits.length
    simp only [List.length_cons, List.length_nil] at hlength
    omega
  | @returns b caller rest rt hreport hcallers =>
    subst hcallers
    obtain ⟨rfl, rfl, htop⟩ | hwaits := hwaits.pop
    · have hvalue : m.value? = some b.result := by rw [Moment.value?, hreport]
      show Fate caller callee rest ([] ++ m :: since) _
      exact .returned hsince hstack htop hvalue rfl
    · exact .pending hsince' (hwaits.retop (Activation.receive_origin caller b.result))
  | defers hreport => exact .pending hsince' (hwaits.retop (horigin hreport))
  | calls hreport _ => exact .pending hsince' ((hwaits.retop (horigin hreport)).push _)
  | faults hfaults => exact .aborted hsince' rfl rfl

theorem fate (h : Course (since ++ m :: earlier) c) (hcall : m.IsCall a callee callers) :
    Fate a callee callers since c := by
  induction since generalizing c with
  | nil =>
    cases h with
    | step hbefore hunfinished hstep =>
      obtain ⟨top, hstack⟩ := hcall.stack
      obtain ⟨rt, hreport⟩ := hcall.report
      obtain ⟨top', stack, hstack', hmoves⟩ := hbefore.coherent.moves hunfinished hstep
      obtain ⟨rfl, rfl⟩ := List.cons.inj (hstack.symm.trans hstack')
      cases hmoves with
      | works hreport' | ends hreport' | returns hreport' | defers hreport' =>
        cases hreport.symm.trans hreport'
      | calls hreport' _ =>
        cases hreport.symm.trans hreport'
        exact .pending (by simp) ⟨[], callee, rfl, rfl⟩
      | faults hfaults => exact .aborted (by simp) rfl rfl
  | cons m' since ih =>
    cases h with
    | step hbefore hunfinished hstep =>
      have hfate := ih hbefore
      cases hfate with
      | pending hsince hwaits => exact hbefore.fate_of_waits hunfinished hstep hsince hwaits
      | @returned after during r top v _ hduring hstack htop hvalue hnext =>
        show Fate a callee callers (m' :: after ++ r :: during) _
        refine .returned hduring hstack htop hvalue ?_
        cases after with
        | nil => exact hnext
        | cons m'' after =>
          have hlast := List.getLast?_eq_some_getLast (List.cons_ne_nil m'' after)
          rw [contextBefore, hlast] at hnext
          rw [contextBefore, List.getLast?_cons_cons, hlast]
          exact hnext
      | aborted hsince hstate hnone => simp [Context.isFinished, hstate] at hunfinished

theorem call_of_return {r : Moment} {top : Activation} (h : Course past r.context)
    (hunfinished : ¬ r.context.isFinished) (hstack : r.context.stack = top :: a :: callers) :
    ∃ during m before callee, past = during ++ m :: before ∧ m.IsCall a callee callers ∧
      top.origin = callee.origin ∧ ∀ m' ∈ during, Waits a callee callers m'.context.stack := by
  obtain ⟨calls, hpending⟩ := h.coherent.pending
  rw [hstack, List.tail_cons] at hpending
  cases hpending with
  | @call _ callee _ before calls m during _ hcall hduring =>
    refine ⟨during, m, before, callee, rfl, hcall, ?_⟩
    have hfate := fate h hcall
    have hlong {stack : List Activation} {v : Value} (heq : stack = a.receive v :: callers)
        (habove : Above a callers stack) : False := by
      obtain ⟨b, inner, rfl⟩ := habove
      have hlength := congrArg List.length heq
      simp only [List.length_cons, List.length_append] at hlength
      omega
    cases hfate with
    | pending hsince hwaits =>
      rw [hstack] at hwaits
      obtain ⟨_, _, htop⟩ | hwaits := hwaits.pop
      · exact ⟨htop, hsince⟩
      · have hlength := hwaits.length
        simp only [List.length_cons] at hlength
        omega
    | @returned after during r' _ v _ _ _ _ _ hnext =>
      -- The caller has been under another activation all along and cannot have gone on.
      refine (hlong hnext ?_).elim
      cases hlast : after.getLast? with
      | none =>
        rw [contextBefore, hlast]
        exact ⟨top, [], hstack⟩
      | some m' =>
        rw [contextBefore, hlast]
        exact hduring m' (List.mem_append_left _ (List.mem_of_getLast? hlast))
    | aborted _ hstate _ => simp [Context.isFinished, hstate] at hunfinished

end Course

/-- Calls and returns match in a course. -/
structure CallsMatch (past : List Moment) (c : Context) : Prop where
  calls : ∀ since m earlier a callee callers, past = since ++ m :: earlier →
    m.IsCall a callee callers →
    Fate a callee callers since c
  returns : ∀ later r earlier top a callers, past = later ++ r :: earlier →
    r.context.stack = top :: a :: callers →
    ∀ v, r.value? = some v → ∃ during m before callee, earlier = during ++ m :: before ∧
      m.IsCall a callee callers ∧
      top.origin = callee.origin ∧ ∀ m' ∈ during, Waits a callee callers m'.context.stack
  /-- A script has the value on top of what the call has left of its operands. -/
  script : ∀ m ∈ past, ∀ top callers a callee f, m.context.stack = top :: callers →
    m.IsCall a callee callers →
    top.frame = .script f → ∃ i k, f.code[f.position]? = some i ∧ i.taken? = some k ∧
      k ≤ f.operands.length ∧
      a =
        top.withFrame
          (.script { f with position := f.position + 1, operands := f.operands.drop k }) ∧
      ∀ v, a.receive v =
        top.withFrame
          (.script { f with position := f.position + 1, operands := v :: f.operands.drop k })
  /-- A routine goes on with the value if it was returned in the step before, else with null. -/
  routine : ∀ later m earlier top callers f, past = later ++ m :: earlier →
    m.context.stack = top :: callers →
    top.frame = .routine f → f.returned = earlier.head?.bind Moment.value? ∧
      ∀ rest, f.rest = some rest →
        top.resumption f = .ok (rest ((earlier.head?.bind Moment.value?).getD .null))
  faulted : ∀ why, c.state = .faulted why → c.stack = [] ∧ past.head?.bind Moment.value? = none

theorem Course.callsMatch {past : List Moment} {c : Context} (h : Course past c) :
    CallsMatch past c where
  calls since m earlier a callee callers heq hcall := by
    subst heq
    exact h.fate hcall
  returns later r earlier top a callers heq hstack v hvalue := by
    subst heq
    obtain ⟨hbefore, hunfinished⟩ := h.before
    exact hbefore.call_of_return hunfinished hstack
  script m hm top callers a callee f hstack hcall hframe := by
    obtain ⟨_, i, k, hcode, htaken, hle, rfl⟩ := hcall.script hstack hframe
    exact ⟨i, k, hcode, htaken, hle, rfl, fun v => rfl⟩
  routine later m earlier top callers f heq hstack hframe := by
    subst heq
    have hreturned := h.before.1.coherent.returned top callers f hstack hframe
    refine ⟨hreturned, fun rest hrest => ?_⟩
    rw [← hreturned, Activation.resumption, hrest]
  faulted why hstate := by
    have hfinished : c.isFinished := by rw [Context.isFinished, hstate]
    refine ⟨h.coherent.finished hfinished, ?_⟩
    cases h with
    | opened => rfl
    | @step past m progress rt hbefore hunfinished hstep =>
      obtain ⟨top, callers, _, hmoves⟩ := hbefore.coherent.moves hunfinished hstep
      cases hmoves with
      | works | returns | calls =>
        exact absurd hfinished (Context.unfinished_of_running hunfinished hstep)
      | ends => cases hstate
      | defers => cases hstate
      | faults hfaults =>
        rw [List.head?_cons, Option.bind_some, Moment.value?]
        cases hfaults with
        | raised hreport => rw [hreport]
        | refused hreport _ => rw [hreport]

end ProcEngine
