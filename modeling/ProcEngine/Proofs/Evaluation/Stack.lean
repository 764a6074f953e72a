import ProcEngine.Proofs.Evaluation.Step
/-!
# The stack and the recursion

Running a stack of activations is evaluating the innermost one and handing its value to the next.
Each direction is an induction on the fuel of the side that is known to come to an end: a run that
ends has evaluated its innermost activation on the way (`resolves_evaluate`), and an evaluation that
ends can be followed by a run (`reaches_evaluate`).
-/

namespace ProcEngine

/-! ### Activations keep to their context -/

namespace Activation

@[simp] theorem receive_context (a : Activation) (v : Value) :
    (a.receive v).context = a.context := by
  simp only [receive]
  split <;> rfl

@[simp] theorem fetch_context (a : Activation) : a.fetch.2.context = a.context := by
  simp only [fetch]
  split
  · split <;> rfl
  · rfl

/-- Whether an activation, and the one that it calls if it calls one, belong to a context. -/
def KeepsTo (id : ContextId) (x : Act Runtime (Activation × Signal)) : Prop :=
  ∀ rt a signal rt', x rt = .ok (a, signal) rt' → a.context = id ∧ ∀ b, signal = .called b →
    b.context = id

theorem keepsTo_pure {id : ContextId} {a : Activation} (ha : a.context = id) {signal : Signal}
    (h : ∀ b, signal ≠ .called b) : KeepsTo id (pure (a, signal)) := by
  intro rt _ _ _ heq
  cases heq
  exact ⟨ha, fun b hb => absurd hb (h b)⟩

theorem keepsTo_raise {id : ContextId} {e : Fault} : KeepsTo id (Act.raise e) := by
  intro rt _ _ _ heq
  cases heq

theorem keepsTo_call (a : Activation) (p : ProcRef) (i : Invocation) :
    KeepsTo a.context (a.call p i) := by
  intro rt _ _ _ heq
  cases heq
  refine ⟨rfl, fun b heq => ?_⟩
  cases heq
  rfl

theorem keepsTo_bind {α : Type} {id : ContextId} {x : Act Runtime α}
    {f : α → Act Runtime (Activation × Signal)}
    (h : ∀ v, KeepsTo id (f v)) : KeepsTo id (x >>= f) := by
  intro rt a signal rt' hx
  rw [Act.bind_apply] at hx
  cases hs : x rt with
  | ok v s => exact h v s a signal rt' (by simpa [hs] using hx)
  | fault e s => simp [hs] at hx
  | breach b s => simp [hs] at hx
  | exhausted => simp [hs] at hx

theorem meet_keepsTo (fuel : Nat) (a : Activation) (d : Demand) :
    KeepsTo a.context (a.meet fuel d) := by
  cases d with
  | proceed => exact keepsTo_pure rfl (by simp)
  | result v => exact keepsTo_pure rfl (by simp)
  | read o name => exact keepsTo_bind fun v => keepsTo_pure (receive_context a v) (by simp)
  | write o name v => exact keepsTo_bind fun _ => keepsTo_pure rfl (by simp)
  | delete o => exact keepsTo_bind fun _ => keepsTo_pure rfl (by simp)
  | call name args => exact keepsTo_bind fun p => keepsTo_call a p _
  | callMethod o name args => exact keepsTo_bind fun p => keepsTo_call a p _
  | callSuper args =>
    refine keepsTo_bind fun rt => ?_
    split
    · exact keepsTo_call a _ _
    · exact keepsTo_raise
  | construct path args => exact keepsTo_bind fun o => keepsTo_call a _ _
  | sleep ticks => exact keepsTo_pure rfl (by simp)
  | finish v => exact keepsTo_pure rfl (by simp)

theorem step_keepsTo (fuel : Nat) (drive : Drive) (a : Activation) (instr : Option Instr) :
    KeepsTo a.context (a.step fuel drive instr) := by
  simp only [step]
  split
  · simp only [stepScript]
    split
    · exact keepsTo_bind fun v => keepsTo_bind fun _ => keepsTo_pure rfl (by simp)
    · split
      · exact keepsTo_pure rfl (by simp)
      · exact keepsTo_bind fun p => meet_keepsTo fuel (a.withFrame _) p.1
  · exact keepsTo_bind fun i => keepsTo_bind fun v => keepsTo_pure rfl (by simp)
  · refine keepsTo_bind fun r => keepsTo_bind fun pause => ?_
    cases pause with
    | invoke p i rest => exact keepsTo_call (a.withFrame _) p i
    | finished v => exact keepsTo_pure rfl (by simp)
    | sleep ticks rest => exact keepsTo_pure rfl (by simp)
    | wait rest => exact keepsTo_pure rfl (by simp)

end Activation

namespace Context

variable (c : Context)

/-- The context with another stack. -/
def on (stack : List Activation) : Context := { c with stack }

/-- Hands the value of an activation that is done to the next one, `m` being the fuel left; the
value of the last one is the value of the context. -/
def deliver (callers : List Activation) (m : Nat) (v : Value) : Act Runtime (Value × Context) :=
  match callers with
  | [] => return (v, { c with stack := [], state := .returned })
  | caller :: rest => run m (c.on (caller.receive v :: rest))

/-- A run of a context whose innermost activation, above `callers`, evaluates to `y`. -/
def Resolves (callers : List Activation) (m : Nat) (x : Outcome Runtime (Value × Context)) :
    Outcome Runtime Ending → Prop
  | .ok (.value v) rt => x = c.deliver callers m v rt
  | .ok .deferred rt => ∃ v stack w, x = .ok (v, { c with stack, state := .deferred w }) rt
  | .fault e rt =>
    ∃ trace, x = .ok (.null, { c with stack := [], state := .faulted e })
      (rt.tell (.fault c.id e trace))
  | .breach b rt => x = .breach b rt
  | .exhausted => False

/-- The activations on a stack belong to the context. -/
def Own (stack : List Activation) : Prop := ∀ a ∈ stack, a.context = c.id

variable {c}

theorem Resolves.ne_exhausted {callers : List Activation} {m : Nat}
    {x : Outcome Runtime (Value × Context)}
    {y : Outcome Runtime Ending} (h : c.Resolves callers m x y) : y ≠ .exhausted := by
  intro heq
  subst heq
  exact h

/-- A call is resolved by its callee and then by the caller. -/
theorem Resolves.andThen {a : Activation} {callers : List Activation} {m k : Nat}
    {x : Outcome Runtime (Value × Context)}
    {f : Value → Evaluator.Eval} {y : Evaluator.Eval} {rt : Runtime}
    (h : c.Resolves (a :: callers) k x (y rt)) (hf : ∀ v rt', y rt = .ok (.value v) rt' →
      c.Resolves callers m (run k (c.on (a.receive v :: callers)) rt') (f v rt')) :
    c.Resolves callers m x (Evaluator.andThen y f rt) := by
  simp only [Evaluator.andThen, Act.bind_apply]
  cases hy : y rt with
  | ok ending rt' =>
    rw [hy] at h
    cases ending with
    | value v =>
      rw [show x = _ from h]
      exact hf v rt' hy
    | deferred => exact h
  | fault e rt' => rw [hy] at h; exact h
  | breach b rt' => rw [hy] at h; exact h
  | exhausted => rw [hy] at h; exact h

theorem Own.cons {a : Activation} {stack : List Activation} (ha : a.context = c.id)
    (h : c.Own stack) :
    c.Own (a :: stack) := by
  intro b hb
  obtain rfl | hb := List.mem_cons.mp hb
  · exact ha
  · exact h b hb

/-- What running a stack does next, by what a step of the innermost activation, `top`, comes to. -/
def follow (c : Context) (top : Activation) (callers : List Activation) (m : Nat) :
    Outcome Runtime (Activation × Signal) → Outcome Runtime (Value × Context)
  | .ok (a, .proceed) rt => run m (c.on (a :: callers)) rt
  | .ok (a, .returned) rt => c.deliver callers m a.result rt
  | .ok (a, .deferred w) rt =>
    .ok (a.result, { c with stack := a :: callers, state := .deferred w }) rt
  | .ok (a, .called b) rt =>
    if c.maxDepth ≤ callers.length + 1 then
      .ok (.null, { c with stack := [], state := .faulted (.stackOverflow c.maxDepth) })
        (rt.tell (.fault c.id (.stackOverflow c.maxDepth) (c.on (a :: callers)).trace))
    else run m (c.on (b :: a :: callers)) rt
  | .fault e rt =>
    .ok (.null, { c with stack := [], state := .faulted e })
      (rt.tell (.fault c.id e (c.on (top :: callers)).trace))
  | .breach b rt => .breach b rt
  | .exhausted => .exhausted

theorem run_on {top : Activation} (htop : top.context = c.id) (callers : List Activation) (m : Nat)
    (rt : Runtime) :
    run (m + 1) (c.on (top :: callers)) rt =
      c.follow top.fetch.2 callers m (top.fetch.2.step m (run m) top.fetch.1 rt) := by
  simp only [run, step, on]
  cases hs : top.fetch.2.step m (run m) top.fetch.1 rt with
  | ok p rt' =>
    obtain ⟨a, signal⟩ := p
    obtain ⟨ha, hb⟩ := Activation.step_keepsTo m (run m) top.fetch.2 top.fetch.1 rt a signal rt' hs
    simp only [Activation.fetch_context, htop] at ha hb
    cases signal with
    | proceed => rfl
    | returned => cases callers <;> rfl
    | deferred w => rfl
    | called b =>
      by_cases hd : c.maxDepth ≤ callers.length + 1
      · simp only [proceed, push, hb b rfl, ne_eq, not_true_eq_false, if_false, follow,
          List.length_cons, hd, if_true]
        rfl
      · simp only [proceed, push, hb b rfl, ne_eq, not_true_eq_false, if_false, follow,
          List.length_cons, hd]
        rfl
  | fault e rt' => rfl
  | breach b rt' => rfl
  | exhausted => rfl

/-! ### From the stack to the recursion -/

open Evaluator

theorem own_after_step {top a : Activation} {callers : List Activation} (h : c.Own (top :: callers))
    {m : Nat} {signal : Signal} {rt rt' : Runtime}
    (hs : top.fetch.2.step m (run m) top.fetch.1 rt = .ok (a, signal) rt') :
    c.Own (a :: callers) ∧ ∀ b, signal = .called b → c.Own (b :: a :: callers) := by
  obtain ⟨ha, hb⟩ := Activation.step_keepsTo m (run m) top.fetch.2 top.fetch.1 rt a signal rt' hs
  rw [Activation.fetch_context, h top List.mem_cons_self] at ha hb
  have hcallers : c.Own callers := fun b hb => h b (List.mem_cons_of_mem _ hb)
  exact ⟨hcallers.cons ha, fun b hsignal => (hcallers.cons ha).cons (hb b hsignal)⟩

theorem Own.receive {a : Activation} {callers : List Activation} (h : c.Own (a :: callers))
    (v : Value) :
    c.Own (a.receive v :: callers) := by
  have hcallers : c.Own callers := fun b hb => h b (List.mem_cons_of_mem _ hb)
  exact hcallers.cons ((a.receive_context v).trans (h a List.mem_cons_self))

/-- A run that ends has evaluated its innermost activation. Less fuel is left after that. -/
theorem resolves_evaluate (n : Nat) {a : Activation} {callers : List Activation}
    (h : c.Own (a :: callers)) {rt : Runtime} (hrun : run n (c.on (a :: callers)) rt ≠ .exhausted) :
    ∃ m < n, c.Resolves callers m (run n (c.on (a :: callers)) rt)
      (evaluate c.maxDepth n (callers.length + 1) a rt) := by
  induction n using Nat.strongRecOn generalizing a callers rt with
  | ind n ih =>
    cases n with
    | zero => exact absurd rfl hrun
    | succ n =>
      rw [run_on (h a List.mem_cons_self)] at hrun ⊢
      have hle := after_le_evaluate c.maxDepth n (callers.length + 1) a rt
      -- Evaluating the whole activation has more fuel than what follows its first step, which makes
      -- no difference where that comes to an end.
      suffices hafter : ∃ m < n + 1, c.Resolves callers m
          (c.follow a.fetch.2 callers n (a.fetch.2.step n (run n) a.fetch.1 rt))
          (after c.maxDepth (callers.length + 1) (evaluate c.maxDepth n (callers.length + 1))
            (evaluate c.maxDepth n (callers.length + 1 + 1))
              (evaluate c.maxDepth n (callers.length + 1))
            (a.fetch.2.step n (run n) a.fetch.1 rt)) by
        obtain ⟨m, hm, hr⟩ := hafter
        exact ⟨m, hm, Outcome.eq_of_le hle hr.ne_exhausted ▸ hr⟩
      cases hs : a.fetch.2.step n (run n) a.fetch.1 rt with
      | ok p rt' =>
        obtain ⟨b, signal⟩ := p
        obtain ⟨hb, hcallee⟩ := own_after_step h hs
        rw [hs] at hrun
        cases signal with
        | proceed =>
          obtain ⟨m, hm, hr⟩ := ih n (by omega) hb hrun
          exact ⟨m, by omega, hr⟩
        | returned => exact ⟨n, by omega, rfl⟩
        | deferred w => exact ⟨n, by omega, b.result, b :: callers, w, rfl⟩
        | called d =>
          simp only [follow, after] at hrun ⊢
          split at hrun <;> rename_i hd
          · simp only [hd, if_true]
            exact ⟨n, by omega, (c.on (b :: callers)).trace, rfl⟩
          · simp only [hd, if_false]
            obtain ⟨m, hm, hr⟩ := ih n (by omega) (hcallee d rfl) hrun
            rw [List.length_cons] at hr
            by_cases hv : ∃ v rt'', evaluate c.maxDepth n (callers.length + 1 + 1) d rt' =
              .ok (.value v) rt''
            · -- The callee has come to a value, and what is left of the run is one of the caller.
              obtain ⟨v, rt'', hv⟩ := hv
              have hrest : run n (c.on (d :: b :: callers)) rt' =
                  run m (c.on (b.receive v :: callers)) rt'' := by
                rw [hv] at hr
                exact hr
              obtain ⟨k, hk, hr'⟩ := ih m (by omega) (hb.receive v) (hrest ▸ hrun)
              have hmono :=
                Outcome.eq_of_le (evaluate_mono (D := c.maxDepth) (Nat.le_of_lt hm) _ _ _)
                  hr'.ne_exhausted
              refine ⟨k, by omega, hr.andThen fun v' s hv' => ?_⟩
              obtain ⟨⟨⟩, rfl⟩ : Ending.value v = Ending.value v' ∧ rt'' = s := by
                rw [hv] at hv'
                exact Outcome.ok.inj hv'
              rw [hmono]
              exact hr'
            · exact ⟨m, by omega, hr.andThen fun v s hv' => absurd ⟨v, s, hv'⟩ hv⟩
      | fault e rt' => exact ⟨n, by omega, (c.on (a.fetch.2 :: callers)).trace, rfl⟩
      | breach b rt' => exact ⟨n, by omega, rfl⟩
      | exhausted =>
        rw [hs] at hrun
        exact absurd rfl hrun

/-! ### From the recursion to the stack -/

/-- Above `callers`, and with fuel `n` or more to spare, a run of the context can be continued far
enough to resolve its innermost activation to `y`. -/
def Follows (c : Context) (n : Nat) (a : Activation) (callers : List Activation) (rt : Runtime)
    (y : Outcome Runtime Ending) : Prop :=
  y ≠ .exhausted → ∃ k, ∀ m ≥ n, c.Resolves callers m (run (m + k) (c.on (a :: callers)) rt) y

/-- What follows a step follows the activation. -/
theorem follows_after {n : Nat} {a : Activation} {callers : List Activation}
    (h : c.Own (a :: callers)) (rt : Runtime) {proceed callee resume : Activation → Eval}
    (hp : ∀ b rt', c.Own (b :: callers) → a.fetch.2.step n (run n) a.fetch.1 rt =
      .ok (b, .proceed) rt' →
      c.Follows n b callers rt' (proceed b rt'))
    (hc : ∀ b d rt', c.Own (d :: b :: callers) → a.fetch.2.step n (run n) a.fetch.1 rt =
      .ok (b, .called d) rt' →
      c.Follows n d (b :: callers) rt' (callee d rt'))
    (hr : ∀ b d rt' v rt'', c.Own (b :: callers) →
      a.fetch.2.step n (run n) a.fetch.1 rt = .ok (b, .called d) rt' →
      c.Follows n (b.receive v) callers rt'' (resume (b.receive v) rt'')) :
    c.Follows n a callers rt (after c.maxDepth (callers.length + 1) proceed callee resume
      (a.fetch.2.step n (run n) a.fetch.1 rt)) := by
  intro hy
  have hstep (m : Nat) (hm : n ≤ m) : run (m + 1) (c.on (a :: callers)) rt =
      c.follow a.fetch.2 callers m (a.fetch.2.step n (run n) a.fetch.1 rt) := by
    rw [run_on (h a List.mem_cons_self)]
    refine congrArg _ (Outcome.eq_of_le (Activation.step_mono hm (run_mono hm) _ _ rt) fun hx =>
      hy ?_)
    rw [hx]
    rfl
  cases hs : a.fetch.2.step n (run n) a.fetch.1 rt with
  | ok p rt' =>
    obtain ⟨b, signal⟩ := p
    obtain ⟨hb, hd⟩ := own_after_step h hs
    rw [hs] at hy hstep
    cases signal with
    | proceed =>
      obtain ⟨k, hk⟩ := hp b rt' hb hs hy
      refine ⟨k + 1, fun m hm => ?_⟩
      rw [← Nat.add_assoc, hstep (m + k) (by omega)]
      exact hk m hm
    | returned =>
      refine ⟨1, fun m hm => ?_⟩
      rw [hstep m hm]
      rfl
    | deferred w =>
      refine ⟨1, fun m hm => ?_⟩
      rw [hstep m hm]
      exact ⟨b.result, b :: callers, w, rfl⟩
    | called d =>
      simp only [after, follow] at hy hstep ⊢
      by_cases hdepth : c.maxDepth ≤ callers.length + 1
      · simp only [hdepth, if_true] at hstep ⊢
        refine ⟨1, fun m hm => ?_⟩
        rw [hstep m hm]
        exact ⟨(c.on (b :: callers)).trace, rfl⟩
      · simp only [hdepth, if_false] at hy hstep ⊢
        have hcallee : callee d rt' ≠ .exhausted :=
          fun hx => hy (by simp only [andThen, Act.bind_apply, hx])
        obtain ⟨k, hk⟩ := hc b d rt' (hd d rfl) hs hcallee
        by_cases hv : ∃ v rt'', callee d rt' = .ok (.value v) rt''
        · -- Once the callee is done, the caller goes on with whatever fuel was put aside for it.
          obtain ⟨v, rt'', hv⟩ := hv
          have hresume : andThen (callee d) (fun v => resume (b.receive v)) rt' =
              resume (b.receive v) rt'' := by
            simp only [andThen, Act.bind_apply, hv]
          rw [hresume] at hy ⊢
          obtain ⟨l, hl⟩ := hr b d rt' v rt'' hb hs hy
          refine ⟨l + k + 1, fun m hm => ?_⟩
          have hdone := hk (m + l) (by omega)
          rw [hv] at hdone
          rw [show m + (l + k + 1) = m + l + k + 1 by omega, hstep _ (by omega),
            show run (m + l + k) _ rt' = _ from hdone]
          exact hl m hm
        · refine ⟨k + 1, fun m hm => ?_⟩
          rw [← Nat.add_assoc, hstep (m + k) (by omega)]
          exact (hk m hm).andThen fun v s hv' => absurd ⟨v, s, hv'⟩ hv
  | fault e rt' =>
    rw [hs] at hstep
    refine ⟨1, fun m hm => ?_⟩
    rw [hstep m hm]
    exact ⟨(c.on (a.fetch.2 :: callers)).trace, rfl⟩
  | breach b rt' =>
    rw [hs] at hstep
    refine ⟨1, fun m hm => ?_⟩
    rw [hstep m hm]
    rfl
  | exhausted =>
    rw [hs] at hy
    exact absurd rfl hy

/-- All evaluations with fuel `n` can be followed. -/
def Reaches (c : Context) (n : Nat) : Prop :=
  ∀ a callers rt, c.Own (a :: callers) →
    c.Follows n a callers rt (evaluate c.maxDepth n (callers.length + 1) a rt)

/-- The evaluation of a routine that is about to go on with `r` can be followed. -/
def ReachesRoutine (c : Context) (n : Nat) (r : Routine) : Prop :=
  ∀ a f callers rt, a.frame = .routine f → a.resumption f = .ok r → c.Own (a :: callers) →
    c.Follows n a callers rt (evaluate c.maxDepth (n + 1) (callers.length + 1) a rt)

end Context

open Evaluator

namespace Activation

theorem fetch_routine {a : Activation} {f : RoutineFrame} (hframe : a.frame = .routine f) :
    a.fetch = (none, a) := by
  simp [fetch, hframe]

/-- What a routine is left with when it calls: what follows the call in it. -/
theorem step_routine_called {a b d : Activation} {f : RoutineFrame} (hframe : a.frame = .routine f)
    {n : Nat}
    {drive : Drive} {rt rt' : Runtime} (h : a.step n drive none rt = .ok (b, .called d) rt') :
    ∃ r rest p i rt₁, a.resumption f = .ok r ∧ r.advance (Runtime.serve n drive) rt =
      .ok (.invoke p i rest) rt₁ ∧
      b = a.withFrame (.routine { f with rest := some rest, returned := none }) := by
  simp only [step, hframe, stepRoutine, Act.bind_apply, Act.lift_apply] at h
  cases hr : a.resumption f with
  | error e => simp [hr] at h
  | ok r =>
    simp only [hr] at h
    cases hp : r.advance (Runtime.serve n drive) rt with
    | ok pause rt₁ =>
      rw [hp] at h
      cases pause with
      | invoke p i rest =>
        cases h
        exact ⟨r, rest, p, i, rt₁, rfl, hp, rfl⟩
      | finished v => cases h
      | sleep ticks rest => cases h
      | wait rest => cases h
    | fault e rt => simp [hp] at h
    | breach b rt => simp [hp] at h
    | exhausted => simp [hp] at h

end Activation

namespace Context

variable {c : Context}

/-- A routine can be followed from each of its calls on. -/
def CallsReach (c : Context) (n : Nat) (r : Routine) : Prop :=
  ∀ serve rt p i rest rt', r.advance serve rt = .ok (.invoke p i rest) rt' →
    ∀ v, c.ReachesRoutine n (rest v)

theorem CallsReach.reachesRoutine {n : Nat} {r : Routine} (hrest : c.CallsReach n r)
    (ih : c.Reaches n) :
    c.ReachesRoutine n r := by
  intro a f callers rt hframe hr hown
  rw [evaluate_routine_eq_after c.maxDepth hframe]
  refine follows_after hown rt (fun b rt' hb _ => ih b callers rt' hb) (fun b d rt' hd _ => ?_)
    fun b d rt' v rt'' hb hs => ?_
  · rw [← List.length_cons (a := b)]
    exact ih d (b :: callers) rt' hd
  · rw [Activation.fetch_routine hframe] at hs
    obtain ⟨r', rest, p, i, rt₁, hr', hp, rfl⟩ := Activation.step_routine_called hframe hs
    obtain rfl : r = r' := Except.ok.inj (hr.symm.trans hr')
    exact hrest _ rt p i rest rt₁ hp v _ _ callers rt'' rfl rfl (hb.receive v)

theorem callsReach {n : Nat} (ih : c.Reaches n) (r : Routine) : c.CallsReach n r := by
  induction r with
  | done v =>
    intro _ _ _ _ _ _ heq
    cases heq
  | fail e =>
    intro _ _ _ _ _ _ heq
    cases heq
  | ask r next ihr =>
    intro serve rt p i rest rt' h v
    cases r with
    | host r =>
      simp only [Routine.advance] at h
      cases hs : serve r rt with
      | ok answer rt₁ => exact ihr (.ok answer) serve rt₁ p i rest rt' (by rwa [hs] at h) v
      | fault e rt₁ => exact ihr (.error e) serve rt₁ p i rest rt' (by rwa [hs] at h) v
      | breach b rt₁ => simp [hs] at h
      | exhausted => simp [hs] at h
    | invoke p i =>
      cases h
      exact (ihr (.ok v)).reachesRoutine ih
    | sleep ticks => cases h
    | wait => cases h

/-- Evaluating a routine needs no more than that what it calls can be followed. -/
theorem Reaches.routine {n : Nat} (ih : c.Reaches n) {a : Activation} {f : RoutineFrame}
    (hframe : a.frame = .routine f)
    {callers : List Activation} (h : c.Own (a :: callers)) (rt : Runtime) :
    c.Follows n a callers rt (evaluate c.maxDepth (n + 1) (callers.length + 1) a rt) := by
  cases hr : a.resumption f with
  | ok r => exact (callsReach ih r).reachesRoutine ih a f callers rt hframe hr h
  | error e =>
    have hfault : a.fetch.2.step n (run n) a.fetch.1 rt = .fault e rt := by
      simp only [Activation.fetch_routine hframe, Activation.step, hframe, Activation.stepRoutine,
        Act.bind_apply, Act.lift_apply, hr]
    rw [evaluate_routine_eq_after c.maxDepth hframe]
    exact follows_after h rt (by simp [hfault]) (by simp [hfault]) (by simp [hfault])

theorem Follows.mono {n n' : Nat} (hn : n ≤ n') {a : Activation} {callers : List Activation}
    {rt : Runtime} {y : Outcome Runtime Ending} (h : c.Follows n a callers rt y) :
    c.Follows n' a callers rt y := by
  intro hy
  obtain ⟨k, hk⟩ := h hy
  exact ⟨k, fun m hm => hk m (by omega)⟩

/-- An evaluation that ends can be followed by a run of the stack. -/
theorem reaches_evaluate (n : Nat) : c.Reaches n := by
  induction n with
  | zero => exact fun _ _ _ _ hy => absurd rfl hy
  | succ n ih =>
    intro a callers rt h
    refine Follows.mono (Nat.le_succ n) ?_
    cases hframe : a.frame with
    | script f =>
      obtain ⟨k, hk, heq⟩ := evaluate_script_eq_after c.maxDepth hframe n (callers.length + 1) rt
      rw [heq]
      refine follows_after h rt (fun b rt' hb _ => ih b callers rt' hb) (fun b d rt' hd hs => ?_)
        fun b d rt' v rt'' hb _ => ih _ callers rt'' (hb.receive v)
      rw [← List.length_cons (a := b)]
      obtain rfl | ⟨rfl, hroutine⟩ := hk
      · exact ih d (b :: callers) rt' hd
      · obtain ⟨g, hg⟩ := hroutine b d rt' hs
        exact ih.routine hg hd rt'
    | handler run =>
      rw [evaluate_handler_eq_after c.maxDepth hframe n _
        (evaluate c.maxDepth n (callers.length + 1))
        (evaluate c.maxDepth n (callers.length + 1 + 1))
          (evaluate c.maxDepth n (callers.length + 1))]
      refine follows_after h rt (fun b rt' hb _ => ih b callers rt' hb) (fun b d rt' hd _ => ?_)
        fun b d rt' v rt'' hb _ => ih _ callers rt'' (hb.receive v)
      rw [← List.length_cons (a := b)]
      exact ih d (b :: callers) rt' hd
    | routine f => exact ih.routine hframe h rt

/-! ### The whole run -/

section Whole

variable {m : Nat} {x : Outcome Runtime (Value × Context)} {y : Outcome Runtime Ending}

theorem Resolves.returned_iff (h : c.Resolves [] m x y) (v : Value) (rt : Runtime) :
    (∃ c', x = .ok (v, c') rt ∧ c'.state = .returned) ↔ y = .ok (.value v) rt := by
  cases y with
  | ok ending rt' =>
    cases ending with
    | value v' =>
      rw [show x = .ok (v', { c with stack := [], state := .returned }) rt' from h]
      constructor
      · intro ⟨_, heq, _⟩
        cases heq
        rfl
      · intro heq
        cases heq
        exact ⟨_, rfl, rfl⟩
    | deferred =>
      obtain ⟨v', stack, w, rfl⟩ := h
      simp
  | fault e rt' =>
    obtain ⟨trace, rfl⟩ := h
    simp
  | breach b rt' =>
    obtain rfl := h
    simp
  | exhausted => exact h.elim

theorem Resolves.faulted_iff (h : c.Resolves [] m x y) (e : Fault) (t : ObjectTable) :
    (∃ c' rt, x = .ok (.null, c') rt ∧ c'.state = .faulted e ∧ rt.objects = t) ↔
      ∃ rt, y = .fault e rt ∧ rt.objects = t := by
  cases y with
  | ok ending rt' =>
    cases ending with
    | value v' =>
      rw [show x = .ok (v', { c with stack := [], state := .returned }) rt' from h]
      simp
    | deferred =>
      obtain ⟨v', stack, w, rfl⟩ := h
      simp
  | fault e' rt' =>
    obtain ⟨trace, rfl⟩ := h
    constructor
    · intro ⟨_, _, heq, hstate, ht⟩
      cases heq
      cases hstate
      exact ⟨rt', rfl, ht⟩
    · intro ⟨_, heq, ht⟩
      cases heq
      exact ⟨_, _, rfl, rfl, ht⟩
  | breach b rt' =>
    obtain rfl := h
    simp
  | exhausted => exact h.elim

theorem Resolves.deferred_iff (h : c.Resolves [] m x y) (rt : Runtime) :
    (∃ v c' w, x = .ok (v, c') rt ∧ c'.state = .deferred w) ↔ y = .ok .deferred rt := by
  cases y with
  | ok ending rt' =>
    cases ending with
    | value v' =>
      rw [show x = .ok (v', { c with stack := [], state := .returned }) rt' from h]
      simp
    | deferred =>
      obtain ⟨v', stack, w, rfl⟩ := h
      constructor
      · intro ⟨_, _, _, heq, _⟩
        cases heq
        rfl
      · intro heq
        cases heq
        exact ⟨_, _, _, rfl, rfl⟩
  | fault e rt' =>
    obtain ⟨trace, rfl⟩ := h
    simp
  | breach b rt' =>
    obtain rfl := h
    simp
  | exhausted => exact h.elim

theorem Resolves.breach_iff (h : c.Resolves [] m x y) (b : Breach) (rt : Runtime) :
    x = .breach b rt ↔ y = .breach b rt := by
  cases y with
  | ok ending rt' =>
    cases ending with
    | value v' =>
      rw [show x = .ok (v', { c with stack := [], state := .returned }) rt' from h]
      simp
    | deferred =>
      obtain ⟨v', stack, w, rfl⟩ := h
      simp
  | fault e rt' =>
    obtain ⟨trace, rfl⟩ := h
    simp
  | breach b' rt' =>
    obtain rfl := h
    simp
  | exhausted => exact h.elim

end Whole

theorem on_stack (c : Context) : c.on c.stack = c := rfl

/-- What can be told from a run of a context that holds one activation is what can be told from the
evaluation of that. -/
theorem exists_resume_iff {a : Activation} (hstack : c.stack = [a]) (ha : a.context = c.id)
    (hready : c.state = .ready)
    (rt : Runtime) {X : Outcome Runtime (Value × Context) → Prop}
    {Y : Outcome Runtime Ending → Prop}
    (hX : ¬ X .exhausted) (hY : ¬ Y .exhausted) (h : ∀ x y, c.Resolves [] 0 x y → (X x ↔ Y y)) :
    (∃ n, X (c.resume n rt)) ↔ ∃ n, Y (evaluate c.maxDepth n 1 a rt) := by
  have hresume (n : Nat) : c.resume n rt = run n (c.on [a]) rt := by
    rw [resume, isFinished, hready, ← hstack, on_stack]
    rfl
  have hown : c.Own [a] := Own.cons ha fun _ hb => absurd hb List.not_mem_nil
  constructor
  · rintro ⟨n, hn⟩
    have hne : run n (c.on [a]) rt ≠ .exhausted := fun hx => hX (hx ▸ hresume n ▸ hn)
    obtain ⟨m, _, hr⟩ := resolves_evaluate n hown hne
    exact ⟨n, (h _ _ hr).mp (hresume n ▸ hn)⟩
  · rintro ⟨n, hn⟩
    have hne : evaluate c.maxDepth n 1 a rt ≠ .exhausted := fun hx => hY (hx ▸ hn)
    obtain ⟨k, hk⟩ := reaches_evaluate n a [] rt hown hne
    exact ⟨n + k, (h _ _ (hresume (n + k) ▸ hk n (Nat.le_refl n))).mpr hn⟩

end Context

open Context in
/-- Resuming a context that holds a fresh activation refines evaluating that activation recursively:
the two return the same value, fail with the same fault, stop on the way or break a rule of the host
together, and leave the same objects behind. -/
theorem resume_refines_evaluate (rt₀ : Runtime) (D : Nat) (id : ContextId) (p : ProcRef)
    (i : Invocation) :
    let a := (rt₀.activate p id i).1
    let rt := (rt₀.activate p id i).2
    let c : Context := { id, maxDepth := D, stack := [a] }
    (∀ v rt', (∃ n c', c.resume n rt = .ok (v, c') rt' ∧ c'.state = .returned) ↔
        ∃ n, evaluate D n 1 a rt = .ok (.value v) rt') ∧
      (∀ e t, (∃ n c' rt', c.resume n rt = .ok (.null, c') rt' ∧ c'.state = .faulted e ∧
        rt'.objects = t) ↔
        ∃ n rt', evaluate D n 1 a rt = .fault e rt' ∧ rt'.objects = t) ∧
      (∀ rt', (∃ n v c' w, c.resume n rt = .ok (v, c') rt' ∧ c'.state = .deferred w) ↔
        ∃ n, evaluate D n 1 a rt = .ok .deferred rt') ∧
      ∀ b rt', (∃ n, c.resume n rt = .breach b rt') ↔ ∃ n, evaluate D n 1 a rt = .breach b rt' := by
  intro a rt c
  refine ⟨fun v rt' => ?_, fun e t => ?_, fun rt' => ?_, fun b rt' => ?_⟩
  · exact exists_resume_iff (c := c) (a := a) rfl rfl rfl rt (by simp) (by simp) fun _ _ h =>
      h.returned_iff v rt'
  · exact exists_resume_iff (c := c) (a := a) rfl rfl rfl rt (by simp) (by simp) fun _ _ h =>
      h.faulted_iff e t
  · exact exists_resume_iff (c := c) (a := a) rfl rfl rfl rt (by simp) (by simp) fun _ _ h =>
      h.deferred_iff rt'
  · exact exists_resume_iff (c := c) (a := a) rfl rfl rfl rt (by simp) (by simp) fun _ _ h =>
      h.breach_iff b rt'

end ProcEngine
