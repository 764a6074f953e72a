import ProcEngine.Proofs.Evaluation.Evaluator
/-!
# One step of an activation

`after` says what an evaluation comes to, given what the next step of the activation came to.
Evaluation is shown to obey it for scripts, handlers and routines alike (`evaluate_eq_after`), which
is all that the comparison with the stack has to know of the evaluator.
-/

namespace ProcEngine

theorem Act.lift_apply {σ α : Type} (x : Except Fault α) (s : σ) :
    (liftM x : Act σ α) s = match x with
      | .ok a => .ok a s
      | .error e => .fault e s := rfl

namespace Evaluator

/-! ### More fuel -/

variable {D m n : Nat}

theorem andThen_mono {x y : Eval} {f g : Value → Eval} (h : x ≤ y) (hf : ∀ v, f v ≤ g v) :
    andThen x f ≤ andThen y g := by
  refine Act.bind_mono h fun ending => ?_
  cases ending with
  | value v => exact hf v
  | deferred => exact Act.le_refl _

theorem callAt_mono {evaluate evaluate' : Nat → Activation → Eval}
    (h : ∀ level a, evaluate level a ≤ evaluate' level a)
    (context : ContextId) (level : Nat) (p : ProcRef) (i : Invocation) :
    callAt D evaluate context level p i ≤ callAt D evaluate' context level p i := by
  refine Act.bind_mono_right fun a => ?_
  split
  · exact Act.le_refl _
  · exact h _ a

theorem callSome_mono {call call' : Call} (h : ∀ p i, call p i ≤ call' p i)
    {ask ask' : Act Runtime (Option ProcRef)}
    (hask : ask ≤ ask') (i : Invocation) : callSome call ask i ≤ callSome call' ask' i := by
  refine Act.bind_mono hask fun p => ?_
  cases p with
  | some p => exact h p i
  | none => exact Act.le_refl _

theorem chain_mono {serve serve' : Serve} (hserve : ∀ r, serve r ≤ serve' r) {call call' : Call}
    (h : ∀ p i, call p i ≤ call' p i) (object : ObjectRef) (usr : Option ObjectRef)
    (arguments : Arguments) :
    chain serve call object usr arguments ≤ chain serve' call' object usr arguments := by
  refine andThen_mono (callSome_mono h (hserve _) _) fun _ =>
    Act.bind_mono (hserve _) fun wanted => ?_
  split
  · exact andThen_mono (callSome_mono h (hserve _) _) fun _ => Act.le_refl _
  · exact Act.le_refl _

theorem routine_mono {serve serve' : Serve} (hserve : ∀ r, serve r ≤ serve' r) {call call' : Call}
    (h : ∀ p i, call p i ≤ call' p i) (r : Routine) :
    routine serve call r ≤ routine serve' call' r := by
  induction r with
  | done v => exact Act.le_refl _
  | fail e => exact Act.le_refl _
  | ask r next ih =>
    intro rt
    cases r with
    | host r =>
      simp only [routine]
      rcases hserve r rt with hx | hx
      · rw [hx]
        exact Outcome.exhausted_le _
      · rw [← hx]
        cases serve r rt with
        | ok answer rt => exact ih (.ok answer) rt
        | fault e rt => exact ih (.error e) rt
        | breach b rt => exact Outcome.le_refl _
        | exhausted => exact Outcome.le_refl _
    | invoke p i => exact andThen_mono (h p i) (fun v => ih (.ok v)) rt
    | sleep ticks => exact Outcome.le_refl _
    | wait => exact Outcome.le_refl _

theorem instruction_mono (hmn : m ≤ n) {call call' : Call} (hcall : ∀ p i, call p i ≤ call' p i)
    {construct construct' : ObjectRef → Option ObjectRef → Arguments → Eval}
    (hconstruct : ∀ o usr arguments, construct o usr arguments ≤ construct' o usr arguments)
    {next next' : Activation → Eval} (hnext : ∀ a, next a ≤ next' a) (a : Activation)
    (f : ScriptFrame) (i : Instr) :
    instruction m call construct next a f i ≤ instruction n call' construct' next' a f i := by
  cases i with
  | call name argc =>
    exact Act.bind_mono_right fun _ => Act.bind_mono_right fun p =>
      andThen_mono (hcall p _) fun v => hnext _
  | callMethod name argc =>
    exact Act.bind_mono_right fun _ => Act.bind_mono_right fun _ => Act.bind_mono_right fun _ =>
      Act.bind_mono_right fun p => andThen_mono (hcall p _) fun v => hnext _
  | callSuper argc =>
    refine Act.bind_mono_right fun _ => Act.bind_mono_right fun rt => ?_
    cases (rt.proc a.proc).overridden with
    | some p => exact andThen_mono (hcall p _) fun v => hnext _
    | none => exact Act.le_refl _
  | new path argc =>
    exact Act.bind_mono_right fun _ =>
      Act.bind_mono (Runtime.onStore_mono (Store.serve_mono hmn _)) fun o =>
      andThen_mono (hconstruct o _ _) fun v => hnext _
  | sleep => exact Act.le_refl _
  | ret => exact Act.le_refl _
  | _ =>
    exact Act.bind_mono_right fun _ => Act.bind_mono (Activation.meet_mono hmn _ _) fun _ => hnext _

theorem evaluate_mono (h : m ≤ n) (level : Nat) (a : Activation) :
    evaluate D m level a ≤ evaluate D n level a := by
  induction m generalizing n level a with
  | zero => exact Act.exhausted_le fun _ => rfl
  | succ m ih =>
    obtain ⟨n, rfl⟩ : ∃ k, n = k + 1 := ⟨n - 1, by omega⟩
    have hmn : m ≤ n := by omega
    have hserve := Runtime.serve_mono hmn (Context.run_mono hmn)
    have hcall := callAt_mono (D := D) (fun level a => ih hmn level a) a.context
    simp only [evaluate]
    split
    · simp only [script]
      split
      · exact Act.bind_mono_right fun _ => Act.bind_mono_right fun _ => ih hmn _ _
      · split
        · refine instruction_mono hmn (hcall _) (fun o usr arguments => ?_) (ih hmn level) a _ _
          split
          · exact Act.le_refl _
          · exact chain_mono hserve (hcall _) o usr arguments
        · exact Act.le_refl _
    · exact Act.bind_mono_right fun _ => Act.bind_mono (Program.run_mono hserve _) fun _ =>
        Act.le_refl _
    · exact Act.bind_mono_right fun r => routine_mono hserve (hcall _) r

/-! ### Routines -/

/-- What the evaluation of a routine comes to, given the pause that it has come to. -/
def afterPause (serve : Serve) (call : Call) : Outcome Runtime Pause → Outcome Runtime Ending
  | .ok (.finished v) rt => .ok (.value v) rt
  | .ok (.invoke p i rest) rt => andThen (call p i) (fun v => routine serve call (rest v)) rt
  | .ok (.sleep _ _) rt | .ok (.wait _) rt => .ok .deferred rt
  | .fault e rt => .fault e rt
  | .breach b rt => .breach b rt
  | .exhausted => .exhausted

theorem routine_eq_afterPause (serve : Serve) (call : Call) (r : Routine) (rt : Runtime) :
    routine serve call r rt = afterPause serve call (r.advance serve rt) := by
  induction r generalizing rt with
  | done v => rfl
  | fail e => rfl
  | ask r next ih =>
    cases r with
    | host r =>
      simp only [routine, Routine.advance]
      cases serve r rt with
      | ok answer rt => exact ih _ rt
      | fault e rt => exact ih _ rt
      | breach b rt => rfl
      | exhausted => rfl
    | invoke p i => rfl
    | sleep ticks => rfl
    | wait => rfl

theorem routine_runInitializer_bind (serve : Serve) (call : Call) (object : ObjectRef)
    (rest : Value → Routine) :
    routine serve call (Construction.runInitializer object >>= rest) =
      andThen (callSome call (serve (.initializer object)) { src := some object })
        fun v => routine serve call (rest v) := by
  funext rt
  simp only [Construction.runInitializer, Construction.host, Program.request, bind, Program.bind,
    routine, andThen, callSome, Act.bind]
  cases serve (.initializer object) rt with
  | ok p rt => cases p <;> rfl
  | fault e rt => rfl
  | breach b rt => rfl
  | exhausted => rfl

theorem routine_runConstructor_bind (serve : Serve) (call : Call) (object : ObjectRef)
    (i : Invocation) (rest : Value → Routine) :
    routine serve call (Construction.runConstructor object i >>= rest) =
      andThen (callSome call (serve (.method? object Construction.constructorName))
        { src := some object, usr := i.usr, arguments := i.arguments }) fun v =>
          routine serve call (rest v) := by
  funext rt
  simp only [Construction.runConstructor, Construction.host, Program.request, bind, Program.bind,
    routine, andThen, callSome, Act.bind]
  cases serve (.method? object Construction.constructorName) rt with
  | ok p rt => cases p <;> rfl
  | fault e rt => rfl
  | breach b rt => rfl
  | exhausted => rfl

theorem routine_host_bind (serve : Serve) (call : Call) (r : HostRequest)
    (rest : r.Answer → Routine) :
    routine serve call (Construction.host r >>= rest) =
      serve r >>= fun answer => routine serve call (rest answer) := by
  funext rt
  simp only [Construction.host, Program.request, bind, Program.bind, routine, Act.bind]
  cases serve r rt <;> rfl

/-- Evaluating the `(init)` proc is evaluating the chain of construction. -/
theorem routine_construction (serve : Serve) (call : Call) (object : ObjectRef)
    (usr : Option ObjectRef) (arguments : Arguments) :
    routine serve call (Construction.routine { src := some object, usr, arguments }) =
      chain serve call object usr arguments := by
  refine (routine_runInitializer_bind ..).trans (congrArg (andThen _) (funext fun _ => ?_))
  refine (routine_host_bind ..).trans (congrArg (serve (.created object arguments) >>= ·)
    (funext fun wanted => ?_))
  cases (wanted : Bool) with
  | true => exact routine_runConstructor_bind ..
  | false => rfl

/-! ### The step -/

variable (D) in
/-- What the evaluation of an activation active as the `level`-th comes to, given what a step of it
has come to: `proceed` evaluates what is left of it, `callee` the activation it calls and `resume`
what is left of it once it has been handed the value of that. -/
def after (level : Nat) (proceed callee resume : Activation → Eval) :
    Outcome Runtime (Activation × Signal) → Outcome Runtime Ending
  | .ok (a, .proceed) rt => proceed a rt
  | .ok (a, .returned) rt => .ok (.value a.result) rt
  | .ok (_, .deferred _) rt => .ok .deferred rt
  | .ok (a, .called b) rt =>
    if D ≤ level then .fault (.stackOverflow D) rt else andThen (callee b)
      (fun v => resume (a.receive v)) rt
  | .fault e rt => .fault e rt
  | .breach b rt => .breach b rt
  | .exhausted => .exhausted

theorem after_mono {level : Nat}
    {proceed callee resume proceed' callee' resume' : Activation → Eval}
    (hp : ∀ a, proceed a ≤ proceed' a) (hc : ∀ a, callee a ≤ callee' a)
    (hr : ∀ a, resume a ≤ resume' a) (x : Outcome Runtime (Activation × Signal)) :
    after D level proceed callee resume x ≤ after D level proceed' callee' resume' x := by
  cases x with
  | ok p rt =>
    obtain ⟨a, signal⟩ := p
    cases signal with
    | proceed => exact hp a rt
    | returned => exact Outcome.le_refl _
    | deferred w => exact Outcome.le_refl _
    | called b =>
      simp only [after]
      split
      · exact Outcome.le_refl _
      · exact andThen_mono (hc b) (fun v => hr _) rt
  | fault e rt => exact Outcome.le_refl _
  | breach b rt => exact Outcome.le_refl _
  | exhausted => exact Outcome.le_refl _

theorem lastPushed_eq_popArguments (f : ScriptFrame) (argc : UInt64) :
    lastPushed f argc = f.popArguments argc := by
  simp only [lastPushed, ScriptFrame.popArguments, List.length_reverse]
  split
  · rfl
  · rename_i h
    rw [List.drop_reverse, List.take_reverse, List.reverse_reverse,
      show f.operands.length - (f.operands.length - argc.toNat) = argc.toNat by omega]

/-- A script's step, from binding its arguments on. -/
theorem step_fetch_script {a : Activation} {f : ScriptFrame} (hframe : a.frame = .script f)
    (fuel : Nat) (drive : Drive) :
    a.fetch.2.step fuel drive a.fetch.1 = match f.locals with
      | none => do
        let values ← a.bind
        Act.need (f.HasRoom values) (f.shortage values)
        return (a.withFrame (.script (f.start values)), .proceed)
      | some _ =>
        match f.code[f.position]? with
        | some i => do
          let (demand, f) ← { f with position := f.position + 1 }.exec a.src a.usr i
          (a.withFrame (.script f)).meet fuel demand
        | none => return (a, .returned) := by
  obtain ⟨context, proc, signature, invocation, result, frame⟩ := a
  subst hframe
  cases hl : f.locals with
  | none => simp [Activation.fetch, Activation.step, Activation.stepScript, hl]
  | some slots =>
    cases hi : f.code[f.position]? with
    | none =>
      simp [Activation.fetch, ScriptFrame.fetch, Activation.step, Activation.stepScript, hl, hi]
    | some i =>
      simp [Activation.fetch, ScriptFrame.fetch, Activation.step, Activation.stepScript, hl, hi,
        Activation.withFrame, Activation.src, Activation.usr]

/-- What an instruction asks for if it neither calls nor stops. -/
def IsLocal : Demand → Prop
  | .proceed | .result _ | .read .. | .write .. | .delete _ => True
  | _ => False

/-- The instructions that stay within their own frame and the objects. -/
def Stays : Instr → Prop
  | .call .. | .callMethod .. | .callSuper _ | .new .. | .sleep | .ret => False
  | _ => True

theorem local_of_exec {f f' : ScriptFrame} {src usr : Option ObjectRef} {i : Instr}
    (hi : Stays i) {d : Demand} (h : f.exec src usr i = .ok (d, f')) : IsLocal d := by
  cases i with
  | call | callMethod | callSuper | new | sleep | ret => exact hi.elim
  | _ =>
    simp only [ScriptFrame.exec, ScriptFrame.binary, bind, Except.bind, pure, Except.pure] at h
    (repeat' split at h) <;> cases h <;> trivial

theorem meet_local {a a' : Activation} {d : Demand} (hd : IsLocal d) {fuel : Nat} {signal : Signal}
    {rt rt' : Runtime} (h : a.meet fuel d rt = .ok (a', signal) rt') : signal = .proceed := by
  cases d with
  | proceed => cases h; rfl
  | result v => cases h; rfl
  | read o name =>
    simp only [Activation.meet, Act.bind_apply] at h
    split at h <;> cases h
    rfl
  | write o name v =>
    simp only [Activation.meet, Act.bind_apply] at h
    split at h <;> cases h
    rfl
  | delete o =>
    simp only [Activation.meet, Act.bind_apply] at h
    split at h <;> cases h
    rfl
  | _ => exact hd.elim

/-- The activation of construction. -/
def initActivation (context : ContextId) (object : ObjectRef) (usr : Option ObjectRef)
    (arguments : Arguments) :
    Activation where
  context
  proc := Runtime.init
  signature := Construction.proc.signature
  invocation := { src := some object, usr, arguments }
  frame := .routine { passThrough := true, start := fun i _ => Construction.routine i }

theorem enter_init (context : ContextId) (object : ObjectRef) (usr : Option ObjectRef)
    (arguments : Arguments) :
    Runtime.enter Runtime.init context { src := some object, usr, arguments } =
      pure (initActivation context object usr arguments) := rfl

theorem evaluate_init (D n level : Nat) (context : ContextId) (object : ObjectRef)
    (usr : Option ObjectRef) (arguments : Arguments) :
    evaluate D (n + 1) level (initActivation context object usr arguments) =
      chain (Runtime.serve n (Context.run n))
        (callAt D (evaluate D n) context level) object usr arguments :=
  routine_construction ..

/-- How a call that has been looked up agrees with the step that makes it. -/
theorem callAt_eq_after (evaluate : Nat → Activation → Eval) (resume : Activation → Eval)
    (proceed : Activation → Eval)
    (level : Nat) (a : Activation) (p : ProcRef) (i : Invocation) (rt : Runtime) :
    andThen (callAt D evaluate a.context level p i) (fun v => resume (a.receive v)) rt =
      after D level proceed (evaluate (level + 1)) resume (a.call p i rt) := by
  by_cases hD : D ≤ level <;>
    simp only [callAt, Activation.call, andThen, bind, Act.bind, Runtime.enter, pure, Act.pure,
      after, hD, if_true, if_false, Act.raise]

/-- Construction agrees with the step that calls the `(init)` proc. -/
theorem chain_eq_after (n level : Nat) (resume : Activation → Eval) (proceed : Activation → Eval)
    (a : Activation)
    (object : ObjectRef) (usr : Option ObjectRef) (arguments : Arguments) (rt : Runtime) :
    andThen (if D ≤ level then Act.raise (.stackOverflow D)
        else chain (Runtime.serve n (Context.run n)) (callAt D (evaluate D n) a.context (level + 1))
          object usr arguments)
      (fun v => resume (a.receive v)) rt =
      after D level proceed (evaluate D (n + 1) (level + 1)) resume
        (a.call Runtime.init { src := some object, usr, arguments } rt) := by
  rw [← callAt_eq_after, ← evaluate_init, callAt, enter_init]
  rfl

section Script

variable (D) (n level : Nat) (a : Activation) (f : ScriptFrame)

/-- Evaluates an instruction as part of an evaluation with fuel `n + 1`. -/
abbrev evaluateInstruction (i : Instr) : Eval :=
  instruction n (callAt D (evaluate D n) a.context level)
    (fun object usr arguments => if D ≤ level then Act.raise (.stackOverflow D)
      else chain (Runtime.serve n (Context.run n)) (callAt D (evaluate D n) a.context (level + 1))
        object usr arguments)
    (evaluate D n level) a f i

/-- Executes an instruction as a step does. -/
abbrev stepInstruction (i : Instr) : Act Runtime (Activation × Signal) := do
  let (demand, f) ← f.exec a.src a.usr i
  (a.withFrame (.script f)).meet n demand

/-- The fuel that is left to what an instruction calls: construction, spelled out as a chain, uses
up none. -/
def calleeFuel : Instr → Nat
  | .new .. => n + 1
  | _ => n

/-- `after` for one instruction. -/
abbrev InstructionAfter (i : Instr) (rt : Runtime) : Prop :=
  evaluateInstruction D n level a f i rt =
    after D level (evaluate D n level) (evaluate D (calleeFuel n i) (level + 1))
      (evaluate D n level)
      (stepInstruction n a f i rt)

theorem instruction_stays {i : Instr} (hi : Stays i) (rt : Runtime) :
    InstructionAfter D n level a f i rt := by
  have hrest : evaluateInstruction D n level a f i = (do
      let q ← f.exec a.src a.usr i
      let q ← (a.withFrame (.script q.2)).meet n q.1
      evaluate D n level q.1) := by
    cases i <;> first | rfl | exact hi.elim
  rw [InstructionAfter, hrest]
  simp only [stepInstruction, Act.bind_apply, Act.lift_apply]
  cases hexec : f.exec a.src a.usr i with
  | error e => rfl
  | ok p =>
    obtain ⟨d, g⟩ := p
    dsimp only
    cases hm : (a.withFrame (.script g)).meet n d rt with
    | ok q rt' =>
      obtain ⟨b, signal⟩ := q
      rw [meet_local (local_of_exec hi hexec) hm]
      rfl
    | fault e rt' => rfl
    | breach b rt' => rfl
    | exhausted => rfl

theorem instruction_call (name : String) (argc : UInt64) (rt : Runtime) :
    InstructionAfter D n level a f (.call name argc) rt := by
  unfold InstructionAfter evaluateInstruction instruction
  simp only [stepInstruction, ScriptFrame.exec, lastPushed_eq_popArguments, Act.bind_apply,
    Act.lift_apply]
  cases f.popArguments argc with
  | error e => rfl
  | ok p =>
    obtain ⟨args, g⟩ := p
    simp only [bind, Except.bind, pure, Except.pure, Activation.meet, Act.bind, Runtime.ask]
    cases rt.global name with
    | error e => rfl
    | ok p => exact callAt_eq_after (evaluate D n) _ _ level (a.withFrame (.script g)) p _ rt

theorem instruction_callMethod (name : String) (argc : UInt64) (rt : Runtime) :
    InstructionAfter D n level a f (.callMethod name argc) rt := by
  unfold InstructionAfter evaluateInstruction instruction
  simp only [stepInstruction, ScriptFrame.exec, lastPushed_eq_popArguments, Act.bind_apply,
    Act.lift_apply]
  cases f.popArguments argc with
  | error e => rfl
  | ok p =>
    obtain ⟨args, g⟩ := p
    simp only [bind, Except.bind, pure, Except.pure]
    cases g.pop with
    | error e => rfl
    | ok p =>
      obtain ⟨target, g⟩ := p
      dsimp only
      cases target.asObject with
      | error e => rfl
      | ok o =>
        simp only [Activation.meet, bind, Act.bind, Runtime.ask]
        cases rt.objects.proc o name with
        | error e => rfl
        | ok p => exact callAt_eq_after (evaluate D n) _ _ level (a.withFrame (.script g)) p _ rt

theorem instruction_callSuper (argc : UInt64) (rt : Runtime) :
    InstructionAfter D n level a f (.callSuper argc) rt := by
  unfold InstructionAfter evaluateInstruction instruction
  simp only [stepInstruction, ScriptFrame.exec, lastPushed_eq_popArguments, Act.bind_apply,
    Act.lift_apply]
  cases f.popArguments argc with
  | error e => rfl
  | ok p =>
    obtain ⟨args, g⟩ := p
    have hproc : (a.withFrame (.script g)).proc = a.proc := rfl
    simp only [bind, Except.bind, pure, Except.pure, Activation.meet, Act.bind, Act.get, hproc]
    cases (rt.proc a.proc).overridden with
    | none => rfl
    | some p => exact callAt_eq_after (evaluate D n) _ _ level (a.withFrame (.script g)) p _ rt

theorem instruction_new (path : String) (argc : UInt64) (rt : Runtime) :
    InstructionAfter D n level a f (.new path argc) rt := by
  unfold InstructionAfter evaluateInstruction instruction
  simp only [stepInstruction, ScriptFrame.exec, lastPushed_eq_popArguments, Act.bind_apply,
    Act.lift_apply]
  cases f.popArguments argc with
  | error e => rfl
  | ok p =>
    obtain ⟨args, g⟩ := p
    simp only [bind, Except.bind, pure, Except.pure, Activation.meet, Act.bind]
    cases Runtime.onStore (Store.serve n (.allocate path)) rt with
    | ok o rt => exact chain_eq_after n level _ _ (a.withFrame (.script g)) o a.usr _ rt
    | fault e rt => rfl
    | breach b rt => rfl
    | exhausted => rfl

theorem instruction_sleep (rt : Runtime) : InstructionAfter D n level a f .sleep rt := by
  unfold InstructionAfter evaluateInstruction instruction
  simp only [stepInstruction, ScriptFrame.exec, Act.bind_apply, Act.lift_apply]
  cases f.pop with
  | error e => rfl
  | ok p =>
    obtain ⟨v, g⟩ := p
    simp only [bind, Except.bind, pure, Except.pure]
    cases v.asInt <;> rfl

theorem instruction_after (i : Instr) (rt : Runtime) : InstructionAfter D n level a f i rt := by
  by_cases hi : Stays i
  · exact instruction_stays D n level a f hi rt
  · cases i with
    | call name argc => exact instruction_call D n level a f name argc rt
    | callMethod name argc => exact instruction_callMethod D n level a f name argc rt
    | callSuper argc => exact instruction_callSuper D n level a f argc rt
    | new path argc => exact instruction_new D n level a f path argc rt
    | sleep => exact instruction_sleep D n level a f rt
    | ret => rfl
    | _ => exact absurd trivial hi

/-- What construction calls is the `(init)` proc, a routine. -/
theorem routine_of_stepInstruction_new (path : String) (argc : UInt64) {b c : Activation}
    {rt rt' : Runtime} (h : stepInstruction n a f (.new path argc) rt = .ok (b, .called c) rt') :
    ∃ g, c.frame = .routine g := by
  simp only [stepInstruction, ScriptFrame.exec, Act.bind_apply, Act.lift_apply] at h
  cases hp : f.popArguments argc with
  | error e => simp [hp, bind, Except.bind] at h
  | ok p =>
    simp only [hp, bind, Except.bind, pure, Except.pure, Activation.meet, Act.bind] at h
    cases hs : Runtime.onStore (Store.serve n (.allocate path)) rt <;> rw [hs] at h <;> cases h
    exact ⟨_, rfl⟩

end Script

variable (D)

/-- The evaluation of a script obeys `after`, construction being evaluated with the fuel of its
caller. -/
theorem evaluate_script_eq_after {a : Activation} {f : ScriptFrame} (hframe : a.frame = .script f)
    (n level : Nat) (rt : Runtime) :
    ∃ k, (k = n ∨ k = n + 1 ∧ ∀ b c rt', a.fetch.2.step n (Context.run n) a.fetch.1 rt =
      .ok (b, .called c) rt' →
        ∃ g, c.frame = .routine g) ∧
      evaluate D (n + 1) level a rt =
        after D level (evaluate D n level) (evaluate D k (level + 1)) (evaluate D n level)
          (a.fetch.2.step n (Context.run n) a.fetch.1 rt) := by
  rw [step_fetch_script hframe]
  simp only [evaluate, hframe, script]
  cases f.locals with
  | none =>
    refine ⟨n, Or.inl rfl, ?_⟩
    simp only [Act.bind_apply, Act.lift_apply]
    cases a.bind with
    | error e => rfl
    | ok bound =>
      by_cases hroom : f.HasRoom bound <;> simp only [Act.need, hroom, if_true, if_false] <;> rfl
  | some slots =>
    cases f.code[f.position]? with
    | none => exact ⟨n, Or.inl rfl, rfl⟩
    | some i =>
      refine ⟨calleeFuel n i, ?_, instruction_after D n level a _ i rt⟩
      cases i with
      | new path argc =>
        exact Or.inr ⟨rfl, fun b c rt' h => routine_of_stepInstruction_new n a _ path argc h⟩
      | _ => exact Or.inl rfl

theorem evaluate_routine_eq_after {a : Activation} {f : RoutineFrame}
    (hframe : a.frame = .routine f) (n level : Nat) (rt : Runtime) :
    evaluate D (n + 1) level a rt =
      after D level (evaluate D n level) (evaluate D n (level + 1)) (evaluate D (n + 1) level)
        (a.fetch.2.step n (Context.run n) a.fetch.1 rt) := by
  have hfetch : a.fetch = (none, a) := by simp [Activation.fetch, hframe]
  simp only [evaluate, hfetch, Activation.step, hframe, Activation.stepRoutine, Act.bind_apply,
    Act.lift_apply]
  cases a.resumption f with
  | error e => rfl
  | ok r =>
    dsimp only
    rw [routine_eq_afterPause]
    cases r.advance (Runtime.serve n (Context.run n)) rt with
    | ok pause rt =>
      cases pause with
      | finished v => rfl
      | invoke p i rest =>
        exact callAt_eq_after (evaluate D n) (evaluate D (n + 1) level) _ level
          (a.withFrame (.routine { f with rest := some rest, returned := none })) p i rt
      | sleep ticks rest => rfl
      | wait rest => rfl
    | fault e rt => rfl
    | breach b rt => rfl
    | exhausted => rfl

theorem evaluate_handler_eq_after {a : Activation} {run : Handler} (hframe : a.frame = .handler run)
    (n level : Nat) (proceed callee resume : Activation → Eval) (rt : Runtime) :
    evaluate D (n + 1) level a rt =
      after D level proceed callee resume (a.fetch.2.step n (Context.run n) a.fetch.1 rt) := by
  have hfetch : a.fetch = (none, a) := by simp [Activation.fetch, hframe]
  simp only [evaluate, hfetch, Activation.step, hframe, Act.bind_apply, Act.lift_apply]
  cases a.bound with
  | error e => rfl
  | ok i =>
    dsimp only
    cases (run i).run (Runtime.serve n (Context.run n)) rt <;> rfl

/-- Evaluation goes at least as far as its step and evaluations with the fuel left after that. -/
theorem after_le_evaluate (n level : Nat) (a : Activation) (rt : Runtime) :
    after D level (evaluate D n level) (evaluate D n (level + 1)) (evaluate D n level)
      (a.fetch.2.step n (Context.run n) a.fetch.1 rt) ≤ evaluate D (n + 1) level a rt := by
  have hle (m : Nat) (hm : n ≤ m) (l : Nat) := evaluate_mono (D := D) hm l
  cases hframe : a.frame with
  | script f =>
    obtain ⟨k, hk, h⟩ := evaluate_script_eq_after D hframe n level rt
    rw [h]
    exact after_mono (fun _ => Act.le_refl _) (hle k (by omega) _) (fun _ => Act.le_refl _) _
  | handler run =>
    rw [evaluate_handler_eq_after D hframe n level]
  | routine f =>
    rw [evaluate_routine_eq_after D hframe n level]
    exact after_mono (fun _ => Act.le_refl _) (fun _ => Act.le_refl _) (hle _ (by omega) _) _

end Evaluator

end ProcEngine
