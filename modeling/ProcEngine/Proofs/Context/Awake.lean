import ProcEngine.Proofs.Context.Moment
import ProcEngine.Proofs.Scheduler.Bookkeeping
/-!
# Procs that do not sleep

In an awake runtime every script drops the number of ticks that it would sleep for and goes on. A
script takes the same steps there, apart from its sleeps, and host code the same steps as long as it
starts no contexts.
-/

namespace ProcEngine

/-- A sleep pops its operand, and so does what stands in for it. -/
def Instr.awake : Instr → Instr
  | .sleep => .pop
  | i => i

def Body.awake : Body → Body
  | .script code locals => .script (code.map Instr.awake) locals
  | body => body

def Proc.awake (p : Proc) : Proc := { p with body := p.body.awake }

/-- The runtime in which no script sleeps. All else is as it was. -/
def Runtime.awake (rt : Runtime) : Runtime := { rt with procs := rt.procs.map Proc.awake }

def ScriptFrame.awake (f : ScriptFrame) : ScriptFrame := { f with code := f.code.map Instr.awake }

def Frame.awake : Frame → Frame
  | .script f => .script f.awake
  | frame => frame

def Activation.awake (a : Activation) : Activation := { a with frame := a.frame.awake }

def Context.awake (c : Context) : Context := { c with stack := c.stack.map Activation.awake }

def Signal.awake : Signal → Signal
  | .called callee => .called callee.awake
  | signal => signal

/-! ### What is left as it was -/

theorem Runtime.proc_awake (rt : Runtime) (p : ProcRef) : rt.awake.proc p = (rt.proc p).awake := by
  obtain ⟨id, name⟩ := p
  cases id with
  | zero => rfl
  | succ i =>
    simp only [Runtime.proc, Runtime.awake, Array.getElem?_map]
    cases rt.procs[i]? with
    | none => simp [Proc.awake, Body.awake]
    | some p => rfl

theorem Body.frame_awake (body : Body) : body.awake.frame = body.frame.awake := by
  cases body <;> rfl

theorem Runtime.activate_awake (rt : Runtime) (p : ProcRef) (id : ContextId) (i : Invocation) :
    rt.awake.activate p id i = ((rt.activate p id i).1.awake, (rt.activate p id i).2.awake) := by
  simp only [activate, proc_awake, Proc.awake, Body.frame_awake]
  cases (rt.proc p).mark <;> rfl

theorem Runtime.opened_awake (rt : Runtime) (p : ProcRef) (i : Invocation) :
    rt.awake.opened p i = ((rt.opened p i).1.awake, (rt.opened p i).2.awake) := by
  have hcontext : rt.awake.newContext = (rt.newContext.1, rt.newContext.2.awake) := rfl
  rw [opened, hcontext, activate_awake]
  rfl

theorem Activation.receive_awake (a : Activation) (v : Value) :
    a.awake.receive v = (a.receive v).awake := by
  obtain ⟨context, proc, signature, invocation, result, frame⟩ := a
  cases frame <;> rfl

theorem Activation.traceLine_awake (a : Activation) : a.awake.traceLine = a.traceLine := by
  simp only [traceLine, position, awake]
  cases a.frame <;> rfl

namespace ScriptFrame

theorem fetch_awake (f : ScriptFrame) :
    f.awake.fetch = (f.fetch.1.map Instr.awake, f.fetch.2.awake) := by
  simp only [fetch, awake, Array.getElem?_map]
  cases f.code[f.position]? <;> rfl

theorem pop_awake (f : ScriptFrame) : f.awake.pop = f.pop.map fun q => (q.1, q.2.awake) := by
  simp only [pop, awake]
  cases f.operands <;> rfl

theorem popArguments_awake (f : ScriptFrame) (argc : UInt64) :
    f.awake.popArguments argc = (f.popArguments argc).map fun q => (q.1, q.2.awake) := by
  rw [popArguments, popArguments]
  show (if f.operands.length < argc.toNat then _ else _) = _
  split <;> rfl

/-- What is done with a value and an awake frame is done with the value and the frame. -/
theorem bind_awake {α β : Type} {x y : Except Fault (α × ScriptFrame)}
    {g g' : α × ScriptFrame → Except Fault (β × ScriptFrame)}
    (hx : y = x.map fun q => (q.1, q.2.awake))
    (hg : ∀ q, g' (q.1, q.2.awake) = (g q).map fun q => (q.1, q.2.awake)) :
    (y >>= g') = (x >>= g).map fun q => (q.1, q.2.awake) := by
  subst hx
  cases x with
  | error e => rfl
  | ok q => exact hg q

theorem bind_of_awake {α β : Type} (x : Except Fault α) {g g' : α → Except Fault (β × ScriptFrame)}
    (hg : ∀ a, g' a = (g a).map fun q => (q.1, q.2.awake)) :
    (x >>= g') = (x >>= g).map fun q => (q.1, q.2.awake) := by
  cases x with
  | error e => rfl
  | ok a => exact hg a

theorem binary_awake (f : ScriptFrame) (op : Value → Value → Except Fault Value) :
    f.awake.binary op = (f.binary op).map fun q => (q.1, q.2.awake) :=
  bind_awake (pop_awake f) fun q => bind_awake (pop_awake q.2) fun _ => bind_of_awake _ fun _ => rfl

/-- An instruction does the same whether or not others are sleeps. -/
theorem exec_awake (f : ScriptFrame) (src usr : Option ObjectRef) (i : Instr) :
    f.awake.exec src usr i = (f.exec src usr i).map fun q => (q.1, q.2.awake) := by
  have hpop := pop_awake f
  cases i with
  | push v | src | usr | jump target | ret => rfl
  | getLocal slot =>
    have hslots : f.awake.slots = f.slots := rfl
    simp only [exec, hslots]
    cases f.slots[slot.toNat]? <;> rfl
  | setLocal slot =>
    refine bind_awake hpop fun q => ?_
    obtain ⟨v, f'⟩ := q
    have hslots : f'.awake.slots = f'.slots := rfl
    dsimp only
    rw [hslots]
    split <;> rfl
  | getVar name => exact bind_awake hpop fun q => bind_of_awake q.1.asObject fun _ => rfl
  | setVar name =>
    exact bind_awake hpop fun q => bind_awake (pop_awake q.2) fun q' =>
      bind_of_awake q'.1.asObject fun _ => rfl
  | add => exact binary_awake f Value.add
  | sub => exact binary_awake f Value.sub
  | mul => exact binary_awake f Value.mul
  | eq => exact binary_awake f fun a b => .ok (.ofBool (a.equals b))
  | lt => exact binary_awake f fun a b => do return .ofBool (← a.lessThan b)
  | not | pop | setResult => exact bind_awake hpop fun _ => rfl
  | jumpIfFalse target =>
    refine bind_awake hpop fun q => ?_
    obtain ⟨v, f'⟩ := q
    dsimp only
    split <;> rfl
  | call name argc | callSuper argc | new path argc =>
    exact bind_awake (popArguments_awake f argc) fun _ => rfl
  | callMethod name argc =>
    exact bind_awake (popArguments_awake f argc) fun q => bind_awake (pop_awake q.2) fun q' =>
      bind_of_awake q'.1.asObject fun _ => rfl
  | del => exact bind_awake hpop fun q => bind_of_awake q.1.asObject fun _ => rfl
  | sleep => exact bind_awake hpop fun q => bind_of_awake q.1.asInt fun _ => rfl
  | crash => exact bind_awake hpop fun _ => rfl

/-! Pops and sleeps have one operand. -/

variable {f : ScriptFrame} {src usr : Option ObjectRef} {v : Value} {rest : List Value}

theorem exec_pop (h : f.operands = v :: rest) :
    f.exec src usr .pop = .ok (.proceed, { f with operands := rest }) := by
  simp only [exec, pop, h]
  rfl

theorem exec_pop_nil (h : f.operands = []) :
    f.exec src usr .pop = .error (.malformedCode (.underflow (f.position - 1))) := by
  simp only [exec, pop, h]
  rfl

theorem exec_sleep (h : f.operands = v :: rest) {n : Int64} (hn : v.asInt = .ok n) :
    f.exec src usr .sleep = .ok (.sleep (ticksOf n), { f with operands := rest }) := by
  simp only [exec, pop, h, bind, Except.bind, hn]
  rfl

theorem exec_sleep_nil (h : f.operands = []) :
    f.exec src usr .sleep = .error (.malformedCode (.underflow (f.position - 1))) := by
  simp only [exec, pop, h]
  rfl

end ScriptFrame

theorem Activation.fetch_awake (a : Activation) :
    a.awake.fetch = (a.fetch.1.map Instr.awake, a.fetch.2.awake) := by
  obtain ⟨context, proc, signature, invocation, result, frame⟩ := a
  cases frame with
  | script f =>
    have hlocals : f.awake.locals = f.locals := rfl
    simp only [fetch, awake, Frame.awake, hlocals, f.fetch_awake]
    split <;> rfl
  | handler run => rfl
  | routine f => rfl

/-! ### Scripts -/

section

variable {α β γ δ : Type} {φ : α → β} {ψ : γ → δ}

/-- The same in the awake runtime, of the value that `φ` makes of it. -/
def Outcome.awake (φ : α → β) : Outcome Runtime α → Outcome Runtime β
  | ok a rt => ok (φ a) rt.awake
  | fault e rt => fault e rt.awake
  | breach b rt => breach b rt.awake
  | exhausted => exhausted

/-- In an awake runtime `y` does what `x` does. -/
def Act.Awakens (φ : α → β) (x : Act Runtime α) (y : Act Runtime β) : Prop :=
  ∀ rt, y rt.awake = (x rt).awake φ

namespace Act.Awakens

theorem pure (a : α) : Awakens φ (Pure.pure a) (Pure.pure (φ a)) := fun _ => rfl

theorem raise (e : Fault) : Awakens φ (Act.raise e) (Act.raise e) := fun _ => rfl

theorem get : Awakens Runtime.awake Act.get Act.get := fun _ => rfl

theorem lift (x : Except Fault α) : Awakens φ (liftM x) (liftM (x.map φ)) := by
  intro rt
  cases x <;> rfl

theorem need (p : Prop) [Decidable p] (b : Breach) : Awakens id (Act.need p b) (Act.need p b) := by
  intro rt
  simp only [Act.need]
  split <;> rfl

theorem bind {x : Act Runtime α} {y : Act Runtime β} {f : α → Act Runtime γ} {g : β → Act Runtime δ}
    (hx : Awakens φ x y) (hf : ∀ a, Awakens ψ (f a) (g (φ a))) : Awakens ψ (x >>= f) (y >>= g) := by
  intro rt
  rw [bind_apply, bind_apply, hx rt]
  cases x rt with
  | ok a rt₁ => exact hf a rt₁
  | fault e rt₁ => rfl
  | breach b rt₁ => rfl
  | exhausted => rfl

/-- Whatever is done to objects is done in the same way. -/
theorem onStore (x : Act Store α) : Awakens id (Runtime.onStore x) (Runtime.onStore x) := by
  intro rt
  simp only [Runtime.onStore]
  rw [show rt.awake.store = rt.store from rfl]
  cases x rt.store <;> rfl

theorem ask (f : Runtime → Except Fault α) (hf : ∀ rt : Runtime, f rt.awake = f rt) :
    Awakens id (Runtime.ask f) (Runtime.ask f) := by
  intro rt
  simp only [Runtime.ask, hf]
  cases f rt <;> rfl

theorem enter (p : ProcRef) (context : ContextId) (i : Invocation) :
    Awakens Activation.awake (Runtime.enter p context i) (Runtime.enter p context i) := by
  intro rt
  simp only [Runtime.enter, Runtime.activate_awake]
  rfl

end Act.Awakens

end

namespace Activation

/-- What a step makes of an activation, in the awake runtime. -/
def awakeStep (q : Activation × Signal) : Activation × Signal := (q.1.awake, q.2.awake)

theorem call_awakens (a : Activation) (p : ProcRef) (i : Invocation) :
    Act.Awakens awakeStep (a.call p i) (a.awake.call p i) :=
  (Act.Awakens.enter p a.context i).bind fun callee => .pure (a, Signal.called callee)

theorem meet_awakens (fuel : Nat) (a : Activation) (d : Demand) :
    Act.Awakens awakeStep (a.meet fuel d) (a.awake.meet fuel d) := by
  cases d with
  | proceed => exact .pure (a, Signal.proceed)
  | result v => exact .pure (a.withResult v, Signal.proceed)
  | read o name =>
    refine (Act.Awakens.onStore _).bind fun (v : Value) => ?_
    show Act.Awakens awakeStep (Pure.pure (a.receive v, Signal.proceed))
      (Pure.pure (a.awake.receive v, Signal.proceed))
    rw [receive_awake]
    exact .pure (a.receive v, Signal.proceed)
  | write o name v => exact (Act.Awakens.onStore _).bind fun _ => .pure (a, Signal.proceed)
  | delete o => exact (Act.Awakens.onStore _).bind fun _ => .pure (a, Signal.proceed)
  | call name args => exact (Act.Awakens.ask _ fun _ => rfl).bind fun p => call_awakens a p _
  | callMethod o name args =>
    exact (Act.Awakens.ask _ fun _ => rfl).bind fun p => call_awakens a p _
  | callSuper args =>
    refine Act.Awakens.get.bind fun rt => ?_
    have hsuper : (rt.awake.proc a.proc).overridden = (rt.proc a.proc).overridden := by
      rw [Runtime.proc_awake]; rfl
    simp only [show a.awake.proc = a.proc from rfl, hsuper]
    cases (rt.proc a.proc).overridden with
    | some p => exact call_awakens a p _
    | none => exact .raise _
  | construct path args => exact (Act.Awakens.onStore _).bind fun o => call_awakens a _ _
  | sleep ticks => exact .pure (a, Signal.deferred (.ticks ticks))
  | finish v => exact .pure (a.withResult v, Signal.returned)

/-- A script takes the same step, unless it sleeps. -/
theorem stepScript_awakens (fuel : Nat) (a : Activation) (f : ScriptFrame) {instr : Option Instr}
    (hinstr : instr ≠ some .sleep) :
    Act.Awakens awakeStep (a.stepScript fuel f instr)
      (a.awake.stepScript fuel f.awake (instr.map Instr.awake)) := by
  simp only [stepScript]
  rw [show f.awake.locals = f.locals from rfl]
  cases f.locals with
  | none =>
    have hbind : a.awake.bind = a.bind.map id := by
      rw [Except.map_id]
      rfl
    rw [hbind]
    exact (Act.Awakens.lift a.bind).bind fun values => (Act.Awakens.need _ _).bind fun _ =>
      .pure (a.withFrame (.script (f.start values)), Signal.proceed)
  | some slots =>
    cases instr with
    | none => exact .pure (a, Signal.returned)
    | some i =>
      have hi : i.awake = i := by
        cases i with
        | sleep => exact absurd rfl hinstr
        | _ => rfl
      simp only [Option.map_some, hi]
      rw [show f.awake.exec a.awake.src a.awake.usr i = _ from f.exec_awake a.src a.usr i]
      exact (Act.Awakens.lift _).bind fun q => meet_awakens fuel (a.withFrame (.script q.2)) q.1

/-- A sleep leaves the activation that a pop leaves. -/
theorem stepScript_sleep (fuel : Nat) (a : Activation) {f : ScriptFrame} (hlocals : f.locals.isSome)
    (hticks : ∀ v rest, f.operands = v :: rest → ∃ n, v.asInt = .ok n) (rt : Runtime) :
    a.awake.stepScript fuel f.awake (some .pop) rt.awake =
      (a.stepScript fuel f (some .sleep) rt).awake awakeStep ∨
      ∃ b n, a.stepScript fuel f (some .sleep) rt = .ok (b, .deferred (.ticks n)) rt ∧
        a.awake.stepScript fuel f.awake (some .pop) rt.awake =
          .ok (b.awake, .proceed) rt.awake := by
  obtain ⟨slots, hslots⟩ := Option.isSome_iff_exists.mp hlocals
  have hslots' : f.awake.locals = some slots := hslots
  simp only [stepScript, hslots, hslots', Act.bind_apply, Act.lift_apply]
  cases hoperands : f.operands with
  | nil =>
    left
    rw [ScriptFrame.exec_sleep_nil hoperands, ScriptFrame.exec_pop_nil (f := f.awake) hoperands]
    rfl
  | cons v rest =>
    obtain ⟨n, hn⟩ := hticks v rest hoperands
    right
    refine ⟨a.withFrame (.script { f with operands := rest }), ScriptFrame.ticksOf n, ?_, ?_⟩
    · rw [ScriptFrame.exec_sleep hoperands hn]
      rfl
    · rw [ScriptFrame.exec_pop (f := f.awake) hoperands]
      rfl

end Activation

end ProcEngine
