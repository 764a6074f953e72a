import ProcEngine.Proofs.Fuel
/-!
# The recursive evaluator

What procs mean, without contexts. An activation is evaluated by running its instructions in turn,
and a call among them by evaluating the callee to its end before the next instruction. The only
trace of the stack is the level: how many activations are active, which a call must not raise above
the limit `D`.

An instruction that only concerns its own frame and the objects is done as everywhere else. What the
instructions that call do is spelled out here, and so is construction, as the chain of calls and
hooks that it is. A native handler is one step.
-/

namespace ProcEngine

/-- How an evaluation without a fault ends. One that stops on the way is not taken any further. -/
inductive Ending
  | value (v : Value)
  | deferred

namespace Evaluator

abbrev Eval := Act Runtime Ending

abbrev Call := ProcRef → Invocation → Eval

def andThen (x : Eval) (f : Value → Eval) : Eval := do
  match ← x with
  | .value v => f v
  | .deferred => return .deferred

/-- The last `argc` operands in the order in which they were pushed, and the frame without them. -/
def lastPushed (f : ScriptFrame) (argc : UInt64) : Except Fault (List Value × ScriptFrame) :=
  let pushed := f.operands.reverse
  let below := pushed.length - argc.toNat
  if pushed.length < argc.toNat then
    .error (.malformedCode (.missingArguments argc.toNat pushed.length))
  else .ok (pushed.drop below, { f with operands := (pushed.take below).reverse })

/-- Evaluates a call that is made while `level` activations are active. -/
def callAt (D : Nat) (evaluate : Nat → Activation → Eval) (context : ContextId) (level : Nat) :
    Call := fun p i => do
  let a ← Runtime.enter p context i
  if D ≤ level then Act.raise (.stackOverflow D) else evaluate (level + 1) a

def callSome (call : Call) (ask : Act Runtime (Option ProcRef)) (i : Invocation) : Eval := do
  match ← ask with
  | some p => call p i
  | none => return .value .null

/-- The construction of an object that is allocated already: its initializer, then the hook for
created objects, then its constructor if there is one and the hooks do not decline it. -/
def chain (serve : Serve) (call : Call) (object : ObjectRef) (usr : Option ObjectRef)
    (arguments : Arguments) : Eval :=
  andThen (callSome call (serve (.initializer object)) { src := some object }) fun _ => do
    let wanted : Bool ← serve (.created object arguments)
    if wanted then
      andThen (callSome call (serve (.method? object Construction.constructorName))
          { src := some object, usr, arguments })
        fun _ => return .value (.object object)
    else return .value (.object object)

def routine (serve : Serve) (call : Call) : Routine → Eval
  | .done v, rt => .ok (.value v) rt
  | .fail e, rt => .fault e rt
  | .ask (.host r) next, rt =>
    match serve r rt with
    | .ok answer rt => routine serve call (next (.ok answer)) rt
    | .fault e rt => routine serve call (next (.error e)) rt
    | .breach b rt => .breach b rt
    | .exhausted => .exhausted
  | .ask (.invoke p i) next, rt =>
    andThen (call p i) (fun v => routine serve call (next (.ok v))) rt
  | .ask (.sleep _) _, rt => .ok .deferred rt
  | .ask .wait _, rt => .ok .deferred rt

section Instructions

variable (fuel : Nat) (call : Call) (construct : ObjectRef → Option ObjectRef → Arguments → Eval)
  (next : Activation → Eval) (a : Activation)

def pushing (f : ScriptFrame) (x : Eval) : Eval :=
  andThen x fun v => next (a.withFrame (.script (f.push v)))

def instruction (f : ScriptFrame) : Instr → Eval
  | .call name argc => do
    let (args, f) ← lastPushed f argc
    let p ← Runtime.ask fun rt => rt.global name
    pushing next a f (call p { usr := a.usr, arguments := { positional := args } })
  | .callMethod name argc => do
    let (args, f) ← lastPushed f argc
    let (target, f) ← f.pop
    let o ← target.asObject
    let p ← Runtime.ask fun rt => rt.objects.proc o name
    pushing next a f (call p { src := some o, usr := a.usr, arguments := { positional := args } })
  | .callSuper argc => do
    let (args, f) ← lastPushed f argc
    match ((← Act.get).proc a.proc).overridden with
    | some p =>
      pushing next a f (call p { src := a.src, usr := a.usr, arguments := { positional := args } })
    | none => Act.raise (.unknownProc a.proc.name "..")
  | .new path argc => do
    let (args, f) ← lastPushed f argc
    let o ← Runtime.onStore (Store.serve fuel (.allocate path))
    pushing next a f (construct o a.usr { positional := args })
  | .sleep => do
    let (v, _) ← f.pop
    let _ ← v.asInt
    return .deferred
  | .ret => return .value (f.operands.headD .null)
  | i => do
    let (demand, f) ← f.exec a.src a.usr i
    let (a, _) ← (a.withFrame (.script f)).meet fuel demand
    next a

def script (f : ScriptFrame) : Eval :=
  match f.locals with
  | none => do
    let values ← a.bind
    Act.need (f.HasRoom values) (f.shortage values)
    next (a.withFrame (.script (f.start values)))
  | some _ =>
    match f.code[f.position]? with
    | some i => instruction fuel call construct next a { f with position := f.position + 1 } i
    | none => return .value a.result

end Instructions

/-- Evaluates what is left of an activation, which is active as the `level`-th. -/
def evaluate (D : Nat) : (fuel : Nat) → (level : Nat) → Activation → Eval
  | 0, _, _ => fun _ => .exhausted
  | fuel + 1, level, a =>
    let call := callAt D (evaluate D fuel) a.context
    let serve := Runtime.serve fuel (Context.run fuel)
    match a.frame with
    | .script f =>
      let construct object usr arguments :=
        if D ≤ level then Act.raise (.stackOverflow D)
        else chain serve (call (level + 1)) object usr arguments
      script fuel (call level) construct (evaluate D fuel level) a f
    | .handler run => do
      let v ← (run (← a.bound)).run serve
      return .value v
    | .routine f => do routine serve (call level) (← a.resumption f)

end Evaluator

end ProcEngine
