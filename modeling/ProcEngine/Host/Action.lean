import ProcEngine.Runtime
/-!
# Host code as lists of actions

A way for a host to describe its native procs as data. A handler and a routine are lists of actions
that are done in order; the result of an action is kept for the next ones to use.
-/

namespace ProcEngine.Host

/-- What an action can refer to: the call and the result of the action before. -/
structure Scope where
  invocation : Invocation
  result : Value := .null

inductive Expr
  | value (v : Value)
  /-- A positional argument. -/
  | argument (i : Nat)
  | named (name : String)
  | add (lhs rhs : Expr)
  | result
  | src
  | usr
  /-- How many arguments were passed. -/
  | count

namespace Expr

def eval (s : Scope) : Expr → Except Fault Value
  | value v => .ok v
  | argument i => .ok (s.invocation.arguments.get i)
  | named name => .ok (s.invocation.arguments.named[name]?.getD .null)
  | add lhs rhs => do Value.add (← lhs.eval s) (← rhs.eval s)
  | result => .ok s.result
  | src => .ok (.ofObject s.invocation.src)
  | usr => .ok (.ofObject s.invocation.usr)
  | count => .ok (.int (Int64.ofNat s.invocation.arguments.size))

def evalObject (s : Scope) (e : Expr) : Except Fault ObjectRef := do (← e.eval s).asObject

def evalObject? (s : Scope) : Option Expr → Except Fault (Option ObjectRef)
  | none => .ok none
  | some e => do return some (← e.evalObject s)

def evalArguments (s : Scope) (positional : List Expr) (named : List (String × Expr)) :
    Except Fault Arguments := do
  let values ← positional.mapM fun e => e.eval s
  let entries ← named.mapM fun (name, e) => do return (name, ← e.eval s)
  return { positional := values, named := Std.ExtTreeMap.ofList entries }

end Expr

/-- What both kinds of host code can do. -/
inductive Effect
  | log (v : Expr)
  /-- Runs a global proc on the own receiver. -/
  | run (proc : String) (args : List Expr)
  | callOn (object : Expr) (name : String) (args : List Expr)
  | newObject (path : String) (args : List Expr)
  | get (object : Expr) (name : String)
  | set (object : Expr) (name : String) (v : Expr)
  | delete (object : Expr)
  | fail (proc why : String)

def hostCall (r : HostRequest) : Program HostCalls r.Answer := Program.request (i := HostCalls) r

def Effect.perform (s : Scope) : Effect → Program HostCalls Scope
  | log v => do
    hostCall (.table (.note (.native (← v.eval s))))
    return s
  | run proc args => do
    let p ← hostCall (.global proc)
    let arguments ← Expr.evalArguments s args []
    return { s with result := ← hostCall (.call p { s.invocation with arguments }) }
  | callOn object name args => do
    let o ← object.evalObject s
    let arguments ← Expr.evalArguments s args []
    let p ← hostCall (.method o name)
    return { s with
      result := ← hostCall (.call p { src := some o, usr := s.invocation.usr, arguments }) }
  | newObject path args => do
    let arguments ← Expr.evalArguments s args []
    let o : ObjectRef ← hostCall (.construct path arguments s.invocation.usr)
    return { s with result := .object o }
  | get object name => do
    let o ← object.evalObject s
    return { s with result := ← hostCall (.table (.read o name)) }
  | set object name v => do
    let o ← object.evalObject s
    let v ← v.eval s
    hostCall (.table (.write o name v))
    return { s with result := v }
  | delete object => do
    hostCall (.table (.delete (← object.evalObject s)))
    return { s with result := .null }
  | fail proc why => .fail (.native proc why)

inductive HandlerAction
  | effect (e : Effect)
  | answer (v : Expr)

/-- A list that ends without an answer gives null. -/
def handler (s : Scope) : List HandlerAction → Program HostCalls Value
  | [] => .done .null
  | .effect e :: rest => do handler (← e.perform s) rest
  | .answer v :: _ => Program.ofExcept (v.eval s)

inductive RoutineAction
  | effect (e : Effect)
  | sleep (ticks : UInt64)
  | wait
  | finish (v : Expr)
  /-- Calls a proc in the same context, a method of the receiver if there are both, a global proc
  otherwise. -/
  | call (proc : Option String) (method : Option String) (src usr : Option Expr) (args : List Expr)
      (named : List (String × Expr))
  | construct (path : String) (args : List Expr)

def asRoutine {α : Type} : Program HostCalls α → Program RoutineCalls α
  | .done a => .done a
  | .fail e => .fail e
  | .ask r next => .ask (.host r) fun answer => asRoutine (next answer)

def routineCall (r : RoutineRequest) : Program RoutineCalls r.Answer :=
  Program.request (i := RoutineCalls) r

def callee (proc method : Option String) (src : Option ObjectRef) : Program HostCalls ProcRef :=
  match method, src with
  | some name, some o => hostCall (.method o name)
  | _, _ => hostCall (.global (proc.getD ""))

/-- A list that ends without a result gives null. -/
def routine (s : Scope) : List RoutineAction → Routine
  | [] => .done .null
  | .effect e :: rest => do routine (← asRoutine (e.perform s)) rest
  | .sleep ticks :: rest => do routine { s with result := ← routineCall (.sleep ticks) } rest
  | .wait :: rest => do routine { s with result := ← routineCall .wait } rest
  | .finish v :: _ => Program.ofExcept (v.eval s)
  | .call proc method src usr args named :: rest => do
    let src ← Expr.evalObject? s src
    let p ← asRoutine (callee proc method src)
    let usr ← Expr.evalObject? s usr
    let arguments ← Expr.evalArguments s args named
    routine { s with result := ← routineCall (.invoke p { src, usr, arguments }) } rest
  | .construct path args :: rest => do
    let o : ObjectRef ← routineCall (.host (.table (.allocate path)))
    let arguments ← Expr.evalArguments s args []
    let i : Invocation := { src := some o, usr := s.invocation.usr, arguments }
    routine { s with result := ← routineCall (.invoke Runtime.init i) } rest

/-- Starts a routine with what was returned to it before its first step. -/
def start (actions : List RoutineAction) (i : Invocation) (returned : Value) : Routine :=
  routine { invocation := i, result := returned } actions

inductive Native
  | handler (actions : List HandlerAction)
  | routine (passThrough : Bool) (actions : List RoutineAction)

def Native.body : Native → Body
  | handler actions => .handler fun i => Host.handler { invocation := i } actions
  | routine passThrough actions => .routine passThrough (Host.start actions)

end ProcEngine.Host
