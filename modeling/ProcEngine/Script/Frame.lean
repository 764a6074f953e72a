import ProcEngine.Arguments
import ProcEngine.Script.Code
/-!
# Script frames

One activation of a script proc is plain data: the position of the next instruction, the operands
with the topmost first, and the local slots, which exist once the arguments are bound.
`ScriptFrame.exec` runs one instruction as far as it concerns the frame alone and says in a `Demand`
what is to be done outside; a value that comes of that is pushed by `ScriptFrame.receive`.
-/

namespace ProcEngine

structure ScriptFrame where
  code : Array Instr
  /-- How many null slots follow the bound arguments. -/
  extra : UInt64
  position : Nat := 0
  operands : List Value := []
  /-- `none` until the arguments are bound. -/
  locals : Option (Array Value) := none

/-- What an instruction asks for beyond its own frame. -/
inductive Demand
  | proceed
  | result (v : Value)
  | read (o : ObjectRef) (name : String)
  | write (o : ObjectRef) (name : String) (v : Value)
  | delete (o : ObjectRef)
  | call (name : String) (positional : List Value)
  | callMethod (o : ObjectRef) (name : String) (positional : List Value)
  | callSuper (positional : List Value)
  | construct (path : String) (positional : List Value)
  | sleep (ticks : UInt64)
  | finish (v : Value)

namespace ScriptFrame

/-- How many slots there are once these arguments are bound. -/
def room (f : ScriptFrame) (bound : List Value) : Nat := bound.length + f.extra.toNat

/-- How many values can be addressed. For as many there is memory. -/
def maxRoom : Nat := (UInt64.size / 2 - 1) / 24

def HasRoom (f : ScriptFrame) (bound : List Value) : Prop := f.room bound ≤ maxRoom

instance (f : ScriptFrame) (bound : List Value) : Decidable (f.HasRoom bound) := Nat.decLe _ _

/-- What it comes to where there is no room for the slots: they cannot be counted, or not be
addressed. -/
def shortage (f : ScriptFrame) (bound : List Value) : Breach :=
  if f.room bound < UInt64.size then .capacityOverflow else .addOverflow

theorem shortage_isOverflow (f : ScriptFrame) (bound : List Value) :
    (f.shortage bound).isOverflow := by
  rw [shortage]
  split <;> rfl

def start (f : ScriptFrame) (bound : List Value) : ScriptFrame :=
  { f with locals := some (bound ++ List.replicate f.extra.toNat Value.null).toArray }

/-- The next instruction, and the frame with its position moved past it. -/
def fetch (f : ScriptFrame) : Option Instr × ScriptFrame :=
  match f.code[f.position]? with
  | some i => (some i, { f with position := f.position + 1 })
  | none => (none, f)

def push (f : ScriptFrame) (v : Value) : ScriptFrame := { f with operands := v :: f.operands }

def receive (f : ScriptFrame) (v : Value) : ScriptFrame := f.push v

def pop (f : ScriptFrame) : Except Fault (Value × ScriptFrame) :=
  match f.operands with
  | v :: rest => .ok (v, { f with operands := rest })
  | [] => .error (.malformedCode (.underflow (f.position - 1)))

/-- Takes the topmost `argc` operands off, in the order they were pushed. -/
def popArguments (f : ScriptFrame) (argc : UInt64) : Except Fault (List Value × ScriptFrame) :=
  if f.operands.length < argc.toNat then
    .error (.malformedCode (.missingArguments argc.toNat f.operands.length))
  else .ok ((f.operands.take argc.toNat).reverse, { f with operands := f.operands.drop argc.toNat })

def slots (f : ScriptFrame) : Array Value := f.locals.getD #[]

def outOfRange (slot : UInt64) : Fault := .malformedCode (.slotOutOfRange slot.toNat)

def binary (f : ScriptFrame) (op : Value → Value → Except Fault Value) :
    Except Fault (Demand × ScriptFrame) := do
  let (rhs, f) ← f.pop
  let (lhs, f) ← f.pop
  return (.proceed, f.push (← op lhs rhs))

/-- Ticks to sleep for; a negative number counts as none. -/
def ticksOf (i : Int64) : UInt64 := UInt64.ofNat i.toInt.toNat

def exec (f : ScriptFrame) (src usr : Option ObjectRef) : Instr →
    Except Fault (Demand × ScriptFrame)
  | .push v => .ok (.proceed, f.push v.toValue)
  | .getLocal slot =>
    match f.slots[slot.toNat]? with
    | some v => .ok (.proceed, f.push v)
    | none => .error (outOfRange slot)
  | .setLocal slot => do
    let (v, f) ← f.pop
    if slot.toNat < f.slots.size then
      return (.proceed, { f with locals := some (f.slots.setIfInBounds slot.toNat v) })
    else throw (outOfRange slot)
  | .src => .ok (.proceed, f.push (.ofObject src))
  | .usr => .ok (.proceed, f.push (.ofObject usr))
  | .getVar name => do
    let (v, f) ← f.pop
    return (.read (← v.asObject) name, f)
  | .setVar name => do
    let (v, f) ← f.pop
    let (target, f) ← f.pop
    return (.write (← target.asObject) name v, f)
  | .add => f.binary Value.add
  | .sub => f.binary Value.sub
  | .mul => f.binary Value.mul
  | .eq => f.binary fun a b => .ok (.ofBool (a.equals b))
  | .lt => f.binary fun a b => do return .ofBool (← a.lessThan b)
  | .not => do
    let (v, f) ← f.pop
    return (.proceed, f.push (.ofBool !v.isTruthy))
  | .jump target => .ok (.proceed, { f with position := target.toNat })
  | .jumpIfFalse target => do
    let (v, f) ← f.pop
    return (.proceed, if v.isTruthy then f else { f with position := target.toNat })
  | .pop => do
    let (_, f) ← f.pop
    return (.proceed, f)
  | .setResult => do
    let (v, f) ← f.pop
    return (.result v, f)
  | .call name argc => do
    let (args, f) ← f.popArguments argc
    return (.call name args, f)
  | .callMethod name argc => do
    let (args, f) ← f.popArguments argc
    let (target, f) ← f.pop
    return (.callMethod (← target.asObject) name args, f)
  | .callSuper argc => do
    let (args, f) ← f.popArguments argc
    return (.callSuper args, f)
  | .new path argc => do
    let (args, f) ← f.popArguments argc
    return (.construct path args, f)
  | .del => do
    let (v, f) ← f.pop
    return (.delete (← v.asObject), f)
  | .sleep => do
    let (v, f) ← f.pop
    return (.sleep (ticksOf (← v.asInt)), f)
  | .crash => do
    let (v, _) ← f.pop
    throw (.script v.display)
  | .ret => .ok (.finish (f.operands.headD .null), { f with operands := f.operands.drop 1 })

end ScriptFrame

end ProcEngine
