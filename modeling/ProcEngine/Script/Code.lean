import ProcEngine.Value
/-!
# Code

The instructions of script procs. An instruction list is flat: a jump names the position it goes to,
and a position outside the list ends the proc.
-/

namespace ProcEngine

/-- A value that can be written down in code and world files. -/
inductive Constant
  | null
  | int (i : Int64)
  | float (x : Float)
  | text (s : String)
  deriving DecidableEq

def Constant.toValue : Constant → Value
  | null => .null
  | int i => .int i
  | float x => .float x
  | text s => .text s

inductive Instr
  | push (v : Constant)
  | getLocal (slot : UInt64)
  | setLocal (slot : UInt64)
  /-- Push the receiver. -/
  | src
  /-- Push the acting user. -/
  | usr
  | getVar (name : String)
  /-- Pop a value, then the object whose variable takes it. -/
  | setVar (name : String)
  | add
  | sub
  | mul
  | eq
  | lt
  | not
  | jump (target : UInt64)
  | jumpIfFalse (target : UInt64)
  | pop
  /-- Pop the value that is returned when the proc runs off its end. -/
  | setResult
  /-- Call a global proc with the topmost values. -/
  | call (name : String) (argc : UInt64)
  /-- Call a proc of the object below the topmost values. -/
  | callMethod (name : String) (argc : UInt64)
  /-- Call the overridden proc on the same receiver. -/
  | callSuper (argc : UInt64)
  | new (path : String) (argc : UInt64)
  | del
  /-- Pop a number of ticks to wait for. -/
  | sleep
  | crash
  | ret
  deriving DecidableEq

namespace Constant

def details : Constant → String
  | null => "Null"
  | int i => Fault.single "Int" (toString i.toInt)
  | float x => Fault.single "Float" (Decimal.text .literal x)
  | text s => Fault.single "Text" (Text.quoted s)

end Constant

namespace Instr

def details : Instr → String
  | push v => Fault.fields "Push" [("v", v.details)]
  | getLocal slot => Fault.fields "GetLocal" [("slot", toString slot)]
  | setLocal slot => Fault.fields "SetLocal" [("slot", toString slot)]
  | src => "Src"
  | usr => "Usr"
  | getVar name => Fault.fields "GetVar" [("name", Text.quoted name)]
  | setVar name => Fault.fields "SetVar" [("name", Text.quoted name)]
  | add => "Add"
  | sub => "Sub"
  | mul => "Mul"
  | eq => "Eq"
  | lt => "Lt"
  | not => "Not"
  | jump target => Fault.fields "Jump" [("to", toString target)]
  | jumpIfFalse target => Fault.fields "JumpIfFalse" [("to", toString target)]
  | pop => "Pop"
  | setResult => "SetResult"
  | call name argc => Fault.fields "Call" [("name", Text.quoted name), ("argc", toString argc)]
  | callMethod name argc =>
    Fault.fields "CallMethod" [("name", Text.quoted name), ("argc", toString argc)]
  | callSuper argc => Fault.fields "CallSuper" [("argc", toString argc)]
  | new path argc => Fault.fields "New" [("path", Text.quoted path), ("argc", toString argc)]
  | del => "Del"
  | sleep => "Sleep"
  | crash => "Crash"
  | ret => "Return"

end Instr

end ProcEngine
