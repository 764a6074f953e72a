import Std.Data.ExtTreeMap
import ProcEngine.Json.Reader
import ProcEngine.World.Compiled
/-!
# The form of compiled worlds

How constants, code and worlds are written in JSON, and how they are read back. Reading takes more
than writing gives: an object may have members that nobody asks for, its members may come in any
order, and a tagged value or an object with a fixed list of members may also be written as an array.

A member with a known key must not come twice, except among members that are named freely, where the
last one counts. What is read as the body of a proc must be readable throughout; elsewhere, members
that nobody asks for are not looked at.
-/

namespace ProcEngine.Format

open Json (field? members? isReadable maxDepth)

/-! ### Constants -/

/-- A name out of a fixed list, as a string or as an object with that one key and null. -/
def choice? : Json → Option String
  | .string s => some s
  | .object [(some s, .null)] => some s
  | _ => none

/-- The tag of a constant with named members. In code, an empty object may stand for the null. -/
def constantTag? (inCode : Bool) : Json → Option String
  | .object [(some s, .object [])] => if inCode then some s else none
  | j => choice? j

def constantNames : List String := ["Null", "Int", "Float", "Text"]

/-- The tag of a constant that is written as an array. In code, it may also be a number. -/
def leadingTag? (inCode : Bool) : Json → Option String
  | .string s => some s
  | .number (.nat n) => if inCode then constantNames[n.toNat]? else none
  | _ => none

/-- A constant of the kind named by its tag. Only a null needs no content. -/
def constantOf? (tag : String) (content : Option Json) : Option Constant :=
  match tag, content with
  | "Null", none => some .null
  | "Null", some .null => some .null
  | "Int", some j => j.int?.map .int
  | "Float", some j => j.float?.map .float
  | "Text", some j => j.text?.map .text
  | _, _ => none

def constant? (inCode : Bool) : Json → Option Constant
  | .array [tag, content] => do constantOf? (← leadingTag? inCode tag) (some content)
  | j => do
    let members ← members? j
    let tag ← (← field? members "t")
    constantOf? (← constantTag? inCode tag) (← field? members "v")

/-- A float that is not finite is written as null. -/
def ofFloat (x : Float) : Json := if x.isFinite then .number (.float x) else .null

def ofConstant : Constant → Json
  | .null => .object [(some "t", .string "Null")]
  | .int i =>
    let n : Json.Number := if i < 0 then .neg i else .nat (UInt64.ofNat i.toInt.toNat)
    .object [(some "t", .string "Int"), (some "v", .number n)]
  | .float x => .object [(some "t", .string "Float"), (some "v", ofFloat x)]
  | .text s => .object [(some "t", .string "Text"), (some "v", .string s)]

/-! ### Instructions -/

inductive Operand
  | constant (c : Constant)
  | text (s : String)
  | word (n : UInt64)

inductive OperandForm
  | constant
  | text
  | word

def OperandForm.read? : OperandForm → Json → Option Operand
  | constant, j => (constant? true j).map .constant
  | text, j => j.text?.map .text
  | word, j => j.word?.map .word

/-- How one instruction is written: its name, the keys and forms of its operands, and what they
make. -/
structure InstrForm where
  name : String
  operands : List (String × OperandForm) := []
  make : List Operand → Option Instr

def InstrForm.plain (name : String) (i : Instr) : InstrForm :=
  { name, make := fun
      | [] => some i
      | _ => none }

def InstrForm.ofText (name key : String) (f : String → Instr) : InstrForm :=
  { name, operands := [(key, .text)], make := fun
      | [.text s] => some (f s)
      | _ => none }

def InstrForm.ofWord (name key : String) (f : UInt64 → Instr) : InstrForm :=
  { name, operands := [(key, .word)], make := fun
      | [.word n] => some (f n)
      | _ => none }

def InstrForm.ofCall (name key : String) (f : String → UInt64 → Instr) : InstrForm :=
  { name, operands := [(key, .text), ("argc", .word)], make := fun
      | [.text s, .word n] => some (f s n)
      | _ => none }

/-- All instructions, in the order in which they are numbered. -/
def instrForms : List InstrForm := [
  { name := "Push", operands := [("v", .constant)], make := fun
      | [.constant c] => some (.push c)
      | _ => none },
  .ofWord "GetLocal" "slot" .getLocal,
  .ofWord "SetLocal" "slot" .setLocal,
  .plain "Src" .src,
  .plain "Usr" .usr,
  .ofText "GetVar" "name" .getVar,
  .ofText "SetVar" "name" .setVar,
  .plain "Add" .add,
  .plain "Sub" .sub,
  .plain "Mul" .mul,
  .plain "Eq" .eq,
  .plain "Lt" .lt,
  .plain "Not" .not,
  .ofWord "Jump" "to" .jump,
  .ofWord "JumpIfFalse" "to" .jumpIfFalse,
  .plain "Pop" .pop,
  .plain "SetResult" .setResult,
  .ofCall "Call" "name" .call,
  .ofCall "CallMethod" "name" .callMethod,
  .ofWord "CallSuper" "argc" .callSuper,
  .ofCall "New" "path" .new,
  .plain "Del" .del,
  .plain "Sleep" .sleep,
  .plain "Crash" .crash,
  .plain "Return" .ret]

/-- The form that a tag names. Inside the body of a proc, a tag may also be a number. -/
def instrForm? (inBody : Bool) : Json → Option InstrForm
  | .string s => instrForms.find? fun f => f.name == s
  | .number (.nat n) => if inBody then instrForms[n.toNat]? else none
  | _ => none

def operandsOfMembers? (members : List (String × Json)) : List (String × OperandForm) →
    Option (List Operand)
  | [] => some []
  | (key, form) :: rest => do
    let j ← (← field? members key)
    return (← form.read? j) :: (← operandsOfMembers? members rest)

def operandsOfItems? : List Json → List (String × OperandForm) → Option (List Operand)
  | [], [] => some []
  | j :: items, (_, form) :: rest => do return (← form.read? j) :: (← operandsOfItems? items rest)
  | _, _ => none

/-- Reads an instruction nested `depth` containers or more short of the limit. -/
def instr? (inBody : Bool) (depth : Nat) (j : Json) : Option Instr := do
  guard (isReadable depth j)
  match j with
  | .array (tag :: items) =>
    let form ← instrForm? inBody tag
    form.make (← operandsOfItems? items form.operands)
  | j =>
    let members ← members? j
    let form ← instrForm? inBody (← (← field? members "op"))
    form.make (← operandsOfMembers? (members.filter fun m => m.1 != "op") form.operands)

def code? (inBody : Bool) (depth : Nat) (j : Json) : Option (List Instr) := do
  (← j.array?).mapM (instr? inBody (depth - 1))

def ofWord (n : UInt64) : Json := .number (.nat n)

def tagged (op : String) (operands : List (String × Json)) : Json :=
  .object ((some "op", .string op) :: operands.map fun (key, j) => (some key, j))

def ofInstr : Instr → Json
  | .push c => tagged "Push" [("v", ofConstant c)]
  | .getLocal slot => tagged "GetLocal" [("slot", ofWord slot)]
  | .setLocal slot => tagged "SetLocal" [("slot", ofWord slot)]
  | .src => tagged "Src" []
  | .usr => tagged "Usr" []
  | .getVar name => tagged "GetVar" [("name", .string name)]
  | .setVar name => tagged "SetVar" [("name", .string name)]
  | .add => tagged "Add" []
  | .sub => tagged "Sub" []
  | .mul => tagged "Mul" []
  | .eq => tagged "Eq" []
  | .lt => tagged "Lt" []
  | .not => tagged "Not" []
  | .jump target => tagged "Jump" [("to", ofWord target)]
  | .jumpIfFalse target => tagged "JumpIfFalse" [("to", ofWord target)]
  | .pop => tagged "Pop" []
  | .setResult => tagged "SetResult" []
  | .call name argc => tagged "Call" [("name", .string name), ("argc", ofWord argc)]
  | .callMethod name argc => tagged "CallMethod" [("name", .string name), ("argc", ofWord argc)]
  | .callSuper argc => tagged "CallSuper" [("argc", ofWord argc)]
  | .new path argc => tagged "New" [("path", .string path), ("argc", ofWord argc)]
  | .del => tagged "Del" []
  | .sleep => tagged "Sleep" []
  | .crash => tagged "Crash" []
  | .ret => tagged "Return" []

def ofCode (code : List Instr) : Json := .array (code.map ofInstr)

/-! ### Kinds -/

def kindNames : List (String × ParamKind) :=
  [("num", .num), ("text", .text), ("obj", .obj), ("proc", .proc)]

def kind? (j : Json) : Option ParamKind := do kindNames.lookup (← choice? j)

def kinds? (j : Json) : Option (List ParamKind) := do (← j.array?).mapM kind?

def kindName : ParamKind → String
  | .num => "num"
  | .text => "text"
  | .obj => "obj"
  | .proc => "proc"

def ofKinds (kinds : List ParamKind) : Json := .array (kinds.map fun k => .string (kindName k))

/-! ### Worlds -/

/-- A member that stands for a default if it is missing. -/
def fieldD {α : Type} (members : List (String × Json)) (key : String) (default : α)
    (read : Json → Option α) :
    Option α := do
  match ← field? members key with
  | some j => read j
  | none => return default

def texts? (j : Json) : Option (List String) := do (← j.array?).mapM Json.text?

def kindSets? (j : Json) : Option (List KindSet) := do
  (← j.array?).mapM fun j => (kinds? j).map KindSet.mk

def nativeProc? (members : List (String × Json)) : Option CompiledProc := do
  let binding ← (← (← field? members "native")).text?
  let params ← fieldD members "params" [] texts?
  let kinds ← fieldD members "kinds" [] kindSets?
  return { params, kinds, body := .native binding }

def scriptProc? (depth : Nat) (members : List (String × Json)) : Option CompiledProc := do
  let params ← fieldD members "params" [] texts?
  let kinds ← fieldD members "kinds" [] kindSets?
  let locals ← fieldD members "locals" 0 Json.word?
  let code ← code? true depth (← (← field? members "code"))
  return { params, kinds, body := .script code locals }

/-- A proc with a binding and no mistake in what a native proc has is a native one. -/
def proc? (depth : Nat) (j : Json) : Option CompiledProc := do
  guard (isReadable depth j)
  let members ← members? j
  nativeProc? members <|> scriptProc? (depth - 1) members

/-- Freely named members, by name in ascending order. Of two with one name the later one counts. -/
def named? {α : Type} (read : Json → Option α) (j : Json) : Option (List (String × α)) := do
  let entries ← (← members? j).mapM fun (key, j) => (read j).map fun a => (key, a)
  let map : Std.ExtTreeMap String α := Std.ExtTreeMap.ofList entries
  return map.toList

/-- The members of an object, or those that the items of an array stand for in order. -/
def record? (keys : List String) : Json → Option (List (String × Json))
  | .array items => if items.length ≤ keys.length then some (keys.zip items) else none
  | .object members =>
    members? (.object members)
  | _ => none

def optional {α : Type} (read : Json → Option α) : Json → Option (Option α)
  | .null => some none
  | j => (read j).map some

def typeKeys : List String := ["path", "parent", "vars", "procs", "init"]

def type? (depth : Nat) (j : Json) : Option CompiledType := do
  let members ← record? typeKeys j
  let path ← (← (← field? members "path")).text?
  let parent ← fieldD members "parent" none (optional Json.text?)
  let vars ← fieldD members "vars" [] (named? (constant? false))
  let procs ← fieldD members "procs" [] (named? (proc? (depth - 2)))
  let initializer ← fieldD members "init" none (optional (proc? (depth - 1)))
  return { path, parent, vars, procs, initializer }

def worldKeys : List String := ["types", "procs"]

def world? (j : Json) : Option CompiledWorld := do
  let members ← record? worldKeys j
  let types ← fieldD members "types" [] fun j => do (← j.array?).mapM (type? (maxDepth - 2))
  let procs ← fieldD members "procs" [] (named? (proc? (maxDepth - 2)))
  return { types, procs }

/-! ### Texts -/

def readWorld (text : String) : Option CompiledWorld := do world? (← Json.parse text)

def readConstant (text : String) : Option Constant := do constant? false (← Json.parse text)

def readCode (text : String) : Option (List Instr) := do code? false maxDepth (← Json.parse text)

def readKinds (text : String) : Option (List ParamKind) := do kinds? (← Json.parse text)

end ProcEngine.Format
