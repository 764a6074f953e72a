import ProcEngine.Json.Number
/-!
# JSON values

A value as it stands in a text: members keep their order, and a key may come twice. A scalar that is
written correctly but stands for nothing, a number out of range or a string with half of a surrogate
pair, is `unreadable`; whether that matters is for the reader of the value to say, since what nobody
looks at may be unreadable.
-/

namespace ProcEngine

inductive Json
  | null
  | bool (b : Bool)
  | number (n : Json.Number)
  | string (s : String)
  | unreadable
  | array (items : List Json)
  | object (members : List (Option String × Json))

namespace Json

/-- How deep arrays and objects may nest in what is read as a value. -/
def maxDepth : Nat := 127

mutual

/-- Whether every scalar in the value is readable and containers nest at most `depth` deep. -/
def isReadable (depth : Nat) : Json → Bool
  | unreadable => false
  | array items => 0 < depth && itemsReadable (depth - 1) items
  | object members => 0 < depth && membersReadable (depth - 1) members
  | null | bool _ | number _ | string _ => true

def itemsReadable (depth : Nat) : List Json → Bool
  | [] => true
  | j :: rest => isReadable depth j && itemsReadable depth rest

def membersReadable (depth : Nat) : List (Option String × Json) → Bool
  | [] => true
  | (key, j) :: rest => key.isSome && isReadable depth j && membersReadable depth rest

end

def text? : Json → Option String
  | string s => some s
  | _ => none

def word? : Json → Option UInt64
  | number (.nat n) => some n
  | _ => none

def int? : Json → Option Int64
  | number (.nat n) => if n < 0x8000000000000000 then some (Int64.ofInt n.toNat) else none
  | number (.neg i) => some i
  | _ => none

def float? : Json → Option Float
  | number (.nat n) => some n.toFloat
  | number (.neg i) => some (-(UInt64.ofNat i.toInt.natAbs).toFloat)
  | number (.float x) => some x
  | _ => none

def array? : Json → Option (List Json)
  | array items => some items
  | _ => none

/-- The members of an object whose keys can all be read. -/
def members? : Json → Option (List (String × Json))
  | object members => members.mapM fun (key, j) => key.map fun k => (k, j)
  | _ => none

def valuesOf (members : List (String × Json)) (key : String) : List Json :=
  (members.filter fun m => m.1 == key).map (·.2)

/-- A member that may be missing. It must not come twice. -/
def field? (members : List (String × Json)) (key : String) : Option (Option Json) :=
  match valuesOf members key with
  | [] => some none
  | [j] => some (some j)
  | _ => none

end Json

end ProcEngine
