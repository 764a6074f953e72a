import ProcEngine.Config.Setting
/-!
# The tree of a TOML document

Keys and table headers of a document fill one tree. No key may be given twice, no table may be
opened twice by a header, and what is written between braces or as a plain value cannot be extended
later.
-/

namespace ProcEngine.Toml

/-- What made a table, which decides who may add to it. -/
inductive Origin
  /-- A header of its own. -/
  | header
  /-- The header of a table inside it. -/
  | outer
  /-- A key with dots. -/
  | dotted
  /-- Braces; such a table is complete. -/
  | braces
  deriving DecidableEq

inductive Node
  | leaf (s : Setting)
  | table (origin : Origin) (entries : List (String × Node))
  /-- An array of tables, the latest first. -/
  | tables (items : List (List (String × Node)))

abbrev Entries := List (String × Node)

def update (f : Option Node → Option Node) (key : String) : Entries → Option Entries
  | [] => (f none).map fun n => [(key, n)]
  | (k, n) :: rest =>
    if k == key then (f (some n)).map fun n => (k, n) :: rest
    else (update f key rest).map ((k, n) :: ·)

/-- Goes down a path that a header gives, making what is missing. -/
def enter (f : Option Node → Option Node) : List String → Option Node → Option Node
  | [], n => f n
  | key :: rest, none => (update (enter f rest) key []).map (.table .outer)
  | key :: rest, some (.table origin entries) =>
    if origin = .braces then none else (update (enter f rest) key entries).map (.table origin)
  | key :: rest, some (.tables (latest :: earlier)) =>
    (update (enter f rest) key latest).map fun latest => .tables (latest :: earlier)
  | _ :: _, some (.tables []) => none
  | _ :: _, some (.leaf _) => none

/-- Whether a key with dots may go through a table. The last table it comes to must have been made
by such keys; on the way there may be tables that only have headers inside them. -/
def Origin.admits (isLast : Bool) : Origin → Bool
  | dotted => true
  | outer => !isLast
  | header | braces => false

/-- Puts a value at the end of the path of a key with dots, making what is missing. On its way the
path may go through the latest table of an array. -/
def putAt (v : Node) : List String → Option Node → Option Node
  | [], none => some v
  | [], some _ => none
  | key :: rest, none => (update (putAt v rest) key []).map (.table .dotted)
  | key :: rest, some (.table origin entries) =>
    if origin.admits rest.isEmpty then (update (putAt v rest) key entries).map (.table origin)
    else none
  | key :: rest, some (.tables (latest :: earlier)) =>
    if rest.isEmpty then none
    else (update (putAt v rest) key latest).map fun latest => .tables (latest :: earlier)
  | _ :: _, some (.tables []) => none
  | _ :: _, some (.leaf _) => none

def assign (path : List String) (v : Node) (entries : Entries) : Option Entries :=
  match path with
  | [] => none
  | key :: rest => update (putAt v rest) key entries

/-- Gives a key its value in the table that the latest header opened. -/
def assignAt (header path : List String) (v : Node) (root : Node) : Option Node :=
  enter (fun
    | some (.table origin entries) => (assign path v entries).map (.table origin)
    | some (.tables (latest :: earlier)) =>
      (assign path v latest).map fun latest => .tables (latest :: earlier)
    | _ => none) header (some root)

def openTable (header : List String) (root : Node) : Option Node :=
  enter (fun
    | none => some (.table .header [])
    | some (.table .outer entries) => some (.table .header entries)
    | _ => none) header (some root)

/-- Opens one more table of an array of tables. -/
def openItem (header : List String) (root : Node) : Option Node :=
  enter (fun
    | none => some (.tables [[]])
    | some (.tables items) => some (.tables ([] :: items))
    | _ => none) header (some root)

def Node.setting : Node → Setting
  | leaf s => s
  | table .. => .table
  | tables _ => .list

end ProcEngine.Toml
