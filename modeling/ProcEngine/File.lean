import ProcEngine.Text.Pieces
/-!
# Files

What can go wrong when a text is read from a file, and trees of files that are held as values. Paths
start at the top of such a tree, which stands somewhere in a system of files: what is above it are
directories, and what every system has can be named from its root.
-/

namespace ProcEngine

inductive FileError
  | notFound
  | notADirectory
  | isADirectory
  | denied
  | nameTooLong
  | notText
  deriving DecidableEq

def FileError.message : FileError → String
  | notFound => "No such file or directory (os error 2)"
  | denied => "Permission denied (os error 13)"
  | notADirectory => "Not a directory (os error 20)"
  | isADirectory => "Is a directory (os error 21)"
  | nameTooLong => "File name too long (os error 36)"
  | notText => "stream did not contain valid UTF-8"

/-- Texts by the steps of their paths. A directory is there if a file below it is, and so is the
top. -/
structure FileTree where
  files : List (List String × String)

inductive Place
  | inside (steps : List String)
  /-- Some directory above the tree. -/
  | above
  /-- By steps from the root of the system. -/
  | system (steps : List String)

namespace FileTree

def ofList (files : List (String × String)) : FileTree :=
  ⟨files.map fun (path, text) => (Text.pieces '/' path, text)⟩

def systemDirectories : List (List String) :=
  [] ::
    (["bin", "boot", "dev", "etc", "home", "lib", "lib64", "media", "mnt", "opt", "proc", "root",
      "run", "sbin",
    "srv", "sys", "tmp", "usr", "var"].map fun name => [name]) ++
  [["dev", "shm"], ["proc", "self"], ["usr", "bin"], ["usr", "include"], ["usr", "lib"],
    ["usr", "local"],
    ["usr", "sbin"], ["usr", "share"], ["var", "cache"], ["var", "lib"], ["var", "log"],
      ["var", "tmp"]]

def systemFiles : List (List String × String) :=
  [(["dev", "null"], ""), (["etc", "passwd"], "root:x:0:0:root:/root:/bin/sh\n"),
    (["etc", "hosts"], "127.0.0.1\tlocalhost\n")]

def file? (t : FileTree) : Place → Option String
  | .inside steps => t.files.lookup steps
  | .above => none
  | .system steps => systemFiles.lookup steps

def hasDirectory (t : FileTree) : Place → Bool
  | .inside steps => steps.isEmpty || t.files.any fun f => steps.isPrefixOf f.1 && f.1 != steps
  | .above => true
  | .system steps => systemDirectories.contains steps

/-- How many bytes a name may have, and how many a path. -/
def maxName : Nat := 255

def maxPath : Nat := 4095

def parent : Place → Place
  | .inside [] | .above => .above
  | .inside steps => .inside steps.dropLast
  | .system steps => .system steps.dropLast

/-- A name in a directory; those above the tree hold nothing that is known. -/
def child (place : Place) (name : String) : Except FileError Place :=
  if maxName < name.utf8ByteSize then .error .nameTooLong
  else
    match place with
    | .inside steps => .ok (.inside (steps ++ [name]))
    | .above => .error .notFound
    | .system steps => .ok (.system (steps ++ [name]))

/-- Takes one step from a place, which must be a directory. -/
def step (t : FileTree) (place : Place) (name : String) : Except FileError Place :=
  if (t.file? place).isSome then .error .notADirectory
  else if !t.hasDirectory place then .error .notFound
  else
    match name with
    | "" | "." => .ok place
    | ".." => .ok (parent place)
    | name => child place name

def read (t : FileTree) (path : String) : Except FileError String := do
  if path.isEmpty then throw .notFound
  if maxPath < path.utf8ByteSize then throw .nameTooLong
  let start := if path.toList.head? = some '/' then .system [] else .inside []
  let place ← (Text.pieces '/' path).foldlM t.step start
  match t.file? place with
  | some text => return text
  | none => throw (if t.hasDirectory place then .isADirectory else .notFound)

example : ((ofList [("a/b", "x")]).read "./a/../a//b").toOption = some "x" := by decide +kernel
example : ((ofList [("a/b", "x")]).read "a/b/").toOption = none := by decide +kernel

end FileTree

end ProcEngine
