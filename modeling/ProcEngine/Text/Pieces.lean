/-!
# Pieces of a text

What stands between the separators of a text: one piece more than there are separators.
-/

namespace ProcEngine.Text

/-- The piece up to the first separator, and those after it. -/
def cut (separator : Char) : List Char → List Char × List (List Char)
  | [] => ([], [])
  | c :: rest =>
    let (first, others) := cut separator rest
    if c = separator then ([], first :: others) else (c :: first, others)

def pieces (separator : Char) (s : String) : List String :=
  let (first, others) := cut separator s.toList
  (first :: others).map String.ofList

example : pieces ',' "a,,b" = ["a", "", "b"] := by decide +kernel

def byteLength (cs : List Char) : Nat := cs.foldl (fun n c => n + c.utf8Size) 0

/-- The characters of a text that begin at byte `first` or later, but before byte `last`. -/
def slice (first last : Nat) : List Char → List Char
  | [] => []
  | c :: rest =>
    let others := slice (first - c.utf8Size) (last - c.utf8Size) rest
    if first = 0 && 0 < last then c :: others else others

example : slice 1 4 "aébc".toList = "éb".toList := by decide +kernel

end ProcEngine.Text
