import ProcEngine.Config.Setting
/-!
# The content of configuration files

What a value in a file comes to. Only the entries of the outermost table are settings; of what is
nested deeper it matters only that it is a table or a list.
-/

namespace ProcEngine.Config

inductive Content
  | scalar (s : Setting)
  | list
  | table (entries : List (String × Setting))

namespace Content

def setting : Content → Setting
  | scalar s => s
  | list => .list
  | table _ => .table

/-- The settings of a whole file, which must be a table. -/
def entries? : Content → Option (List (String × Setting))
  | table entries => some entries
  | scalar _ | list => none

end Content

end ProcEngine.Config
