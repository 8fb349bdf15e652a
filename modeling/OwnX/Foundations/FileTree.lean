import Mathlib.Data.List.Basic

/-!
# Trees of files

A tree of files and directories with their modes, and the operations of a file system on it: each is
given a path from the root and fails if the path does not lead there. The data of a file is a list of
symbols of any type. The entries of a directory are in an order, and a new one comes last.
-/

namespace OwnX

mutual

/-- A file, or a directory with its entries. -/
inductive FileTree (β : Type) where
  | file (mode : Nat) (data : List β)
  | dir (mode : Nat) (entries : FileForest β)

/-- The entries of a directory. -/
inductive FileForest (β : Type) where
  | nil
  | cons (name : String) (tree : FileTree β) (rest : FileForest β)

end

/-- The names on the way from the root. -/
abbrev Path := List String

/-- What stands at a path: a directory, without its entries, or a file. -/
inductive Entry (β : Type) where
  | dir (mode : Nat)
  | file (mode : Nat) (data : List β)
  deriving DecidableEq, Repr

/-- The entry with another mode. -/
def Entry.setMode {β : Type} (mode : Nat) : Entry β → Entry β
  | .dir _ => .dir mode
  | .file _ data => .file mode data

/-- Both are directories, or both are files and the first has a beginning of the data of the second. -/
def Entry.Part {β : Type} : Entry β → Entry β → Prop
  | .dir _, .dir _ => True
  | .file _ data, .file _ data' => data <+: data'
  | _, _ => False

variable {β : Type}

namespace FileForest

/-- The entry of a name. -/
def find : FileForest β → String → Option (FileTree β)
  | nil, _ => none
  | cons n t rest, name => if n = name then some t else rest.find name

/-- The entry of a name is replaced, or comes last if it is new. -/
def set : FileForest β → String → FileTree β → FileForest β
  | nil, name, t => cons name t nil
  | cons n c rest, name, t => if n = name then cons n t rest else cons n c (rest.set name t)

end FileForest

namespace FileTree

/-- What stands at the root. -/
def top : FileTree β → Entry β
  | file mode data => .file mode data
  | dir mode _ => .dir mode

/-- The tree at a path. -/
def node : Path → FileTree β → Option (FileTree β)
  | [], t => some t
  | _ :: _, file _ _ => none
  | n :: p, dir _ es => (es.find n).bind (node p)

/-- What stands at a path. -/
def entry (p : Path) (t : FileTree β) : Option (Entry β) := (t.node p).map top

/-- The tree at a path is changed by `f`, or made by it if the path leads to no tree but its parent is
a directory. -/
def alter (f : Option (FileTree β) → Option (FileTree β)) : Path → FileTree β → Option (FileTree β)
  | [], t => f (some t)
  | _ :: _, file _ _ => none
  | n :: p, dir mode es =>
    (match es.find n with
      | some c => alter f p c
      | none => if p = [] then f none else none).map fun t => dir mode (es.set n t)

/-- The directories on the way are made, as far as they are not there. -/
def mkdirAll (dirMode : Nat) : Path → FileTree β → Option (FileTree β)
  | _, file _ _ => none
  | [], dir mode es => some (dir mode es)
  | n :: p, dir mode es =>
    (mkdirAll dirMode p ((es.find n).getD (dir dirMode .nil))).map fun t => dir mode (es.set n t)

/-- A file is made, or emptied. -/
def create (fileMode : Nat) : Path → FileTree β → Option (FileTree β) :=
  alter fun
    | none => some (file fileMode [])
    | some (file mode _) => some (file mode [])
    | some (dir _ _) => none

/-- The mode is changed. -/
def chmod (mode : Nat) : Path → FileTree β → Option (FileTree β) :=
  alter fun
    | none => none
    | some (file _ data) => some (file mode data)
    | some (dir _ es) => some (dir mode es)

/-- A file is overwritten, from its beginning on. -/
def write (data : List β) : Path → FileTree β → Option (FileTree β) :=
  alter fun
    | some (file mode old) => some (file mode (data ++ old.drop data.length))
    | _ => none

end FileTree

/-! ## The shape of a tree -/

/-- The names in a directory. -/
def FileForest.names : FileForest β → List String
  | .nil => []
  | .cons name _ rest => name :: rest.names

mutual

/-- How many names a path in the tree has at most. -/
def FileTree.depth : FileTree β → Nat
  | .file _ _ => 0
  | .dir _ es => es.depth

/-- How many names a path in the directory has at most. -/
def FileForest.depth : FileForest β → Nat
  | .nil => 0
  | .cons _ t rest => max (t.depth + 1) rest.depth

end

mutual

/-- No directory has two entries of one name. -/
def FileTree.WellFormed : FileTree β → Prop
  | .file _ _ => True
  | .dir _ es => es.WellFormed

/-- No two entries have one name, and each is well formed. -/
def FileForest.WellFormed : FileForest β → Prop
  | .nil => True
  | .cons name t rest => t.WellFormed ∧ rest.find name = none ∧ rest.WellFormed

end

end OwnX
