import Timeslice.Scenario.Load

/-! # File trees

The files below one directory, and how a path is followed from there. Outside the tree there are
directories only, and they show no names.
-/

namespace Timeslice

/-- A file by its bytes, or a directory that may be empty. -/
inductive FileNode where
  | file (bytes : ByteArray)
  | directory

/-- What lies below a directory, by the components of its path. A directory above an entry need
not be an entry itself. -/
structure FileTree where
  entries : List (List String × FileNode)

namespace FileTree

/-- What a path has come to: a place in the tree, or some directory outside it. -/
inductive Place where
  | inside (components : List String)
  | outside

/-- The tree of files and directories given by their relative paths. -/
def ofList (entries : List (String × FileNode)) : FileTree :=
  ⟨entries.map fun (path, node) => ((Path.components path).filter (! Path.isIdle ·), node)⟩

/-- What stands at a place in the tree. -/
def node? (tree : FileTree) (place : List String) : Option FileNode :=
  if place.isEmpty then some .directory
  else
    match tree.entries.lookup place with
    | some node => some node
    | none => if tree.entries.any (place.isPrefixOf ·.1) then some .directory else none

/-- The bytes of the file at a place. -/
def contents (tree : FileTree) : Place → Except ReadError ByteArray
  | .outside => .error .isDirectory
  | .inside place =>
    match tree.node? place with
    | some (.file bytes) => .ok bytes
    | some .directory => .error .isDirectory
    | none => .error .notFound

/-- Goes one component on from a place, which must be a directory. A directory, in the tree or
outside it, refuses a name that is too long before it looks for it. -/
def descend (tree : FileTree) (place : Place) (component : String) : Except ReadError Place :=
  match place with
  | .outside =>
    if Path.isIdle component || component == ".." then .ok .outside
    else if Path.maxComponentSize < component.utf8ByteSize then .error .nameTooLong
    else .error .notFound
  | .inside place =>
    match tree.node? place with
    | none => .error .notFound
    | some (.file _) => .error .notDirectory
    | some .directory =>
      if Path.isIdle component then .ok (.inside place)
      else if component == ".." then
        .ok (if place.isEmpty then .outside else .inside place.dropLast)
      else if Path.maxComponentSize < component.utf8ByteSize then .error .nameTooLong
      else .ok (.inside (place ++ [component]))

/-- The text of the file that a path leads to. A path that is too long as a whole is not
followed. -/
def text (tree : FileTree) (path : String) : Except ReadError String :=
  if path.isEmpty then .error .notFound
  else if path.contains '\x00' then .error (.other "file name contained an unexpected NUL byte")
  else if Path.maxSize < path.utf8ByteSize then .error .nameTooLong
  else do
    let start := if Path.isAbsolute path then .outside else .inside []
    let place ← (Path.components path).foldlM tree.descend start
    let bytes ← tree.contents place
    match String.fromUTF8? bytes with
    | some text => return text
    | none => throw .notText

def read (tree : FileTree) : Reader Id := tree.text

end FileTree

end Timeslice
