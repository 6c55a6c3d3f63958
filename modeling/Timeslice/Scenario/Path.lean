/-! # Paths

Paths are texts with slashes between their components. The directory of a file is what stands
before its last component, less the empty components and single dots at its end. A first component
is kept in any case.
-/

namespace Timeslice.Path

def components (path : String) : List String :=
  (path.toList.splitOnP (· == '/')).map String.ofList

/-- The greatest number of bytes of a component that a directory takes. -/
def maxComponentSize : Nat := 255

/-- The greatest number of bytes of a path as a whole. -/
def maxSize : Nat := 4095

def isAbsolute (path : String) : Bool := path.toList.head? == some '/'

/-- Whether a component stays where it is. -/
def isIdle (component : String) : Bool := component == "" || component == "."

/-- The directory that holds the file of a path. -/
def directory (path : String) : String :=
  match (components path).dropLast with
  | [] => ""
  | first :: rest =>
    let kept := (rest.reverse.dropWhile isIdle).reverse
    if first == "" && kept.isEmpty then "/" else String.intercalate "/" (first :: kept)

/-- A path read from a directory. An absolute path stays as it is. -/
def join (base path : String) : String :=
  if isAbsolute path then path
  else if base.isEmpty || base.toList.getLast? == some '/' then base ++ path
  else base ++ "/" ++ path

end Timeslice.Path
