import Observable.Module.Path
/-! Paths of files in bytes, as a directory lists them: the modules that such files define. -/
namespace Observable

namespace File.BytePath

/-- The byte between the steps of a path. -/
def slash : UInt8 := 47

/-- The byte that a step to the same place consists of. -/
def point : UInt8 := 46

/-- One step of a path in bytes. -/
inductive Step where
  | root
  | here
  | up
  | name (bytes : List UInt8)
deriving DecidableEq, Repr

/-- The pieces between slashes that are not empty. -/
def pieces (path : List UInt8) : List (List UInt8) :=
  (path.splitOn slash).filter (!·.isEmpty)

def step (piece : List UInt8) : Step :=
  if piece = [point] then .here
  else if piece = [point, point] then .up
  else .name piece

/-- Whether a path begins at the root of the file system. -/
def isAbsolute (path : List UInt8) : Bool := path.head? = some slash

/-- The steps of a path; a point counts only at its start. -/
def steps (path : List UInt8) : List Step :=
  let found := (pieces path).map step
  if isAbsolute path then .root :: found.filter (· ≠ .here)
  else found.take 1 ++ (found.drop 1).filter (· ≠ .here)

/-- The text that some bytes encode, if they do. -/
def textOf? (bytes : List UInt8) : Option String := String.fromUTF8? ⟨bytes.toArray⟩

/-- The names that a path consists of, when they are text and there are no other steps than
points. -/
def names? : List Step → Option (List String)
  | [] => some []
  | .name bytes :: rest => do
    let name ← textOf? bytes
    return name :: (← names? rest)
  | .here :: rest => names? rest
  | _ => none

end File.BytePath

namespace ModulePath

/-- The module of a source file that some names lead to. -/
def ofNames? (names : List String) : Option ModulePath := do
  let file ← names.getLast?
  let (stem, suffix) := File.Path.splitName file.toList
  if suffix ≠ some ['r', 's'] then none
  else return ofStem names.dropLast (String.ofList stem)

/-- The module that a file defines, by the bytes of its path below the source root. -/
def ofBytes (path : List UInt8) : Option ModulePath := do
  ofNames? (← File.BytePath.names? (File.BytePath.steps path))

end ModulePath

end Observable
