/-! Paths of files as text, and their components. -/
namespace Observable.File

/-- One step of a path. -/
inductive Component where
  | root
  | here
  | up
  | name (text : String)
deriving DecidableEq, Repr, Inhabited

namespace Path

/-- The pieces between slashes that are not empty. -/
def pieces (text : List Char) : List (List Char) :=
  (text.splitOn '/').filter (!·.isEmpty)

def component (piece : List Char) : Component :=
  if piece = ['.'] then .here
  else if piece = ['.', '.'] then .up
  else .name (String.ofList piece)

/-- Whether a path begins at the root of the file system. -/
def isAbsolute (text : List Char) : Bool := text.head? = some '/'

/-- The steps of a path; a point counts only at its start. -/
def components (text : List Char) : List Component :=
  let steps := (pieces text).map component
  if isAbsolute text then .root :: steps.filter (· ≠ .here)
  else steps.take 1 ++ (steps.drop 1).filter (· ≠ .here)

/-- The name of the file that a path leads to. -/
def fileName? (text : List Char) : Option String :=
  match (components text).getLast? with
  | some (.name n) => some n
  | _ => none

/-- The parts of a file name before and after its last point. -/
def splitName (name : List Char) : List Char × Option (List Char) :=
  let suffix := name.reverse.takeWhile (· ≠ '.')
  let before := name.reverse.drop (suffix.length + 1)
  if before.isEmpty then (name, none) else (before.reverse, some suffix.reverse)

/-- A path behind another one; an absolute path replaces it. -/
def join (base path : String) : String :=
  if isAbsolute path.toList then path
  else if base.isEmpty || base.toList.getLast? = some '/' then base ++ path
  else base ++ "/" ++ path

end Path

end Observable.File
