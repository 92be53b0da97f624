import Observable.File.Path
import Observable.File.Tree
/-! Reading and writing a tree of files by paths. -/
namespace Observable

/-- Why a path gives no access. -/
inductive AccessError where
  | missing
  | notDirectory
  | isDirectory
  | taken
  | nameTooLong
  | nullInPath
  | noText
deriving DecidableEq, Repr, Inhabited

def AccessError.message : AccessError → String
  | missing => "No such file or directory (os error 2)"
  | notDirectory => "Not a directory (os error 20)"
  | isDirectory => "Is a directory (os error 21)"
  | taken => "File exists (os error 17)"
  | nameTooLong => "File name too long (os error 36)"
  | nullInPath => "file name contained an unexpected NUL byte"
  | noText => "stream did not contain valid UTF-8"

namespace FileTree

/-- The number of bytes that a name may have. -/
def maxName : Nat := 255

/-- The entry of a name in a directory. -/
def step (tree : FileTree) (here : List String) (name : String) :
    Except AccessError (Option Entry) :=
  if !tree.hasDirectory here then .error .notDirectory
  else if maxName < name.utf8ByteSize then .error .nameTooLong
  else .ok (tree.find? (here ++ [name]))

/-- Where the pieces of a path lead from a place; every piece but the last is in a directory. -/
def follow (tree : FileTree) : List String → List (List Char) → Except AccessError (List String)
  | here, [] => .ok here
  | here, piece :: rest =>
    let name := String.ofList piece
    match tree.step here name, File.Path.component piece with
    | .error e, _ => .error e
    | .ok _, .up => follow tree here.dropLast rest
    | .ok (some _), .name _ => follow tree (here ++ [name]) rest
    | .ok none, .name _ => .error .missing
    | .ok _, _ => follow tree here rest

/-- Where a path leads; a slash at its end asks for a directory. -/
def locate (tree : FileTree) (path : String) : Except AccessError (List String) :=
  let text := path.toList
  if '\x00' ∈ text then .error .nullInPath
  else if text.isEmpty then .error .missing
  else do
    let found ← tree.follow [] (File.Path.pieces text)
    if text.getLast? = some '/' && !tree.hasDirectory found then .error .notDirectory
    else return found

def text (tree : FileTree) (path : String) : Except AccessError String := do
  match tree.find? (← tree.locate path) with
  | some (.file bytes) => ((String.fromUTF8? bytes).map .ok).getD (.error .noText)
  | _ => .error .isDirectory

def hasFile (tree : FileTree) (path : String) : Bool :=
  match tree.locate path with
  | .ok found => !tree.hasDirectory found
  | .error _ => false

/-- Makes the directories that the pieces of a path name and that are missing. -/
def makeAll (tree : FileTree) : List String → List (List Char) → Except AccessError FileTree
  | _, [] => .ok tree
  | here, piece :: rest =>
    let name := String.ofList piece
    match tree.step here name, File.Path.component piece with
    | .error e, _ => .error e
    | .ok _, .up => makeAll tree here.dropLast rest
    | .ok (some .directory), .name _ => makeAll tree (here ++ [name]) rest
    | .ok (some (.file _)), .name _ => .error (if rest.isEmpty then .taken else .notDirectory)
    | .ok none, .name _ => makeAll (tree.put here name .directory) (here ++ [name]) rest
    | .ok _, _ => makeAll tree here rest

/-- Makes a directory and those that it stands in, unless they are there. -/
def makeDirectory (tree : FileTree) (path : String) : Except AccessError FileTree :=
  if '\x00' ∈ path.toList then .error .nullInPath
  else tree.makeAll [] (File.Path.pieces path.toList)

/-- Writes a file into a directory that is there. -/
def write (tree : FileTree) (path : String) (bytes : ByteArray) : Except AccessError FileTree :=
  let pieces := File.Path.pieces path.toList
  if '\x00' ∈ path.toList then .error .nullInPath
  else
    match pieces.getLast?.map File.Path.component with
    | some (.name name) => do
      let directory ← tree.follow [] pieces.dropLast
      match ← tree.step directory name with
      | some .directory => .error .isDirectory
      | _ => return tree.put directory name (.file bytes)
    | _ => .error .isDirectory

end FileTree

end Observable
