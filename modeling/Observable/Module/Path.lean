import Observable.File.Path
/-! Paths of modules below the root of a crate, and the types declared in them. -/
namespace Observable

/-- The path of a module; the root has the empty path. -/
structure ModulePath where
  segments : List String
deriving DecidableEq, Repr, Inhabited

namespace ModulePath

def root : ModulePath := ⟨[]⟩

def isRoot (m : ModulePath) : Bool := m.segments.isEmpty

def child (m : ModulePath) (name : String) : ModulePath := ⟨m.segments ++ [name]⟩

def parent (m : ModulePath) : Option ModulePath :=
  if m.isRoot then none else some ⟨m.segments.dropLast⟩

def display (m : ModulePath) : String :=
  if m.isRoot then "crate" else "::".intercalate m.segments

/-- The names that a path consists of, when it has no other steps than points. -/
def names? : List File.Component → Option (List String)
  | [] => some []
  | .name n :: rest => (names? rest).map (n :: ·)
  | .here :: rest => names? rest
  | _ => none

/-- The module of a source file in some directories. -/
def ofStem (directories : List String) (stem : String) : ModulePath :=
  if stem = "mod" || (directories.isEmpty && (stem = "lib" || stem = "main")) then ⟨directories⟩
  else ⟨directories ++ [stem]⟩

/-- The module that a file defines, by its path below the source root. -/
def ofFile (path : List Char) : Option ModulePath := do
  let file ← File.Path.fileName? path
  let (stem, suffix) := File.Path.splitName file.toList
  if suffix ≠ some ['r', 's'] then none
  else
    let names ← names? (File.Path.components path)
    return ofStem names.dropLast (String.ofList stem)

end ModulePath

/-- A type that owns fields: the module it is declared in and its name. -/
structure Owner where
  module : ModulePath
  name : String
deriving DecidableEq, Repr, Inhabited

namespace Owner

/-- Owners are ordered by their module, segment by segment, and then by name. -/
def compare (a b : Owner) : Ordering :=
  (Ord.compare a.module.segments b.module.segments).then (Ord.compare a.name b.name)

/-- The module to write generated text for; a type at the root needs none. -/
def enclosing? (o : Owner) : Option ModulePath :=
  if o.module.isRoot then none else some o.module

def display (o : Owner) : String :=
  if o.module.isRoot then "crate::" ++ o.name
  else "crate::" ++ o.module.display ++ "::" ++ o.name

end Owner

end Observable
