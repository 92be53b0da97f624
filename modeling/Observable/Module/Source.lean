import Observable.File.Access
import Observable.Grammar.Source
import Observable.Module.Scope
/-! The source files of a crate. -/
namespace Observable

/-- Why a source file is not part of a crate. -/
inductive SourceError where
  | unmapped (path : String)
  | refused (path : String) (error : Grammar.SyntaxError)
  | unreadable (path : String) (error : AccessError)
  | unlisted (path : String) (error : AccessError)
deriving DecidableEq, Repr

def SourceError.message : SourceError → String
  | unmapped path => "'" ++ path ++ "' does not map to a module path"
  | refused path e =>
    "failed to parse '" ++ path ++ "' at " ++ toString e.place.line ++ ":"
      ++ toString e.place.column ++ ": " ++ e.message
  | unreadable path e => "failed to read '" ++ path ++ "': " ++ e.message
  | unlisted path e =>
    "failed to walk '" ++ path ++ "': IO error for operation on " ++ path ++ ": " ++ e.message

/-- A source file with the module that it defines. -/
structure SourceFile where
  path : String
  module : ModulePath
  syntaxTree : Grammar.File
deriving Repr, Inhabited

namespace SourceFile

def read (path : String) (module : ModulePath) (text : String) : Except SourceError SourceFile :=
  match Grammar.readSource text.toList with
  | .ok file => .ok { path, module, syntaxTree := file }
  | .error e => .error (.refused path e)

/-- The scope of the module that a file defines. -/
def scope (f : SourceFile) : Scope := .ofItems f.module f.syntaxTree.items

/-- Reads a source file whose path tells its module. -/
def ofSource (source : String × String) : Except SourceError SourceFile :=
  match ModulePath.ofFile source.1.toList with
  | some module => read source.1 module source.2
  | none => .error (.unmapped source.1)

end SourceFile

/-- The source files that a pass looks at, in order. -/
structure Compilation where
  files : List SourceFile
deriving Repr, Inhabited

namespace Compilation

/-- Reads sources, given by their paths and texts; the first failure counts. -/
def ofSources (sources : List (String × String)) : Except SourceError Compilation := do
  return ⟨← sources.mapM SourceFile.ofSource⟩

/-- Whether the root of the crate binds a name. -/
def rootBinds (c : Compilation) (name : String) : Bool :=
  c.files.any fun f => f.module.isRoot && f.scope.binds name

end Compilation

end Observable
