import Observable.File.Access
import Observable.Module.Source
/-! The source files of a crate in a tree of files. -/
namespace Observable

/-- A file that defines a module. -/
structure ModuleFile where
  path : String
  module : ModulePath
  bytes : ByteArray

namespace ModuleFile

/-- The file that some names lead to from a directory, if its path from there tells a module. -/
def ofNames? (directory : String) (names : List String) (bytes : ByteArray) :
    Option ModuleFile :=
  (ModulePath.ofFile ("/".intercalate names).toList).map fun module =>
    { path := names.foldl File.Path.join directory, module, bytes }

def read (f : ModuleFile) : Except SourceError SourceFile :=
  match String.fromUTF8? f.bytes with
  | some text => SourceFile.read f.path f.module text
  | none => .error (.unreadable f.path .noText)

end ModuleFile

namespace Compilation

/-- The files below a directory that define modules, in the order of a walk. -/
def moduleFiles (tree : FileTree) (directory : String) : Except SourceError (List ModuleFile) :=
  match tree.locate directory with
  | .ok found =>
    .ok ((tree.filesBelow found).filterMap fun (names, bytes) =>
      ModuleFile.ofNames? directory names bytes)
  | .error e => .error (.unlisted directory e)

/-- Reads the source files below a directory; the first failure counts. -/
def ofDirectory (tree : FileTree) (directory : String) : Except SourceError Compilation := do
  return ⟨← (← moduleFiles tree directory).mapM ModuleFile.read⟩

end Compilation

end Observable
