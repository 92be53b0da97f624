import Observable.Config.Reading
import Observable.Module.Directory
import Observable.Pass.Generator
/-! What a build tells the tool that runs it. -/
namespace Observable

/-- Why a build fails. -/
inductive BuildError where
  | access (path : String) (error : AccessError)
  | config (error : ConfigError)
  | source (error : SourceError)
  | generate (error : GenerateError)
deriving DecidableEq, Repr

def BuildError.message : BuildError → String
  | access path e => "failed to access '" ++ path ++ "': " ++ e.message
  | config e => e.message
  | source e => e.message
  | generate e => e.message

/-- The paths that a build depends on, the paths of the files that it wrote, and its problems. -/
structure BuildReport where
  inputs : List String
  outputs : List String
  diagnostics : List Diagnostic
deriving DecidableEq, Repr, Inhabited

namespace BuildReport

def errors (r : BuildReport) : List Diagnostic := r.diagnostics.filter (·.isError)

/-- The lines that tell the tool when to build again, and what to warn of. -/
def directives (r : BuildReport) : List String :=
  "cargo:rerun-if-changed=build.rs" :: r.inputs.map ("cargo:rerun-if-changed=" ++ ·)
    ++ r.diagnostics.map ("cargo:warning=" ++ ·.display)

end BuildReport

/-- The line that shows an event of a pass. -/
def PassEvent.debugLine (e : PassEvent) : String := "[debug] " ++ e.display

end Observable
