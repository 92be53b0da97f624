import Observable.Text.Position
/-! Problems that are reported with the output of a pass. -/
namespace Observable

/-- How bad a problem is. -/
inductive Severity where
  | warning
  | error
deriving DecidableEq, Repr, Inhabited

def Severity.label : Severity → String
  | warning => "warning"
  | error => "error"

/-- What kind of problem it is. -/
inductive DiagnosticCode where
  | malformedName
  | resolution
  | badSyntax
  | duplicateMarker
deriving DecidableEq, Repr, Inhabited

namespace DiagnosticCode

def label : DiagnosticCode → String
  | malformedName => "RP0001"
  | resolution => "RP0002"
  | badSyntax => "RP0003"
  | duplicateMarker => "RP0004"

def severity : DiagnosticCode → Severity
  | duplicateMarker => .warning
  | _ => .error

end DiagnosticCode

/-- A place in a file. -/
structure Location where
  file : String
  place : Position
deriving DecidableEq, Repr, Inhabited

def Location.display (l : Location) : String :=
  l.file ++ ":" ++ toString l.place.line ++ ":" ++ toString l.place.column

/-- A problem, with the place it is about or the unit it is about when they are known. -/
structure Diagnostic where
  code : DiagnosticCode
  message : String
  location : Option Location := none
  unit : Option String := none
deriving DecidableEq, Repr, Inhabited

namespace Diagnostic

def severity (d : Diagnostic) : Severity := d.code.severity

def isError (d : Diagnostic) : Bool := d.severity = .error

def display (d : Diagnostic) : String :=
  d.severity.label ++ "[" ++ d.code.label ++ "]: " ++ d.message
    ++ (d.location.map fun l => " at " ++ l.display).getD ""
    ++ (d.unit.map fun u => " in unit '" ++ u ++ "'").getD ""

end Diagnostic

end Observable
