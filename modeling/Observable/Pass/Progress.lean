import Observable.Config.Generator
import Observable.Field.Marker
import Observable.Output.Canonical
import Observable.Output.Emission
import Observable.Pass.Event
/-! A pass in progress: what its observer has seen, what its host has received, and whether it is
cancelled. -/
namespace Observable

/-- Why a generator does not do what it is told. -/
inductive GenerateError where
  | notInitialized
  | markerConflict (name : String)
  | cancelled
  | marker (error : Output.CanonicalError)
  | invalidEventsField (name : String)
deriving DecidableEq, Repr

def GenerateError.message : GenerateError → String
  | notInitialized => "generator must be initialized before a pass can run"
  | markerConflict name =>
    "crate root already declares `" ++ name ++ "`; the marker cannot be injected"
  | cancelled => "generation pass cancelled"
  | marker e => "marker definition is not valid source: " ++ e.message
  | .invalidEventsField name => Observable.invalidEventsField name

/-- What a host has received: units and problems, in order. -/
structure Delivery where
  units : List SourceUnit := []
  diagnostics : List Diagnostic := []
deriving DecidableEq, Repr, Inhabited

namespace Delivery

def keys (d : Delivery) : List String := d.units.map (·.key)

def unit? (d : Delivery) (key : String) : Option SourceUnit := d.units.find? (·.key = key)

def errors (d : Delivery) : List Diagnostic := d.diagnostics.filter (·.isError)

def addUnit (d : Delivery) (unit : SourceUnit) : Delivery := { d with units := d.units ++ [unit] }

def addProblem (d : Delivery) (problem : Diagnostic) : Delivery :=
  { d with diagnostics := d.diagnostics ++ [problem] }

end Delivery

/-- How far a pass has come. -/
structure Progress where
  cancelled : Bool
  events : List PassEvent := []
  delivery : Delivery := {}
deriving Repr, Inhabited

/-- The observer receives an event, and may cancel the pass. -/
def Progress.record (p : Progress) (k : Cancellation) (e : PassEvent) : Progress :=
  { p with cancelled := p.cancelled || k.cancelsAt p.events e, events := p.events ++ [e] }

/-- Steps of a pass; what was done before a failure stays done. -/
abbrev Pass := ExceptT GenerateError (StateM Progress)

namespace Pass

def isCancelled : Pass Bool := return (← get).cancelled

def checkpoint : Pass Unit := do if ← isCancelled then throw .cancelled

def record (k : Cancellation) (e : PassEvent) : Pass Unit := modify (·.record k e)

def handOver (change : Delivery → Delivery) : Pass Unit :=
  modify fun p => { p with delivery := change p.delivery }

end Pass

end Observable
