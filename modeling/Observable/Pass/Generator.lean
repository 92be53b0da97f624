import Observable.Pass.Output
/-! The generator: it is initialized once and then runs passes. -/
namespace Observable

/-- How far a generator has come. -/
inductive GeneratorState where
  | uninitialized
  | initialized
  | executed
deriving DecidableEq, Repr, Inhabited

def Marker.unit : Except Output.CanonicalError SourceUnit :=
  (Output.canonical Marker.key Marker.definition false).map fun body =>
    { key := Marker.key, enclosing? := none, body }

/-- The summary of a pass. -/
structure PassReport where
  units : List String := []
  diagnostics : Nat := 0
  errors : Nat := 0
deriving DecidableEq, Repr, Inhabited

namespace PassReport

def hasErrors (r : PassReport) : Bool := 0 < r.errors

def countProblem (r : PassReport) (d : Diagnostic) : PassReport :=
  { r with
    diagnostics := r.diagnostics + 1
    errors := if d.isError then r.errors + 1 else r.errors }

def listUnit (r : PassReport) (unit : SourceUnit) : PassReport :=
  { r with units := r.units ++ [unit.key] }

end PassReport

namespace Pass

/-- Tells the observer and the host of problems in order. -/
def reportProblems (k : Cancellation) : PassReport → List Diagnostic → Pass PassReport
  | r, [] => return r
  | r, d :: rest => do
    record k (.reported d)
    handOver (·.addProblem d)
    reportProblems k (r.countProblem d) rest

/-- Hands units over to the host in order. -/
def addUnits : PassReport → List SourceUnit → Pass PassReport
  | r, [] => return r
  | r, unit :: rest => do
    handOver (·.addUnit unit)
    addUnits (r.listUnit unit) rest

/-- Delivers the output of a pass, the marker's unit first. -/
def deliver (k : Cancellation) (marker : SourceUnit) (o : PassOutput) : Pass PassReport := do
  let report ← reportProblems k {} o.diagnostics
  let report ← addUnits report (marker :: o.units)
  record k (.passFinish report.units.length report.diagnostics)
  return report

/-- A whole pass: its output is delivered when all of it is there. -/
def whole (k : Cancellation) (c : Compilation) (events : Token) (marker : SourceUnit) :
    Pass PassReport := do
  record k (.passStart c.files.length)
  let o ← tryCatch (output k c events) fun e => do
    record k .passCancelled
    throw e
  deliver k marker o

end Pass

/-- How far a generator has come, with the unit of the marker once it is registered. -/
inductive Stage where
  | fresh
  | registered (marker : SourceUnit)
  | used (marker : SourceUnit)
deriving DecidableEq, Repr, Inhabited

namespace Stage

def state : Stage → GeneratorState
  | fresh => .uninitialized
  | registered _ => .initialized
  | used _ => .executed

/-- The unit of the marker, if it is registered. -/
def marker? : Stage → Option SourceUnit
  | fresh => none
  | registered marker | used marker => some marker

end Stage

/-- A generator. -/
structure Generator where
  config : GeneratorConfig
  stage : Stage := .fresh
deriving Repr, Inhabited

def Generator.state (g : Generator) : GeneratorState := g.stage.state

/-- What a call gives: the generator after it, the events during it, what the host received, and
the result. -/
structure Call (α : Type) where
  generator : Generator
  events : List PassEvent := []
  delivery : Delivery := {}
  result : Except GenerateError α

namespace Generator

/-- Registers the marker; a second time nothing happens. -/
def setUp (g : Generator) : Call Unit :=
  if g.state ≠ .uninitialized then { generator := g, result := .ok () }
  else
    match Marker.unit with
    | .ok marker =>
      { generator := { g with stage := .registered marker }, events := [.markerRegistered]
        result := .ok () }
    | .error e => { generator := g, result := .error (.marker e) }

/-- What a pass needs before it begins: the field that holds the events, and the marker's unit. -/
def prepare (g : Generator) (c : Compilation) : Except GenerateError (Token × SourceUnit) :=
  if g.state = .uninitialized then .error .notInitialized
  else
    match g.config.eventsName? with
    | none => .error (.invalidEventsField g.config.eventsField)
    | some events =>
      if c.rootBinds Marker.name then .error (.markerConflict Marker.name)
      else
        match g.stage.marker? with
        | some marker => .ok (events, marker)
        | none => .error .notInitialized

def execute (g : Generator) (c : Compilation) (k : Cancellation) : Call PassReport :=
  match g.prepare c with
  | .error e => { generator := g, result := .error e }
  | .ok (events, marker) =>
    let (result, p) := (Pass.whole k c events marker).run.run { cancelled := k.before }
    { generator := match result with
        | .ok _ => { g with stage := .used marker }
        | .error _ => g
      events := p.events, delivery := p.delivery, result }

end Generator

end Observable
