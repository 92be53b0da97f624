import Observable.Pass.Generator
/-! Calls on a generator in a process, whose generators share the text of the marker's unit. -/
namespace Observable

/-- A call on a generator. -/
inductive Command where
  | setUp
  | execute (c : Compilation) (k : Cancellation)

def Command.isSetUp : Command → Bool
  | setUp => true
  | execute .. => false

/-- What a caller sees of a call; there is no report of a set-up. -/
structure Reply where
  events : List PassEvent := []
  delivery : Delivery := {}
  result : Except GenerateError (Option PassReport)

namespace Generator

def perform (g : Generator) : Command → Generator × Reply
  | .setUp =>
    let call := g.setUp
    (call.generator, ⟨call.events, call.delivery, call.result.map fun _ => none⟩)
  | .execute c k =>
    let call := g.execute c k
    (call.generator, ⟨call.events, call.delivery, call.result.map some⟩)

/-- The generator after some calls. -/
def after (g : Generator) (commands : List Command) : Generator :=
  commands.foldl (fun g command => (g.perform command).1) g

/-- The replies to some calls, each with the state that the generator is in then. -/
def run (g : Generator) : List Command → List (GeneratorState × Reply)
  | [] => []
  | command :: rest =>
    let (g, reply) := g.perform command
    (g.state, reply) :: run g rest

end Generator

/-- What the generators of a process share: the text of the marker's unit, once it is laid out. -/
structure Registry where
  text? : Option String := none
deriving DecidableEq, Repr, Inhabited

namespace Registry

/-- The registry with the text of the marker's unit, which is laid out the first time and kept. -/
def register (r : Registry) : Except Output.CanonicalError Registry :=
  match r.text? with
  | some _ => .ok r
  | none => (Output.canonical Marker.key Marker.definition false).map fun text => ⟨some text⟩

/-- The unit of the marker, if it is registered. -/
def marker? (r : Registry) : Option SourceUnit :=
  r.text?.map fun body => { key := Marker.key, enclosing? := none, body }

end Registry

/-- A generator that leaves the marker's unit to the registry of its process. -/
structure Process where
  registry : Registry := {}
  config : GeneratorConfig
  state : GeneratorState := .uninitialized
deriving Repr, Inhabited

namespace Process

/-- What a pass needs before it begins: the field that holds the events, and the marker's unit. -/
def prepare (p : Process) (c : Compilation) : Except GenerateError (Token × SourceUnit) :=
  if p.state = .uninitialized then .error .notInitialized
  else
    match p.config.eventsName? with
    | none => .error (.invalidEventsField p.config.eventsField)
    | some events =>
      if c.rootBinds Marker.name then .error (.markerConflict Marker.name)
      else
        match p.registry.marker? with
        | some marker => .ok (events, marker)
        | none => .error .notInitialized

def perform (p : Process) : Command → Process × Reply
  | .setUp =>
    if p.state ≠ .uninitialized then (p, { result := .ok none })
    else
      match p.registry.register with
      | .ok registry =>
        ({ p with registry, state := .initialized },
          { events := [.markerRegistered], result := .ok none })
      | .error e => (p, { result := .error (.marker e) })
  | .execute c k =>
    match p.prepare c with
    | .error e => (p, { result := .error e })
    | .ok (events, marker) =>
      let (result, q) := (Pass.whole k c events marker).run.run { cancelled := k.before }
      (match result with
        | .ok _ => { p with state := .executed }
        | .error _ => p,
        ⟨q.events, q.delivery, result.map some⟩)

/-- Another generator of the process is set up. -/
def setUpOther (p : Process) : Process :=
  match p.registry.register with
  | .ok registry => { p with registry }
  | .error _ => p

/-- The replies to some calls, each with the state that the generator is in then; in between other
generators of the process are set up. -/
def run (p : Process) : List (Option Command) → List (GeneratorState × Reply)
  | [] => []
  | none :: rest => run p.setUpOther rest
  | some command :: rest =>
    let (p, reply) := p.perform command
    (p.state, reply) :: run p rest

end Process

end Observable
