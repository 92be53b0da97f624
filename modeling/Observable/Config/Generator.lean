import Observable.Property.Name
/-! What a pass can be told about the generated text. -/
namespace Observable

/-- The settings of a pass: the field of each owner that holds its events, and whether the events
of the pass are shown. -/
structure GeneratorConfig where
  eventsField : String := "events"
  debug : Bool := false
deriving DecidableEq, Repr, Inhabited

namespace GeneratorConfig

/-- The field that holds the events as an identifier, if it is one. -/
def eventsName? (c : GeneratorConfig) : Option Token := Property.identifier? c.eventsField

end GeneratorConfig

/-- The settings of a build: the directory of the sources, seen from that of the crate, and the
settings of its pass. -/
structure BuildConfig where
  sourceDir : String := "src"
  generator : GeneratorConfig := {}
deriving DecidableEq, Repr, Inhabited

/-- The wording for a field that is no identifier. -/
def invalidEventsField (name : String) : String :=
  "events_field '" ++ name ++ "' is not a valid field identifier"

end Observable
