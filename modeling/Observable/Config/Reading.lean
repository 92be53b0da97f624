import Observable.Config.Generator
import Observable.File.Path
import Observable.Toml.Document
import Observable.Toml.Excerpt
import Observable.Toml.Misfit
/-! The settings that a document of settings gives. -/
namespace Observable

open Toml

/-- Why settings are refused. -/
inductive ConfigError where
  | noDocument
  | misfit (excerpt : Excerpt) (reason : Misfit)
  | invalidEventsField (name : String)
deriving DecidableEq, Repr

def ConfigError.message : ConfigError → String
  | noDocument => "invalid generator config: not a document"
  | misfit excerpt reason => "invalid generator config: " ++ excerpt.report reason.message
  | .invalidEventsField name => Observable.invalidEventsField name

/-- The fault of a member that there is no setting for. -/
def unknownField {α : Type} (span : Span) (name : String) (known : List String) :
    Except Fault α :=
  .error ⟨span, .unknownField name known⟩

namespace GeneratorConfig

def fields : List String := ["events_field", "debug"]

/-- The settings after one more member of their table. -/
def read (c : GeneratorConfig) (member : Key × Located Value) : Except Fault GeneratorConfig := do
  let (key, value) := member
  if key.name = "events_field" then return { c with eventsField := ← value.asText "a string" }
  else if key.name = "debug" then return { c with debug := ← value.asBoolean }
  else unknownField key.span key.name fields

/-- The settings of a list of values, which stand in the order of their names; further ones have no
meaning. -/
def ofItems (items : List (Located Value)) : Except Fault GeneratorConfig := do
  let c : GeneratorConfig := {}
  let eventsField ← (items[0]?.map (·.asText "a string")).getD (.ok c.eventsField)
  let debug ← (items[1]?.map (·.asBoolean)).getD (.ok c.debug)
  return { eventsField, debug }

/-- The settings that a value gives; a time is a table whose only member has a reserved name. -/
def ofValue (v : Located Value) : Except Fault GeneratorConfig :=
  match v.content with
  | .table _ members => members.foldlM read {}
  | .array _ items => ofItems items
  | .dateTime => unknownField v.span "$__toml_private_datetime" fields
  | _ => v.fault "struct GeneratorConfig"

/-- Accepts settings whose field for the events is an identifier. -/
def validate (c : GeneratorConfig) : Except ConfigError Unit :=
  if c.eventsName?.isSome then .ok () else .error (.invalidEventsField c.eventsField)

end GeneratorConfig

namespace BuildConfig

/-- The settings after one more member of their table. -/
def read (c : BuildConfig) (member : Key × Located Value) : Except Fault BuildConfig := do
  let (key, value) := member
  if key.name = "source_dir" then return { c with sourceDir := ← value.asText "path string" }
  else if key.name = "generator" then return { c with generator := ← GeneratorConfig.ofValue value }
  else unknownField key.span key.name ["source_dir", "generator"]

/-- The directory of the sources of a crate in a directory. -/
def sourceRoot (c : BuildConfig) (crate : String) : String := File.Path.join crate c.sourceDir

end BuildConfig

/-- The settings that the members of a document give, read in the order of their names. -/
def readSettings {α : Type} (read : α → Key × Located Value → Except Fault α)
    (start : α) (text : String) : Except ConfigError α :=
  match Document.read? text.toList with
  | none => .error .noDocument
  | some table =>
    (table.members.foldlM read start).mapError fun fault =>
      .misfit (.ofSpan text.toList fault.span) fault.content

/-- The settings of a pass that a text gives. -/
def GeneratorConfig.ofText (text : String) : Except ConfigError GeneratorConfig := do
  let c ← readSettings GeneratorConfig.read {} text
  c.validate
  return c

/-- The settings of a build that a text gives. -/
def BuildConfig.ofText (text : String) : Except ConfigError BuildConfig := do
  let c ← readSettings BuildConfig.read {} text
  c.generator.validate
  return c

end Observable
