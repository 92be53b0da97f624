import Observable.Output.Group
import Observable.Output.Quote
import Observable.Property.Descriptor
import Observable.Token.Spaced
/-! The unit that is generated for a group: a struct with an event for each property, and the
methods that read, change and observe the properties. -/
namespace Observable

/-- A generated source text, with the module that it is about. -/
structure SourceUnit where
  key : String
  enclosing? : Option ModulePath
  body : String
deriving DecidableEq, Repr, Inhabited

/-- What a group gives before its text is laid out. -/
structure Emission where
  unit : Option SourceUnit := none
  properties : Nat := 0
  diagnostics : List Diagnostic := []
deriving Repr, Inhabited

/-- The names by which generated text refers to an owner. -/
structure OwnerNames where
  name : Token
  path : List Token
  events : Token
deriving Repr, Inhabited

namespace OwnerNames

/-- The names of an owner, if it can be named: a type at the root by its bare name, any other by
its path. -/
def ofOwner? (o : Owner) : Option OwnerNames := do
  let name ← Property.identifier? o.name
  let path ← if o.enclosing?.isSome then
      match Grammar.readPath o.display.toList with
      | .ok tree => some tree.tokens
      | .error _ => none
    else some [name]
  return { name, path, events := name.renamed "" "Events" }

end OwnerNames

def eventType : List Token := Quote.libraryPath ["reactive_property", "ChangeEvent"]

/-- A part of the struct that holds the events of an owner. -/
structure Slot where
  summary : String
  name : Token
deriving Repr, Inhabited

/-- A method that is generated for an owner. -/
structure Method where
  summary : String
  attributes : List Token := []
  qualifiers : List String
  name : Token
  parameters : List Token
  result : List Token := []
  body : List Token
deriving Repr, Inhabited

open Quote

def Slot.tokens (s : Slot) : List Token :=
  doc s.summary ++ [word "pub", s.name] ++ op ":" ++ eventType ++ op ","

def Method.tokens (m : Method) : List Token :=
  doc m.summary ++ m.attributes ++ words m.qualifiers ++ [m.name, parens m.parameters] ++ m.result
    ++ [braces m.body]

namespace Descriptor

def slot (d : Descriptor) : Slot where
  summary := " Raised after `" ++ d.property ++ "` changes."
  name := d.accessor

def sharedSelf : List Token := op "&" ++ [word "self"]

def changingSelf : List Token := op "&" ++ words ["mut", "self"]

def part (name : Token) : List Token := [word "self"] ++ op "." ++ [name]

/-- The slot of a property's event inside the owner. -/
def ownSlot (events : Token) (d : Descriptor) : List Token :=
  part events ++ op "." ++ [d.accessor]

def accessorMethod (events : Token) (d : Descriptor) : Method where
  summary := " Subscribe to or raise `" ++ d.event ++ "`."
  qualifiers := ["pub", "const", "fn"]
  name := d.accessor
  parameters := changingSelf
  result := op "->" ++ op "&" ++ [word "mut"] ++ eventType
  body := op "&" ++ [word "mut"] ++ ownSlot events d

def getterMethod (d : Descriptor) : Method where
  summary := " Current value of `" ++ d.property ++ "`, backed by `" ++ d.field.spelling ++ "`."
  attributes := attr [word "must_use"]
  qualifiers := ["pub", "const", "fn"]
  name := d.getter
  parameters := sharedSelf
  result := op "->" ++ op "&" ++ d.type
  body := op "&" ++ part d.field

/-- What the setter does when the value changes. -/
def change (events : Token) (d : Descriptor) : List Token :=
  part d.field ++ op "=" ++ [word "value"] ++ op ";"
    ++ ownSlot events d ++ op "." ++ [word "publish", parens []] ++ op ";"

def setterMethod (events : Token) (d : Descriptor) : Method where
  summary := " Set `" ++ d.property ++ "`, raising `" ++ d.event ++ "` only when the value changes."
  attributes := attr [word "allow", parens ([word "clippy"] ++ op "::" ++ [word "float_cmp"])]
  qualifiers := ["pub", "fn"]
  name := d.setter
  parameters := changingSelf ++ op "," ++ [word "value"] ++ op ":" ++ d.type
  body := [word "if"] ++ part d.field ++ op "!=" ++ [word "value"] ++ [braces (change events d)]

def methods (events : Token) (d : Descriptor) : List Method :=
  [d.accessorMethod events, d.getterMethod, d.setterMethod events]

end Descriptor

/-- What is generated for an owner: a struct with its slots, and its methods. -/
structure Augmentation where
  owner : OwnerNames
  slots : List Slot
  methods : List Method
deriving Repr, Inhabited

namespace Augmentation

/-- What is generated for some properties, with the events in a field of a given name. -/
def ofProperties (owner : OwnerNames) (events : Token) (properties : List Descriptor) :
    Augmentation where
  owner := owner
  slots := properties.map (·.slot)
  methods := properties.flatMap (·.methods events)

def slotNames (a : Augmentation) : List String := a.slots.map (·.name.spelling)

def methodNames (a : Augmentation) : List String := a.methods.map (·.name.spelling)

def eventsStruct (a : Augmentation) : List Token :=
  doc (" Change events for the reactive properties of `" ++ a.owner.name.spelling ++ "`.")
    ++ attr [word "derive", parens ([word "Debug"] ++ op "," ++ [word "Default"])]
    ++ [word "pub", word "struct", a.owner.events, braces (a.slots.flatMap (·.tokens))]

def tokens (a : Augmentation) : List Token :=
  a.eventsStruct ++ [word "impl"] ++ a.owner.path ++ [braces (a.methods.flatMap (·.tokens))]

end Augmentation

namespace Emission

/-- A problem with the name of a field. -/
def malformed (key : String) (c : Candidate) (e : NameError) : Diagnostic :=
  { code := .malformedName, message := e.message, location := some c.location, unit := some key }

/-- The fields of a group that have a descriptor. -/
def derived (g : Group) : List Derived :=
  g.fields.filterMap fun c => (Derived.ofCandidate c).toOption

/-- The problems of the fields that have none. -/
def underivable (key : String) (g : Group) : List Diagnostic :=
  g.fields.filterMap fun c =>
    match Derived.ofCandidate c with
    | .error e => some (malformed key c e)
    | .ok _ => none

/-- The fields that collide with no other one. -/
def survivors (all : List Derived) : List Derived :=
  all.filter fun d => (Derived.collision? all d).isNone

def collisions (key : String) (all : List Derived) : List Diagnostic :=
  all.filterMap fun d => (Derived.collision? all d).map (malformed key d.candidate)

/-- The problem of an owner without a name. -/
def unnamable (key : String) (o : Owner) : Diagnostic :=
  { code := .resolution
    message := "owner `" ++ o.display ++ "` cannot be named from generated code"
    unit := some key }

/-- What a group gives, with the events in a field of a given name. -/
def ofGroup (g : Group) (key : String) (events : Token) : Emission :=
  let all := derived g
  let properties := survivors all
  let problems := underivable key g ++ collisions key all
  if properties.isEmpty then { diagnostics := problems }
  else
    match OwnerNames.ofOwner? g.owner with
    | none => { diagnostics := problems ++ [unnamable key g.owner] }
    | some names =>
      let a := Augmentation.ofProperties names events (properties.map (·.descriptor))
      { unit := some ⟨key, g.owner.enclosing?, spacedTokens a.tokens⟩
        properties := properties.length
        diagnostics := problems }

end Emission

end Observable
