import Observable.Field.Candidate
import Observable.Property.Name
import Observable.Text.Sorted
/-! What is generated for a field, and fields that would generate the same. -/
namespace Observable

/-- An identifier with something around it; the mark of a raw one is dropped. -/
def Token.renamed (before after : String) : Token → Token
  | .ident _ name place => .ident false (before ++ name ++ after) place
  | t => t

/-- The names and tokens of a property. -/
structure Descriptor where
  property : String
  event : String
  field : Token
  type : List Token
  getter : Token
  setter : Token
  accessor : Token
deriving Repr, Inhabited

namespace Descriptor

def ofField (name : String) (type : List Token) : Except NameError Descriptor := do
  let property ← Property.nameOf name
  let event := Property.eventOf property
  match Property.identifier? name, Property.methodName? property, Property.methodName? event with
  | some field, some getter, some accessor =>
    return { property, event, field, type, getter, setter := getter.renamed "set_" "", accessor }
  | _, _, _ => .error (.invalidIdentifier name property)

/-- The identifiers that a property adds to its owner. -/
def identifiers (d : Descriptor) : List String :=
  [d.getter.spelling, d.setter.spelling, d.accessor.spelling]

end Descriptor

/-- A candidate with its descriptor. -/
structure Derived where
  candidate : Candidate
  descriptor : Descriptor
deriving Repr, Inhabited

namespace Derived

def ofCandidate (c : Candidate) : Except NameError Derived :=
  (Descriptor.ofField c.name c.type).map (⟨c, ·⟩)

/-- The fields with other names than a given one that generate an identifier, least name first. -/
def rivals (all : List Derived) (name identifier : String) : List String :=
  sorted (fun a b => (compare a b).isLE)
    ((all.filter fun d => d.descriptor.identifiers.contains identifier
        && d.candidate.name ≠ name).map (·.candidate.name))

/-- The collision of a field with another one, if there is one. -/
def collision? (all : List Derived) (d : Derived) : Option NameError :=
  d.descriptor.identifiers.findSome? fun identifier =>
    (rivals all d.candidate.name identifier).head?.map fun other =>
      .collision d.candidate.name other identifier

end Derived

end Observable
