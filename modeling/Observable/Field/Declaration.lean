import Observable.Diagnostic
import Observable.Field.Accessibility
import Observable.Field.Marker
/-! Fields as they are declared, and what they mean. -/
namespace Observable

open Grammar (Tree)

/-- Whether a tree is an attribute that stands before what it is about. -/
def Grammar.Tree.isOuterAttribute : Tree → Bool
  | .node (.attr false) _ => true
  | _ => false

/-- The parts of a node that are attributes. -/
def Grammar.Tree.attributes : Tree → List Tree
  | .node _ parts => parts.filter isOuterAttribute
  | _ => []

/-- The visibility of an item or a field. -/
def Grammar.Tree.declaredVisibility : Tree → Tree
  | .node _ parts => (parts.find? fun
    | .node .visibility _ => true
    | _ => false).getD (.node .visibility [])
  | _ => .node .visibility []

/-- The type of a field, which is its last part. -/
def Grammar.Tree.fieldType : Tree → Tree
  | .node .field parts => parts.getLast?.getD .absent
  | _ => .absent

/-- The fields of a struct, a union or a variant; those in parentheses have no names. -/
def Grammar.Tree.fields : Tree → List Tree
  | .node _ parts => parts.flatMap fun
    | .node .namedFields [.group .brace _ _ found] => found.filter isField
    | .node .tupleFields [.group .parenthesis _ _ found] =>
      found.filter fun t => isField t && t.name?.isNone
    | _ => []
  | _ => []
where
  isField : Tree → Bool
    | .node .field _ => true
    | _ => false

def Grammar.Tree.variants : Tree → List Tree
  | .node (.item .enumeration) parts => parts.flatMap fun
    | .group _ _ _ found => found.filter fun
      | .node .variant _ => true
      | _ => false
    | _ => []
  | _ => []

def Grammar.Tree.isGeneric : Tree → Bool
  | .node _ parts => parts.any fun
    | .node .generics (_ :: _) => true
    | _ => false
  | _ => false

/-- A field of a type, as it is declared. -/
structure FieldDeclaration where
  owner : String
  generic : Bool
  inVariant : Bool
  index : Nat
  field : Tree
deriving Repr, Inhabited

namespace FieldDeclaration

/-- Some fields of a type, counted from zero. -/
def ofFields (item : Tree) (inVariant : Bool) (fields : List Tree) : List FieldDeclaration :=
  fields.zipIdx.map fun (field, index) =>
    { owner := (item.name?.map Token.spelling).getD "", generic := item.isGeneric, inVariant,
      index, field }

def ofItem (item : Tree) : List FieldDeclaration :=
  match item with
  | .node (.item .struct) _ | .node (.item .union) _ => ofFields item false item.fields
  | .node (.item .enumeration) _ => item.variants.flatMap fun v => ofFields item true v.fields
  | _ => []

def accessibility (d : FieldDeclaration) : Accessibility :=
  .ofField d.field.declaredVisibility d.inVariant

/-- Where a field is: at its name, or where it begins when it has none. -/
def place (d : FieldDeclaration) : Position :=
  match d.field.name? with
  | some name => name.place
  | none => (d.field.tokens.head?.map Token.place).getD .start

end FieldDeclaration

/-- Why a marked field has no property. -/
inductive ResolveError where
  | unnamed (owner : Owner) (index : Nat)
  | local (owner : String)
  | generic (owner : Owner)
  | arguments (field : String) (error : ArgumentError)
deriving Repr

def ResolveError.message : ResolveError → String
  | unnamed owner index =>
    "field " ++ toString index ++ " of `" ++ owner.display
      ++ "` has no name to derive a property from"
  | .local owner =>
    "`" ++ owner ++ "` is declared inside a function body and cannot be augmented"
  | generic owner =>
    "`" ++ owner.display ++ "` is generic; generic owning types are not supported"
  | arguments field e => "invalid marker arguments on `" ++ field ++ "`: " ++ e.message

end Observable
