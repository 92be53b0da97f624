import Observable.Grammar.Source
import Observable.Text.Words
/-! The names that a property takes from its field. -/
namespace Observable

/-- Why a field has no property. -/
inductive NameError where
  | tooShort (field : String)
  | missingPrefix (field : String)
  | invalidIdentifier (field derived : String)
  | collision (field other identifier : String)
deriving DecidableEq, Repr

def NameError.message : NameError → String
  | tooShort field =>
    "field `" ++ field ++ "` is too short to derive a property name (needs at least 2 characters)"
  | missingPrefix field =>
    "field `" ++ field ++ "` does not start with `_`; cannot derive a property name"
  | invalidIdentifier field derived =>
    "field `" ++ field ++ "` derives `" ++ derived ++ "`, which is not a usable identifier"
  | collision field other identifier =>
    "field `" ++ field ++ "` generates `" ++ identifier ++ "`, which field `" ++ other
      ++ "` also generates"

namespace Property

def fieldMark : Char := '_'

/-- What an event is called after its property. -/
def eventSuffix : String := "Changed"

def identifier? (text : String) : Option Token :=
  match Grammar.readIdentifier text.toList with
  | .ok (.token t) => some t
  | _ => none

def isIdentifier (text : String) : Bool := (identifier? text).isSome

/-- The property that a field backs: the mark is dropped and the next character is in upper
case. -/
def nameOf (field : String) : Except NameError String :=
  match field.toList with
  | first :: second :: rest =>
    if first ≠ fieldMark then .error (.missingPrefix field)
    else
      let derived := String.ofList (Text.upperChars second ++ rest)
      if isIdentifier derived then .ok derived else .error (.invalidIdentifier field derived)
  | _ => .error (.tooShort field)

/-- The event that is raised after a property changes. -/
def eventOf (property : String) : String := property ++ eventSuffix

/-- Words that are no identifier even when they are raw. -/
def neverIdentifiers : List String := ["", "_", "self", "Self", "super", "crate"]

/-- The name of a method for a property or an event: in lower case with underscores, and raw when
that is a keyword. -/
def methodName? (name : String) : Option Token :=
  let snake := String.ofList (Text.snakeCase name.toList)
  if isIdentifier snake then some (.ident false snake .start)
  else if neverIdentifiers.contains snake then none
  else if isIdentifier ("r#" ++ snake) then some (.ident true snake .start)
  else none

end Property

end Observable
