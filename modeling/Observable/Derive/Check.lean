import Observable.Field.Declaration
import Observable.Output.Quote
import Observable.Token.Spaced
/-! The check of a type whose fields carry markers. It adds nothing to the type; it only refuses
markers whose arguments cannot be used. -/
namespace Observable

namespace Grammar

/-- Reads one more word of a path, when colons follow the words before, and tells whether it did. -/
def nextWord (found : List Tree) : Parser (List Tree × Bool) := do
  if ← looking (Look.op "::") then
    let colons ← op "::"
    return (.node .segment [← anyWord, .absent] :: colons :: found, true)
  else return (found, false)

/-- Reads the path of an argument; keywords may be words of it. -/
def argumentPath : Parser Tree := do
  let leading ← op? "::"
  if ← looking Look.anyWord then
    let first ← anyWord
    let more ← iterate nextWord []
    return .node .path (leading :: .node .segment [first, .absent] :: more.reverse)
  else if ← looking atEnd then refuse .noNestedAttribute
  else if ← looking Look.literal then refuse .literalInAttribute
  else refuse .tokenInAttribute

/-- Reads arguments separated by commas, each with its path in front; there may be none. -/
def nestedArguments (argument : Tree → Parser Tree) : Parser (List Tree) := do
  if ← looking atEnd then return []
  else terminated "," do argument (← argumentPath)

/-- The place of the first word of a path. -/
def Tree.pathPlace (path : Tree) : Position :=
  match path.pathSegments with
  | first :: _ => (first.tokens.head?.map Token.place).getD .start
  | [] => .start

def Tree.pathIs (path : Tree) (word : String) : Bool :=
  !path.pathIsGlobal && path.pathIsPlain && path.pathWords = [word]

def Tree.stringValue (tree : Tree) : List Char :=
  match Look.literalForm? tree.tokens with
  | some (.string value) => value
  | _ => []

end Grammar

namespace Derive

open Grammar

/-- A type that the check refuses has no named fields. -/
def namedFieldsOnly : Complaint :=
  .custom "Reactive can only be derived for structs with named fields"

/-- Reads the value of an argument: a name that is not empty. -/
def argument (path : Tree) : Parser Tree := do
  if path.pathIs Marker.nameArgument then
    let equals ← op "="
    let value ← string
    if value.stringValue.isEmpty then
      refuseAt path.pathPlace (.custom "property_name cannot be empty")
    else return .sequence [path, equals, value]
  else refuseAt path.pathPlace (.custom "unknown ReactiveProperty argument")

/-- What is wrong with a marker that gives its arguments after `=`. -/
def withoutParentheses (path equals : Tree) : SyntaxError :=
  { place := (equals.tokens.head?.map Token.place).getD .start
    complaint := .custom
      ("expected parentheses: #[" ++ "::".intercalate path.pathWords ++ "(...)]") }

/-- What is wrong with an attribute, if it is a marker with something wrong. -/
def checkAttribute (attr : Tree) : Option SyntaxError :=
  match attr.attributeMeta? with
  | some (.node (.metaItem form) (path :: rest)) =>
    if !path.pathIs Marker.name then none
    else
      match form, rest with
      | .list, [.token (.group _ body _ close)] =>
        match readUpTo body close fun _ => nestedArguments argument with
        | .ok _ => none
        | .error e => some e
      | .nameValue, rest => some (withoutParentheses path (rest.headD .absent))
      | _, _ => none
  | _ => none

/-- Where the fields of a struct without named fields stand. -/
def fieldsPlace (item : Tree) : Position :=
  match item with
  | .node _ parts =>
    (parts.findSome? fun
      | .node .tupleFields [.group _ place _ _] => some place
      | _ => none).getD .start
  | _ => .start

def hasNamedFields : Tree → Bool
  | .node (.item .struct) parts => parts.any fun
    | .node .namedFields _ => true
    | _ => false
  | _ => false

/-- What is wrong with a type: that it has no named fields, or every marker with something
wrong. -/
def checkType (item : Tree) : List SyntaxError :=
  if hasNamedFields item then
    (item.fields.flatMap Tree.attributes).filterMap checkAttribute
  else
    match item with
    | .node (.item .struct) _ => [{ place := fieldsPlace item, complaint := namedFieldsOnly }]
    | _ =>
      [{ place := (item.name?.map Token.place).getD .start, complaint := namedFieldsOnly }]

/-- What is wrong with some tokens that should be a type. -/
def check (tokens : List Token) : List SyntaxError :=
  match readAll tokens deriveInput with
  | .ok item => checkType item
  | .error e => [e]

/-- A call that makes a compiler show a message. -/
def refusal (e : SyntaxError) : List Token :=
  Quote.libraryPath ["core", "compile_error"] ++ Quote.op "!"
    ++ [Quote.braces [Quote.text e.message]]

/-- What some tokens that should be a type expand to: a refusal for everything that is wrong. -/
def expand (tokens : List Token) : List Token := (check tokens).flatMap refusal

end Derive

end Observable
