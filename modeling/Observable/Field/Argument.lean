import Observable.Grammar.Source
import Observable.Text.Similarity
/-! The arguments that a marker carries. -/
namespace Observable

namespace Grammar

/-- Reads a path of words, keywords among them. -/
def wordPath : Parser Tree := do
  let leading ← op? "::"
  let found ← iterate (fun found => do
    if ← looking Look.anyWord then
      let segment := Tree.node .segment [← anyWord, .absent]
      if ← looking (Look.op "::") then return ((segment, ← op "::") :: found, true)
      else return ((segment, .absent) :: found, false)
    else return (found, false)) []
  match found with
  | [] => refuse .noPath
  | (_, separator) :: _ =>
    if separator.isPresent then refuse .noWordAfterColons
    else return .node .path (leading :: flat found.reverse)

/-- Whether a literal stands ahead that is not the name of something. -/
def plainLiteralAhead (ts : List Token) : Bool :=
  Look.literal ts && !(Look.anyOf ["true", "false"] ts && Look.second (Look.op "=") ts)

/-- Reads an argument: a literal, or something named. -/
def argumentItem (rules : Rules) : Parser Tree := do
  if ← looking plainLiteralAhead then return .node (.expression .literal) [← literal]
  else if ← looking fun ts =>
      Look.anyWord ts || (Look.op "::" ts && Look.third Look.anyWord ts) then
    metaRest rules (← wordPath)
  else refuse .noIdentifierOrLiteral

/-- Reads the arguments of a marker. They are read without their places, which no refusal of them
tells. -/
def readArguments (tokens : List Token) : Except SyntaxError (List Tree) := do
  let found ← readAll (unplacedTokens tokens) fun rules => upTo atEnd "," (argumentItem rules)
  return found.map (·.1)

/-- The tokens in the group of an item. -/
def Tree.groupTokens : Tree → List Token
  | .token (.group _ body _ _) => body
  | _ => []

end Grammar

open Grammar

/-- Why the arguments of a marker are refused. -/
inductive ArgumentError where
  | unreadable (error : SyntaxError)
  | format (name : String)
  | kind (name : String)
  | duplicate
  | unknown (name : String)
  | inName (error : ArgumentError)
  | several (errors : List ArgumentError)
deriving Repr, Inhabited

namespace Marker

def nameArgument : String := "property_name"

end Marker

namespace ArgumentError

mutual
def message : ArgumentError → String
  | unreadable e => e.message
  | format name => "Unexpected meta-item format `" ++ name ++ "`"
  | kind name => "Unexpected type `" ++ name ++ "`"
  | duplicate => "Duplicate field `" ++ Marker.nameArgument ++ "`"
  | unknown name =>
    "Unknown field: `" ++ name ++ "`. "
      ++ (if Text.Similarity.alike name Marker.nameArgument then "Did you mean `" else
        "Available values: `")
      ++ Marker.nameArgument ++ "`"
      ++ (if Text.Similarity.alike name Marker.nameArgument then "?" else "")
  | inName e => e.message ++ " at " ++ Marker.nameArgument
  | several errors => "Multiple errors: (" ++ messages errors ++ ")"

/-- The wordings of some refusals, separated by commas. -/
def messages : List ArgumentError → String
  | [] => ""
  | [e] => e.message
  | e :: rest => e.message ++ ", " ++ messages rest
end

end ArgumentError

namespace Marker

def formName : ExprForm → String
  | .array => "array"
  | .assign => "assign"
  | .asyncBlock => "async"
  | .await => "await"
  | .binary _ => "binary"
  | .block => "block"
  | .breaking => "break"
  | .call => "call"
  | .cast => "cast"
  | .closure => "closure"
  | .constBlock => "const"
  | .continuing => "continue"
  | .field => "field"
  | .forLoop => "forloop"
  | .ifElse => "if"
  | .index => "index"
  | .infer => "infer"
  | .letCondition => "let"
  | .literal => "lit"
  | .loop => "loop"
  | .macroCall _ => "macro"
  | .matching => "match"
  | .methodCall => "methodcall"
  | .paren => "paren"
  | .path => "path"
  | .range => "range"
  | .rawAddress => "unknown"
  | .reference => "reference"
  | .repetition => "repeat"
  | .returning => "return"
  | .structLiteral => "struct"
  | .trying => "try"
  | .tryBlock => "tryblock"
  | .tuple => "tuple"
  | .unary => "unary"
  | .unsafeBlock => "unsafe"
  | .verbatim => "verbatim"
  | .whileLoop => "while"
  | .yielding => "yield"

def literalName : Literal.Form → String
  | .string _ => "string"
  | .byteString => "byte string"
  | .byte => "byte"
  | .character => "char"
  | .integer .. => "int"
  | .decimal => "float"
  | .terminatedString => "unknown"
  | .other => "verbatim"

def stringOf (value : Tree) : Except ArgumentError String :=
  match value with
  | .node (.expression .literal) parts =>
    let ts := treesTokens parts
    if Look.anyOf ["true", "false"] ts then .error (.kind "bool")
    else
      match Look.literalForm? ts with
      | some (.string text) => .ok (String.ofList text)
      | some form => .error (.kind (literalName form))
      | none => .error (.kind "unknown")
  | _ => .error (.kind (formName value.exprForm))

def argumentValue (form : MetaForm) (rest : List Tree) : Except ArgumentError String :=
  match form, rest with
  | .nameValue, [_, value] => stringOf value
  | .list, [group] =>
    match readArguments group.groupTokens with
    | .ok _ => .error (.format "list")
    | .error e => .error (.unreadable e)
  | _, _ => .error (.format "word")

/-- What each of some arguments gives; a flag tells whether the name was given before. -/
def outcomes : Bool → List Tree → List (Except ArgumentError String)
  | _, [] => []
  | seen, .node (.metaItem form) (path :: rest) :: items =>
    let spelled := "::".intercalate path.pathWords
    if spelled ≠ nameArgument then .error (.unknown spelled) :: outcomes seen items
    else if seen then .error .duplicate :: outcomes true items
    else (argumentValue form rest).mapError .inName :: outcomes true items
  | seen, _ :: items => .error (.format "literal") :: outcomes seen items

def refusals (found : List (Except ArgumentError String)) : List ArgumentError :=
  found.filterMap fun
    | .error e => some e
    | .ok _ => none

/-- The name that some arguments give, if they give one; every refusal is told. -/
def argumentsName (items : List Tree) : Except ArgumentError (Option String) :=
  let found := outcomes false items
  match refusals found with
  | [] => .ok (found.findSome? Except.toOption)
  | [e] => .error e
  | errors => .error (.several errors)

/-- The name that a marker carries, if it carries one. -/
def nameOf (attr : Tree) : Except ArgumentError (Option String) :=
  match attr.attributeMeta? with
  | some (.node (.metaItem .list) [_, group]) =>
    match readArguments group.groupTokens with
    | .ok items => argumentsName items
    | .error e => .error (.unreadable e)
  | some (.node (.metaItem .nameValue) _) => .error (.format "name-value")
  | _ => .ok none

end Marker

end Observable
