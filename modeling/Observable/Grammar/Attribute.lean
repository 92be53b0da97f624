import Observable.Grammar.Name
/-! Attributes and their contents. -/
namespace Observable.Grammar

/-- Reads the path in front of an attribute's contents; `unsafe` is one there. -/
def metaPath : Parser Tree := do
  if ← looking (Look.word "unsafe") then
    return .node .path [.absent, .node .segment [← word "unsafe", .absent]]
  else plainPath

/-- Reads the value of an attribute: a literal that ends it, or any expression. -/
def metaValue (rules : Rules) : Parser Tree := do
  let lone ← attempt do
    let value ← literal
    if ← looking atEnd then return value else refuse (.expected [.literal])
  match lone with
  | some value => return .node (.expression .literal) [value]
  | none =>
    if ← looking (fun ts => Look.op "#" ts && Look.second Look.bracket ts) then
      refuse .attributeInAttribute
    else rules.expression true

/-- Whether a delimited group that is not invisible stands ahead. -/
def anyDelimiter (ts : List Token) : Bool := Look.paren ts || Look.bracket ts || Look.brace ts

/-- Reads the contents of an attribute after its path. -/
def metaRest (rules : Rules) (path : Tree) : Parser Tree := do
  if ← looking anyDelimiter then return .node (.metaItem .list) [path, ← anyGroup]
  else if ← looking (Look.op "=") then
    return .node (.metaItem .nameValue) [path, ← op "=", ← metaValue rules]
  else return .node (.metaItem .path) [path]

def metaItem (rules : Rules) : Parser Tree := do metaRest rules (← metaPath)

/-- Reads one attribute that stands before what it is about. -/
def outerAttribute (rules : Rules) : Parser Tree := do
  let pound ← op "#"
  return .node (.attr false) [pound, ← brackets do return [← metaItem rules]]

/-- Reads one attribute that stands inside what it is about. -/
def innerAttribute (rules : Rules) : Parser Tree := do
  let pound ← op "#"
  let bang ← op "!"
  return .node (.attr true) [pound, bang, ← brackets do return [← metaItem rules]]

/-- Reads items as long as a test holds. -/
def whileAhead (look : List Token → Bool) (item : Parser Tree) : Parser (List Tree) := do
  let found ← iterate (fun found => do
    if ← looking look then return ((← item) :: found, true) else return (found, false)) []
  return found.reverse

def outerAttributes (rules : Rules) : Parser (List Tree) :=
  whileAhead (Look.op "#") (outerAttribute rules)

/-- Reads the attributes at the top of something. -/
def innerAttributes (rules : Rules) : Parser (List Tree) :=
  whileAhead (fun ts => Look.op "#" ts && Look.second (Look.op "!") ts) (innerAttribute rules)

/-- Reads the statements of a body that attributes may open. -/
def bodyWithAttributes (rules : Rules) : Parser Tree := do
  let body ← braces do
    let attributes ← innerAttributes rules
    return attributes ++ (← rules.statements)
  return .node .block [body]

def block (rules : Rules) : Parser Tree := do
  return .node .block [← braces rules.statements]

def Tree.attributeMeta? : Tree → Option Tree
  | .node (.attr _) parts => parts.findSome? fun
    | .group .bracket _ _ [m@(.node (.metaItem _) _)] => some m
    | _ => none
  | _ => none

def Tree.attributePath? (attr : Tree) : Option Tree :=
  attr.attributeMeta?.bind fun
    | .node _ (path :: _) => some path
    | _ => none

end Observable.Grammar
