import Observable.Grammar.Function
/-! Structs, enums and unions. -/
namespace Observable.Grammar

/-- Whether the fields of an unnamed struct or union stand ahead. -/
def anonymousFieldsAhead (ts : List Token) : Bool :=
  Look.word "struct" ts || (Look.word "union" ts && Look.second Look.brace ts)

/-- Reads the type of a field; only the source of an unnamed struct or union is kept. -/
def fieldType (rules : Rules) (anonymous : Bool) : Parser Tree := do
  if ← looking (fun ts => anonymous && anonymousFieldsAhead ts) then
    let (_, source) ← withSource do
      let _ ← anyWord
      braces (terminated "," rules.namedField)
    return sourceType source
  else rules.type true

def namedField (rules : Rules) : Parser Tree := do
  let attributes ← outerAttributes rules
  let vis ← visibility
  let anonymous ← looking (Look.word "_")
  let name ← if anonymous then anyWord else ident
  let colon ← op ":"
  return .node .field (attributes ++ [vis, .node .name [name], colon, ← fieldType rules anonymous])

def tupleField (rules : Rules) : Parser Tree := do
  let attributes ← outerAttributes rules
  return .node .field (attributes ++ [← visibility, ← rules.type true])

def namedFields (rules : Rules) : Parser Tree := do
  return .node .namedFields [← braces (terminated "," (namedField rules))]

def tupleFields (rules : Rules) : Parser Tree := do
  return .node .tupleFields [← parens (terminated "," (tupleField rules))]

/-- Reads a variant of an enum; a visibility in front of it is left out. -/
def variant (rules : Rules) : Parser Tree := do
  let attributes ← outerAttributes rules
  let _ ← visibility
  let name ← ident
  let fields ← if ← looking Look.brace then namedFields rules
    else if ← looking Look.paren then tupleFields rules
    else pure (.node .unitFields [])
  let value ← if ← looking (Look.op "=") then
    pure [← op "=", ← rules.expression true]
  else pure []
  return .node .variant (attributes ++ [.node .name [name], fields] ++ value)

/-- Reads what follows the generics of a struct. -/
def structBody (rules : Rules) : Parser (List Tree) := do
  if ← looking (Look.word "where") then
    let conditions ← whereClause rules
    if ← looking Look.brace then return [conditions, ← namedFields rules]
    else if ← looking (Look.op ";") then
      return [conditions, .node .unitFields [], ← op ";"]
    else expecting [.curlyBraces, .spelled ";"]
  else if ← looking Look.paren then
    let fields ← tupleFields rules
    if ← looking (Look.word "where") then
      let conditions ← whereClause rules
      if ← looking (Look.op ";") then return [fields, conditions, ← op ";"]
      else expecting [.spelled ";"]
    else if ← looking (Look.op ";") then return [fields, .absent, ← op ";"]
    else expecting [.spelled "where", .spelled ";"]
  else if ← looking Look.brace then return [.absent, ← namedFields rules]
  else if ← looking (Look.op ";") then return [.absent, .node .unitFields [], ← op ";"]
  else expecting [.spelled "where", .parentheses, .curlyBraces, .spelled ";"]

/-- Reads a struct after its attributes and visibility. -/
def structItem (rules : Rules) (vis : Tree) : Parser Tree := do
  let keyword ← word "struct"
  let name ← ident
  let parameters ← generics rules
  let body ← structBody rules
  return .node (.item .struct) ([vis, keyword, .node .name [name], parameters] ++ body)

/-- Reads an enum after its attributes and visibility. -/
def enumItem (rules : Rules) (vis : Tree) : Parser Tree := do
  let keyword ← word "enum"
  let name ← ident
  let parameters ← generics rules
  let conditions ← whereClause rules
  let variants ← braces (terminated "," (variant rules))
  return .node (.item .enumeration)
    [vis, keyword, .node .name [name], parameters, conditions, variants]

/-- Reads a union after its attributes and visibility. -/
def unionItem (rules : Rules) (vis : Tree) : Parser Tree := do
  let keyword ← word "union"
  let name ← ident
  let parameters ← generics rules
  let conditions ← whereClause rules
  return .node (.item .union)
    [vis, keyword, .node .name [name], parameters, conditions, ← namedFields rules]

/-- Reads an item that attributes can be derived for. -/
def deriveInput (rules : Rules) : Parser Tree := do
  let attributes ← outerAttributes rules
  let vis ← visibility
  let item ← if ← looking (Look.word "struct") then structItem rules vis
    else if ← looking (Look.word "enum") then enumItem rules vis
    else if ← looking (Look.word "union") then unionItem rules vis
    else expecting [.spelled "struct", .spelled "enum", .spelled "union"]
  return item.withAttributes attributes

end Observable.Grammar
