import Observable.Grammar.Data
/-! Items inside traits, implementations and foreign modules. -/
namespace Observable.Grammar

/-- What nothing but the source is kept of. -/
def sourceItem (source : List Token) : Tree := .node (.item .verbatim) (source.map .token)

/-- Reads something that may turn out to be kept as its source. -/
def orSource (p : Parser (Option Tree)) : Parser Tree := do
  let (found, source) ← withSource p
  return found.getD (sourceItem source)

/-- A member of a trait, an implementation or a foreign module. -/
def memberOf (parts : List Tree) : Tree := .node (.item .member) parts

/-- Reads a macro call that is an item or a member, after its attributes. -/
def macroMember : Parser (List Tree) := do
  let path ← plainPath
  let bang ← op "!"
  let body ← anyGroup
  let semicolon ← if body.endsInBraces then pure .absent else op ";"
  return [path, bang, body, semicolon]

/-- What can begin a macro call that is an item. -/
def macroStarts : List Expectation :=
  [.identifier, .spelled "self", .spelled "super", .spelled "crate", .spelled "::"]

def macroPathAhead (ts : List Token) : Bool :=
  Look.ident ts || Look.anyOf ["self", "super", "crate"] ts || Look.op "::" ts

/-- Where the conditions of a type alias stand. -/
inductive ConditionsPlace where
  | beforeEquals
  | afterEquals
  | both
deriving DecidableEq

/-- A type alias in any of its places. -/
structure Alias where
  front : List Tree
  colon : Tree
  bounds : List Tree
  early : Tree
  definition : List Tree
  late : Tree
  semicolon : Tree

def typeAlias (rules : Rules) (vis : Tree) (defaultable : Bool) (where_ : ConditionsPlace) :
    Parser Alias := do
  let default ← if defaultable then word? "default" else pure .absent
  let keyword ← word "type"
  let name ← ident
  let parameters ← generics rules
  let colon ← op? ":"
  let stop (ts : List Token) := Look.word "where" ts || Look.op "=" ts || Look.op ";" ts
  let bounds ← if colon.isPresent then
    pure (flat (← listed stop (fun ts => !stop ts) (op "+") (bound rules false true)))
  else pure []
  let early ← looking fun ts => where_ ≠ .afterEquals && Look.word "where" ts
  let first ← if early then whereClause rules else pure .absent
  let definition ← if ← looking (Look.op "=") then
    pure [← op "=", ← rules.type true]
  else pure []
  let second ← if where_ ≠ .beforeEquals && !early then whereClause rules else pure .absent
  return { front := [vis, default, keyword, .node .name [name], parameters], colon, bounds,
           early := first, definition, late := second, semicolon := ← op ";" }

/-- Reads a constant after its name, and tells whether it is generic. -/
def constRest (rules : Rules) : Parser (List Tree × Bool × Bool) := do
  let open_ ← looking (Look.op "<")
  let _ ← generics rules
  let colon ← op ":"
  let type ← rules.type true
  let value ← if ← looking (Look.op "=") then
    pure [← op "=", ← rules.expression true]
  else pure []
  let conditional ← looking (Look.word "where")
  let _ ← whereClause rules
  let semicolon ← op ";"
  return ([colon, type] ++ value ++ [semicolon], !value.isEmpty, open_ || conditional)

def functionBody (rules : Rules) : Parser Tree := bodyWithAttributes rules

/-- Reads a function of a trait after its attributes. -/
def traitFunction (rules : Rules) : Parser (List Tree) := do
  let parts ← signature rules
  if ← looking Look.brace then return parts ++ [← functionBody rules]
  else if ← looking (Look.op ";") then return parts ++ [← op ";"]
  else expecting [.curlyBraces, .spelled ";"]

/-- Reads the constant or the constant function of a trait. -/
def traitConst (rules : Rules) : Parser (Option (List Tree)) := do
  if ← looking (Look.second fun ts => Look.ident ts || Look.word "_" ts) then
    let keyword ← word "const"
    let name ← anyWord
    let (rest, _, generic) ← constRest rules
    if generic then return none
    else return some ([keyword, .node .name [name]] ++ rest)
  else if ← looking (Look.second (Look.anyOf ["async", "unsafe", "extern", "fn"])) then
    return some (← traitFunction rules)
  else
    let _ ← word "const"
    expecting [.identifier, .spelled "_", .spelled "async", .spelled "unsafe", .spelled "extern",
      .spelled "fn"]

def traitType (rules : Rules) : Parser (Option (List Tree)) := do
  let a ← typeAlias rules .absent false .afterEquals
  return some (a.front ++ [colonAndBounds a.colon a.bounds] ++ a.definition
    ++ [a.late, a.semicolon])

def traitMember (rules : Rules) : Parser Tree := orSource do
  let attributes ← outerAttributes rules
  let vis ← visibility
  let default ← word? "default"
  let bare := vis.isInherited && !default.isPresent
  let parts ←
    if ← looking (signatureAhead false) then pure (some (← traitFunction rules))
    else if ← looking (Look.word "const") then traitConst rules
    else if ← looking (Look.word "type") then traitType rules
    else if ← looking (fun ts => bare && macroPathAhead ts) then pure (some (← macroMember))
    else expecting ([.spelled "fn", .spelled "const", .spelled "type"]
      ++ if bare then macroStarts else [])
  return if bare then parts.map fun parts => memberOf (attributes ++ parts) else none

/-- Whether `default` stands ahead as a mark. -/
def defaultAhead (ts : List Token) : Bool :=
  Look.word "default" ts && !Look.second (Look.op "!") ts

/-- Reads a function of an implementation; one without a body is kept as its source. -/
def implFunction (rules : Rules) : Parser (Option (List Tree)) := do
  let vis ← visibility
  let default ← word? "default"
  let parts ← signature rules
  if ← looking (Look.op ";") then
    let _ ← op ";"
    return none
  else return some (vis :: default :: parts ++ [← functionBody rules])

def implConst (rules : Rules) : Parser (Option (List Tree)) := do
  let vis ← visibility
  let default ← word? "default"
  let keyword ← word "const"
  if ← looking nameAhead then
    let name ← anyWord
    let (rest, defined, generic) ← constRest rules
    if !defined || generic then return none
    else return some ([vis, default, keyword, .node .name [name]] ++ rest)
  else expecting [.identifier, .spelled "_"]

def implAlias (rules : Rules) : Parser (Option (List Tree)) := do
  let a ← typeAlias rules (← visibility) true .afterEquals
  if a.definition.isEmpty || a.colon.isPresent then return none
  else return some (a.front ++ a.definition ++ [a.late, a.semicolon])

def implMember (rules : Rules) : Parser Tree := orSource do
  let attributes ← outerAttributes rules
  let (vis, marked, rest) ← ahead do
    let vis ← visibility
    let marked ← looking defaultAhead
    if marked then pass 1
    fun s => .ok ((vis, marked, s.rest), s)
  let bare := vis.isInherited && !marked
  let parts ←
    if signatureAhead false rest then implFunction rules
    else if Look.word "const" rest then implConst rules
    else if Look.word "type" rest then implAlias rules
    else if bare && macroPathAhead rest then pure (some (← macroMember))
    else
      let _ ← visibility
      if marked then pass 1
      expecting (expectedMembers bare marked)
  return parts.map fun parts => memberOf (attributes ++ parts)
where
  expectedMembers (bare marked : Bool) : List Expectation :=
    (if marked then [] else [.spelled "default"])
      ++ [.spelled "fn", .spelled "const", .spelled "type"]
      ++ if bare then macroStarts else []

/-- Reads a function of a foreign module; one that is marked `safe` or has a body is kept as its
source. -/
def foreignFunction (rules : Rules) : Parser (Option (List Tree)) := do
  let vis ← visibility
  let (parts, marked) ← signatureWith rules true
  if ← looking Look.brace then
    let _ ← functionBody rules
    return none
  else
    let semicolon ← op ";"
    return if marked then none else some (vis :: parts ++ [semicolon])

/-- Whether a static of a foreign module stands ahead. -/
def foreignStaticAhead (ts : List Token) : Bool :=
  Look.word "static" ts || (Look.anyOf ["unsafe", "safe"] ts && Look.second (Look.word "static") ts)

/-- Reads a static of a foreign module; one with a mark or a value is kept as its source. -/
def foreignStatic (rules : Rules) : Parser (Option (List Tree)) := do
  let vis ← visibility
  let marked ← looking (Look.anyOf ["unsafe", "safe"])
  if marked then pass 1
  let keyword ← word "static"
  let mut_ ← word? "mut"
  let name ← ident
  let colon ← op ":"
  let type ← rules.type true
  let defined ← looking (Look.op "=")
  if defined then
    let _ ← op "="
    let _ ← rules.expression true
  let semicolon ← op ";"
  return if marked || defined then none
    else some [vis, keyword, mut_, .node .name [name], colon, type, semicolon]

def foreignType (rules : Rules) : Parser (Option (List Tree)) := do
  let a ← typeAlias rules (← visibility) false .both
  if a.colon.isPresent || !a.definition.isEmpty then return none
  else return some (a.front ++ [a.early, a.late, a.semicolon])

def foreignMember (rules : Rules) : Parser Tree := orSource do
  let attributes ← outerAttributes rules
  let (vis, rest) ← ahead do
    let vis ← visibility
    fun s => .ok ((vis, s.rest), s)
  let bare := vis.isInherited
  let parts ←
    if signatureAhead true rest then foreignFunction rules
    else if foreignStaticAhead rest then foreignStatic rules
    else if Look.word "type" rest then foreignType rules
    else if bare && macroPathAhead rest then pure (some (← macroMember))
    else
      let _ ← visibility
      expecting ([.spelled "fn", .spelled "static", .spelled "type"]
        ++ if bare then macroStarts else [])
  return parts.map fun parts => memberOf (attributes ++ parts)

end Observable.Grammar
