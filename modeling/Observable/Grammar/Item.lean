import Observable.Grammar.Member
/-! Items. -/
namespace Observable.Grammar

def itemOf (form : ItemForm) (parts : List Tree) : Tree := .node (.item form) parts

/-- Reads a body of members that attributes may open. -/
def memberBody (rules : Rules) (item : Parser Tree) : Parser Tree := braces do
  let attributes ← innerAttributes rules
  return attributes ++ (← allItems item)

/-- Reads a function; one without a body is kept as its source. -/
def functionItem (rules : Rules) (vis : Tree) : Parser (Option Tree) := do
  let parts ← signature rules
  if ← looking (Look.op ";") then
    let _ ← op ";"
    return none
  else return some (itemOf .function (vis :: parts ++ [← functionBody rules]))

def externCrate (vis : Tree) : Parser Tree := do
  let extern_ ← word "extern"
  let crate ← word "crate"
  let name ← if ← looking (Look.word "self") then anyWord else ident
  if ← looking (Look.word "as") then
    let as_ ← word "as"
    let rename ← if ← looking (Look.word "_") then anyWord else ident
    return itemOf .externCrate [vis, extern_, crate, name, as_, .node .name [rename], ← op ";"]
  else return itemOf .externCrate [vis, extern_, crate, .node .name [name], ← op ";"]

/-- Reads a foreign module, which has no visibility. -/
def foreignModule (rules : Rules) (vis : Tree) : Parser Tree := do
  match vis.tokens with
  | pub :: _ => refuseAt pub.place (.expected [.spelled "extern"])
  | [] => pure ()
  let unsafe_ ← word? "unsafe"
  let extern_ ← word "extern"
  let abi ← optionally Look.string string
  return itemOf .foreignMod [unsafe_, extern_, abi, ← memberBody rules (foreignMember rules)]

/-- Reads an item that `extern` begins and that is not a function. -/
def externItem (rules : Rules) (vis : Tree) : Parser Tree := do
  let next ← ahead do
    let _ ← word "extern"
    fun s => .ok (s.rest, s)
  if Look.word "crate" next then externCrate vis
  else if Look.brace next then foreignModule rules vis
  else if Look.string next then
    if Look.brace (next.drop 1) then foreignModule rules vis
    else
      let _ ← word "extern"
      let _ ← string
      expecting [.curlyBraces]
  else
    let _ ← word "extern"
    expecting [.spelled "crate", .curlyBraces, .stringLiteral]

/-- Reads an import tree; one with a path from the root inside braces is kept as its source. -/
def useTree (rules : Rules) (rooted : Bool) : Parser (Option Tree) := do
  if ← looking fun ts =>
      Look.ident ts || Look.anyOf ["self", "super", "crate", "try"] ts then
    let name ← anyWord
    if ← looking (Look.op "::") then
      let colons ← op "::"
      return (← rules.useTree false).map fun tree => .node (.useTree .path) [name, colons, tree]
    else if ← looking (Look.word "as") then
      let as_ ← word "as"
      if ← looking nameAhead then
        return some (.node (.useTree .rename) [name, as_, ← anyWord])
      else refuse .noUnderscore
    else return some (.node (.useTree .name) [name])
  else if ← looking (Look.op "*") then return some (.node (.useTree .glob) [← op "*"])
  else if ← looking Look.brace then
    let (found, wrap) ← inside .brace do
      iterate (fun (found : Option (List Tree)) => do
        if ← looking atEnd then return (found, false)
        else
          let root ← looking fun ts => rooted && Look.op "::" ts
          if root then pass 2
          let tree ← rules.useTree (rooted && !root)
          let comma ← if ← looking atEnd then pure .absent else op ","
          let found := match found, tree with
            | some found, some tree => if root then none else some (comma :: tree :: found)
            | _, _ => none
          return (found, comma.isPresent)) (some [])
    return found.map fun found => .node (.useTree .group) [wrap found.reverse]
  else expecting [.identifier, .spelled "self", .spelled "super", .spelled "crate",
    .spelled "try", .spelled "*", .curlyBraces]

def useItem (rules : Rules) (vis : Tree) : Parser (Option Tree) := do
  let use ← word "use"
  let leading ← op? "::"
  let tree ← rules.useTree (!leading.isPresent)
  let semicolon ← op ";"
  return tree.map fun tree => itemOf .use [vis, use, leading, tree, semicolon]

/-- Reads a static; one without a type or a value is kept as its source. -/
def staticItem (rules : Rules) (vis : Tree) : Parser (Option Tree) := do
  let keyword ← word "static"
  let mut_ ← word? "mut"
  let name ← ident
  if ← looking (Look.op "=") then
    let _ ← op "="
    let _ ← rules.expression true
    let _ ← op ";"
    return none
  else
    let colon ← op ":"
    let type ← rules.type true
    if ← looking (Look.op ";") then
      let _ ← op ";"
      return none
    else
      let equals ← op "="
      let value ← rules.expression true
      return some (itemOf .static [vis, keyword, mut_, .node .name [name], colon, type, equals,
        value, ← op ";"])

/-- Reads a constant; one without a value or with generics is kept as its source. -/
def constItem (rules : Rules) (vis : Tree) : Parser (Option Tree) := do
  let keyword ← word "const"
  if ← looking nameAhead then
    let name ← anyWord
    let (rest, defined, generic) ← constRest rules
    if !defined || generic then return none
    else return some (itemOf .const ([vis, keyword, .node .name [name]] ++ rest))
  else expecting [.identifier, .spelled "_"]

def moduleItem (rules : Rules) (vis : Tree) : Parser Tree := do
  let unsafe_ ← word? "unsafe"
  let keyword ← word "mod"
  let name ← if ← looking (Look.word "try") then anyWord else ident
  let front := [vis, unsafe_, keyword, .node .name [name]]
  if ← looking (Look.op ";") then return itemOf .module (front ++ [← op ";"])
  else if ← looking Look.brace then
    return itemOf .module (front ++ [← memberBody rules rules.item])
  else expecting [.spelled ";", .curlyBraces]

/-- Reads a type alias; one without a type is kept as its source. -/
def aliasItem (rules : Rules) (vis : Tree) : Parser (Option Tree) := do
  let a ← typeAlias rules vis false .beforeEquals
  if a.definition.isEmpty || a.colon.isPresent then return none
  else return some (itemOf .typeAlias (a.front ++ [a.early] ++ a.definition ++ [a.semicolon]))

def traitRest (rules : Rules) (front : List Tree) : Parser Tree := do
  let colon ← op? ":"
  let stop (ts : List Token) := Look.word "where" ts || Look.brace ts
  let bounds ← if colon.isPresent then
    pure (flat (← listed stop (fun ts => !stop ts) (op "+") (bound rules false true)))
  else pure []
  let conditions ← whereClause rules
  let body ← memberBody rules (traitMember rules)
  return itemOf .trait (front ++ [colonAndBounds colon bounds, conditions, body])

def markedTrait (rules : Rules) (vis : Tree) : Parser Tree := do
  let unsafe_ ← word? "unsafe"
  let auto ← word? "auto"
  let keyword ← word "trait"
  let name ← ident
  let parameters ← generics rules
  traitRest rules [vis, unsafe_, auto, keyword, .node .name [name], parameters]

/-- Reads a trait or an alias of traits. -/
def traitItem (rules : Rules) (vis : Tree) : Parser Tree := do
  let keyword ← word "trait"
  let name ← ident
  let parameters ← generics rules
  let front := [vis, keyword, .node .name [name], parameters]
  if ← looking fun ts => Look.brace ts || Look.op ":" ts || Look.word "where" ts then
    traitRest rules front
  else if ← looking (Look.op "=") then
    let equals ← op "="
    let stop (ts : List Token) := Look.word "where" ts || Look.op ";" ts
    let bounds ← listed stop (fun ts => !stop ts) (op "+") (bound rules false false)
    let conditions ← whereClause rules
    return itemOf .traitAlias (front ++ [equals] ++ flat bounds ++ [conditions, ← op ";"])
  else expecting [.curlyBraces, .spelled ":", .spelled "where", .spelled "="]

/-- Reads an implementation; one with a visibility, of a constant kind, or of what is no trait is
kept as its source. -/
def implItem (rules : Rules) (vis : Tree) : Parser (Option Tree) := do
  let default ← word? "default"
  let unsafe_ ← word? "unsafe"
  let impl ← word "impl"
  let parameters ← if ← looking parametersAhead then generics rules
    else pure (.node .generics [])
  let constant ← looking fun ts =>
    Look.word "const" ts || (Look.op "?" ts && Look.second (Look.word "const") ts)
  if constant then
    let _ ← op? "?"
    let _ ← word "const"
  let ((negative, first), source) ← withSource do
    let negative ← if ← looking (fun ts => Look.op "!" ts && !Look.second Look.brace ts) then op "!"
                   else pure .absent
    return (negative, ← rules.type true)
  let isTrait ← looking (Look.word "for")
  let self ← if isTrait then
    pure [negative, first, ← word "for", ← rules.type true]
  else pure [if negative.isPresent then sourceType source else first]
  let conditions ← whereClause rules
  let body ← memberBody rules (implMember rules)
  if !vis.isInherited || constant || (isTrait && first.typeForm ≠ .path) then return none
  else return some (itemOf .implementation
    ([default, unsafe_, impl, parameters] ++ self ++ [conditions, body]))

/-- Reads the definition of a macro by the keyword `macro`. -/
def macroDefinition : Parser (Option Tree) := do
  let _ ← word "macro"
  let _ ← ident
  let inputs ← looking Look.paren
  if inputs then
    let _ ← parens everything
  if ← looking Look.brace then
    let _ ← braces everything
    return none
  else expecting (if inputs then [.curlyBraces] else [.parentheses, .curlyBraces])

/-- Reads a macro call that is an item. -/
def macroItem : Parser Tree := do
  let path ← plainPath
  let bang ← op "!"
  let name ← if ← looking (fun ts => Look.word "try" ts || Look.ident ts) then
    pure [.node .name [← anyWord]]
  else pure []
  let body ← anyGroup
  let semicolon ← if body.endsInBraces then pure .absent else op ";"
  return itemOf .macroCall ([path, bang] ++ name ++ [body, semicolon])

/-- What can begin an item, in the order in which a message names it. -/
def itemStarts (vis : Tree) (ts : List Token) : List Expectation :=
  let words := ["fn", "extern", "use", "static", "const", "unsafe", "mod", "type", "struct",
    "enum", "union", "trait", "auto", "impl", "default", "macro"]
  (words.filter fun name => !Look.word name ts).map .spelled
    ++ if vis.isInherited then macroStarts else []

/-- Reads an item that `unsafe` begins and that is not a function. -/
def unsafeItem (rules : Rules) (vis : Tree) : Parser (Option Tree) := do
  let next ← ahead do
    let _ ← word "unsafe"
    fun s => .ok (s.rest, s)
  if Look.word "trait" next || (Look.word "auto" next && Look.second (Look.word "trait") next) then
    return some (← markedTrait rules vis)
  else if Look.word "impl" next then implItem rules vis
  else if Look.word "extern" next then return some (← foreignModule rules vis)
  else if Look.word "mod" next then return some (← moduleItem rules vis)
  else
    let _ ← word "unsafe"
    let words := ["trait", "auto", "impl", "extern", "mod"]
    expecting ((words.filter fun name => !Look.word name next).map .spelled)

/-- Reads an item after its attributes and visibility. -/
def itemRest (rules : Rules) (vis : Tree) : Parser (Option Tree) := do
  if ← looking (signatureAhead false) then functionItem rules vis
  else if ← looking (Look.word "extern") then return some (← externItem rules vis)
  else if ← looking (Look.word "use") then useItem rules vis
  else if ← looking (Look.word "static") then staticItem rules vis
  else if ← looking (Look.word "const") then constItem rules vis
  else if ← looking (Look.word "unsafe") then unsafeItem rules vis
  else if ← looking (Look.word "mod") then return some (← moduleItem rules vis)
  else if ← looking (Look.word "type") then aliasItem rules vis
  else if ← looking (Look.word "struct") then return some (← structItem rules vis)
  else if ← looking (Look.word "enum") then return some (← enumItem rules vis)
  else if ← looking (fun ts => Look.word "union" ts && Look.second Look.ident ts) then
    return some (← unionItem rules vis)
  else if ← looking (Look.word "trait") then return some (← traitItem rules vis)
  else if ← looking (fun ts => Look.word "auto" ts && Look.second (Look.word "trait") ts) then
    return some (← markedTrait rules vis)
  else if ← looking (fun ts => Look.word "impl" ts || defaultAhead ts) then implItem rules vis
  else if ← looking (Look.word "macro") then macroDefinition
  else if ← looking (fun ts => vis.isInherited && macroPathAhead ts) then return some (← macroItem)
  else fun s => expecting (itemStarts vis s.rest) s

def itemTree (rules : Rules) : Parser Tree := orSource do
  let attributes ← outerAttributes rules
  let item ← itemRest rules (← visibility)
  return item.map (Tree.withAttributes attributes)

end Observable.Grammar
