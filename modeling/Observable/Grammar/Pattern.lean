import Observable.Grammar.Type
/-! Patterns. -/
namespace Observable.Grammar

def plainPattern (parts : List Tree) : Tree := .node (.pattern .other) parts

/-- What can begin a pattern, in the order in which a message names it. -/
def patternStarts : List Expectation :=
  [.identifier, .spelled "::", .spelled "<", .spelled "_", .literal, .spelled "const",
   .spelled "ref", .spelled "mut", .spelled "&", .parentheses, .squareBrackets, .spelled "..",
   .spelled "const"]

/-- What can end a range, in the order in which a message names it. -/
def rangeEnds : List Expectation :=
  [.literal, .identifier, .spelled "::", .spelled "<", .spelled "self", .spelled "Self",
   .spelled "super", .spelled "crate", .spelled "const"]

/-- Whether something stands ahead that cannot belong to the end of a range pattern. -/
def rangePatternEnds (ts : List Token) : Bool :=
  atEnd ts || Look.op "|" ts || Look.op "=" ts || (Look.op ":" ts && !Look.op "::" ts)
    || Look.op "," ts || Look.op ";" ts || Look.word "if" ts

def constBlock (rules : Rules) : Parser Tree := do
  return .node (.expression .constBlock) [← word "const", ← bodyWithAttributes rules]

/-- Reads a path that stands for a value. -/
def pathExpression (rules : Rules) : Parser Tree := do
  let (self, path) ← qualifiedPath rules true
  return .node (.expression .path) (qualified self path)

def rangeBound (rules : Rules) : Parser Tree := do
  if ← looking Look.literal then return .node (.expression .literal) [← literal]
  else if ← looking pathAhead then pathExpression rules
  else if ← looking (Look.word "const") then constBlock rules
  else expecting rangeEnds

/-- Reads the end of a range pattern, which may be absent. -/
def rangePatternEnd (rules : Rules) : Parser Tree := do
  if ← looking rangePatternEnds then return .absent else rangeBound rules

/-- Reads the operator of a range and tells whether it needs an end. -/
def rangeOperator : Parser (Tree × Bool) := do
  if ← looking (Look.op "..=") then return (← op "..=", true)
  else if ← looking (Look.op "...") then expecting [.spelled "..="]
  else if ← looking (Look.op "..") then return (← op "..", false)
  else expecting [.spelled "..", .spelled "..="]

/-- Reads the operator of a range pattern, which may be spelled `...`, and tells whether it needs
an end. -/
def rangePatternOperator : Parser (Tree × Bool) := do
  if ← looking (fun ts => Look.op "..." ts && !Look.op "..=" ts) then
    let place ← nextPlace
    let _ ← op "..."
    return (.ofTokens (Token.operator "..=".toList place), true)
  else rangeOperator

def rangePattern (rules : Rules) (start : Tree) : Parser Tree := do
  let (limits, closed) ← rangePatternOperator
  let stop ← rangePatternEnd rules
  if stop.isPresent then return plainPattern [start, limits, stop]
  else if closed then refuse .noRangeEnd
  else return .node (.pattern .openRange) [start, limits, .absent]

/-- Reads a pattern that begins with a range operator. -/
def rangePatternWithoutStart (rules : Rules) : Parser Tree := do
  let (limits, closed) ← rangeOperator
  let stop ← rangePatternEnd rules
  if stop.isPresent then return .node (.pattern .openRange) [.absent, limits, stop]
  else if closed then refuse .noRangeEnd
  else return .node (.pattern .rest) [limits]

/-- Reads a pattern that begins with a literal or a constant block. -/
def literalPattern (rules : Rules) : Parser Tree := do
  let start ← rangeBound rules
  if ← looking (Look.op "..") then rangePattern rules start else return plainPattern [start]

/-- Whether `|` separates patterns ahead. -/
def alternativeAhead (ts : List Token) : Bool :=
  Look.op "|" ts && !Look.op "||" ts && !Look.op "|=" ts

/-- Reads patterns separated by `|`, which may also begin them. -/
def alternatives (rules : Rules) : Parser Tree := do
  let leading ← op? "|"
  let found ← listed (fun _ => false) alternativeAhead (op "|") rules.pattern
  match found with
  | [(lone, _)] => if leading.isPresent then return plainPattern [leading, lone] else return lone
  | many => return plainPattern (leading :: flat many)

/-- Reads patterns separated by commas up to the end of the group. -/
def patterns (rules : Rules) : Parser (List Tree) := terminated "," (alternatives rules)

/-- Reads a field of a struct pattern; only the source of one with `box` is kept. -/
def fieldPattern (rules : Rules) : Parser Tree := do
  let ((boxed, parts), source) ← withSource do
    let boxed ← word? "box"
    let ref ← word? "ref"
    let mut_ ← word? "mut"
    let bare := !boxed.isPresent && !ref.isPresent && !mut_.isPresent
    let name ← if bare then member else ident
    if ← looking (fun ts => (bare && Look.op ":" ts) || !name.isNamed) then
      let colon ← op ":"
      return (boxed, [name, colon, ← alternatives rules])
    else return (boxed, [ref, mut_, name])
  return .sequence (if boxed.isPresent then source.map .token else parts)

def fieldPatterns (rules : Rules) : Parser (List Tree) := do
  let found ← iterate (fun found => do
    if ← looking atEnd then return (found, false)
    let attributes ← outerAttributes rules
    if ← looking (Look.op "..") then
      return (.sequence (attributes ++ [← op ".."]) :: found, false)
    let field ← fieldPattern rules
    if ← looking atEnd then return (.sequence (attributes ++ [field]) :: found, false)
    return (.sequence (attributes ++ [field, ← op ","]) :: found, true)) []
  return found.reverse

/-- Reads a pattern that begins with a path. -/
def patternWithPath (rules : Rules) : Parser Tree := do
  let (self, path) ← qualifiedPath rules true
  match ← macroCall? self path with
  | some parts => return plainPattern parts
  | none =>
    let name := qualified self path
    if ← looking Look.brace then return plainPattern (name ++ [← braces (fieldPatterns rules)])
    else if ← looking Look.paren then return plainPattern (name ++ [← parens (patterns rules)])
    else if ← looking (Look.op "..") then
      rangePattern rules (.node (.expression .path) name)
    else return plainPattern [.node (.expression .path) name]

def namePattern (rules : Rules) : Parser Tree := do
  let ref ← word? "ref"
  let mut_ ← word? "mut"
  let name ← if ← looking (Look.word "self") then anyWord else ident
  let inner ← if ← looking (Look.op "@") then
    pure [← op "@", ← rules.pattern]
  else pure []
  return plainPattern ([ref, mut_, name] ++ inner)

/-- Where the operator of an open range pattern stands. -/
def openRangePlace? : Tree → Option Position
  | .node (.pattern .openRange) [_, limits, _] => limits.tokens.head?.map Token.place
  | _ => none

def slicePattern (rules : Rules) : Parser Tree := do
  let found ← alternatives rules
  match openRangePlace? found with
  | some place => refuseAt place .openRangeInSlice
  | none => return found

/-- Whether a path with something after it begins a pattern. -/
def pathPatternAhead (ts : List Token) : Bool :=
  let followed := Look.second fun rest =>
    Look.op "::" rest || Look.op "!" rest || Look.brace rest || Look.paren rest
      || Look.op ".." rest
  (Look.ident ts && followed ts) || (Look.word "self" ts && Look.second (Look.op "::") ts)
    || Look.op "::" ts || Look.op "<" ts || Look.anyOf ["Self", "super", "crate"] ts

def patternTree (rules : Rules) : Parser Tree := do
  if ← looking pathPatternAhead then patternWithPath rules
  else if ← looking (Look.word "_") then return plainPattern [← anyWord]
  else if ← looking (Look.word "box") then
    let (_, source) ← withSource do
      let _ ← word "box"
      rules.pattern
    return .node (.pattern .verbatim) (source.map .token)
  else if ← looking fun ts => Look.op "-" ts || Look.literal ts || Look.word "const" ts then
    literalPattern rules
  else if ← looking fun ts => Look.anyOf ["ref", "mut", "self"] ts || Look.ident ts then
    namePattern rules
  else if ← looking (Look.op "&") then
    let and ← op "&"
    let mut_ ← word? "mut"
    return plainPattern [and, mut_, ← rules.pattern]
  else if ← looking Look.paren then return plainPattern [← parens (patterns rules)]
  else if ← looking Look.bracket then
    return plainPattern [← brackets (terminated "," (slicePattern rules))]
  else if ← looking fun ts => Look.op ".." ts && !Look.op "..." ts then
    rangePatternWithoutStart rules
  else if ← looking (Look.op "..") then
    expecting (patternStarts.filter (· ≠ .spelled ".."))
  else expecting patternStarts

end Observable.Grammar
