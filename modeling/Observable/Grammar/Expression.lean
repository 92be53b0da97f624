import Observable.Grammar.Operator
/-! Expressions. -/
namespace Observable.Grammar

def expressionOf (form : ExprForm) (parts : List Tree) : Tree := .node (.expression form) parts

/-- Splits the number after a point into one index after the other, with the points between them;
a point at its end is left for what follows. -/
def indexChain (place : Position) (base dot : Tree) : List (List Char) →
    Except Complaint (Tree × Tree × Bool)
  | [] => .ok (base, dot, true)
  | part :: parts =>
    if part.isEmpty && parts.isEmpty then .ok (base, dot, false)
    else
      match indexValue (part.head? = some '-') (some (Literal.form part)) with
      | .ok value =>
        let field := expressionOf .field [base, dot, indexToken value place]
        indexChain place field (.ofTokens (Token.operator ['.'] place)) parts
      | .error c => .error c

/-- Reads a number with points after a point, as indices; tells whether the last point is used. -/
def indices (base dot : Tree) : Parser (Tree × Tree × Bool) := do
  let place ← nextPlace
  let number ← literal
  let text := number.tokens.foldr (fun t text => match t with
    | .literal digits _ => digits.toList ++ text
    | .punct c _ _ => c :: text
    | _ => text) []
  match indexChain place base dot (text.splitOn '.') with
  | .ok found => return found
  | .error c => refuseAt place c

/-- Whether a number with a point or an exponent stands ahead. -/
def decimalAhead (ts : List Token) : Bool :=
  match Look.literalForm? ts with
  | some .decimal => true
  | _ => false

def arguments (rules : Rules) : Parser Tree := parens (terminated "," (rules.expression true))

/-- Reads what follows a point: a field, a method call or a wait. -/
def afterPoint (rules : Rules) (base dot : Tree) : Parser Tree := do
  if ← looking (Look.word "await") then return expressionOf .await [base, dot, ← anyWord]
  else
    let name ← member
    let turbofish ← if ← looking (fun ts => name.isNamed && Look.op "::" ts) then
      angleArguments rules
    else pure .absent
    if turbofish.isPresent || (← looking fun ts => name.isNamed && Look.paren ts) then
      return expressionOf .methodCall [base, dot, name, turbofish, ← arguments rules]
    else return expressionOf .field [base, dot, name]

def Tree.isRange (e : Tree) : Bool := e.exprForm = .range

/-- Reads a call, a field, an index or a question mark after an operand, and tells whether there
was one. -/
def trailer (rules : Rules) (e : Tree) : Parser (Tree × Bool) := do
  if ← looking Look.paren then return (expressionOf .call [e, ← arguments rules], true)
  else if ← looking (fun ts => Look.op "." ts && !Look.op ".." ts && !e.isRange) then
    let dot ← op "."
    if ← looking decimalAhead then
      let (e, dot, complete) ← indices e dot
      if complete then return (e, true) else return (← afterPoint rules e dot, true)
    else return (← afterPoint rules e dot, true)
  else if ← looking Look.bracket then
    let inner ← brackets do return [← rules.expression true]
    return (expressionOf .index [e, inner], true)
  else if ← looking (fun ts => Look.op "?" ts && !e.isRange) then
    return (expressionOf .trying [e, ← op "?"], true)
  else return (e, false)

/-- Reads what follows an operand. -/
def trailers (rules : Rules) : Tree → Parser Tree := iterate (trailer rules)

/-- Reads the right side of a binary operator. -/
def rightSide (rules : Rules) (struct : Bool) (precedence : Precedence) : Parser Tree := do
  let first ← rules.unary struct
  iterate (fun e => do
    let next ← fun (s : Input) => .ok (precedenceAhead s.rest, s)
    if precedence.rank < next.rank || (next = precedence && precedence = .assign) then
      let before ← fun (s : Input) => .ok (s.rest.length, s)
      let longer ← rules.climb struct e next
      return (longer, ← looking fun ts => ts.length < before)
    else return (e, false)) first

/-- Reads the end of a range, which may be absent. -/
def rangeEnd (rules : Rules) (struct closed : Bool) : Parser Tree := do
  if ← looking (fun ts => !closed && rangeEndsAhead struct ts) then return .absent
  else rightSide rules struct .range

def checkCast : Parser Unit := fun s =>
  match afterCast? s.rest with
  | some what => refuse (.castFollowedBy what) s
  | none => .ok ((), s)

/-- Reads an operator after an operand with its right side, if it binds at least as tightly as a
precedence, and tells whether there was one. -/
def operation (rules : Rules) (struct : Bool) (base : Precedence) (left : Tree) :
    Parser (Tree × Bool) := do
  if left.isRange then return (left, false)
  match ← fun (s : Input) => .ok (binaryOperator? s.rest, s) with
  | some (text, precedence) =>
    if precedence.rank < base.rank then return (left, false)
    else if precedence = .compare && left.exprForm = .binary .compare then
      refuse .chainedComparison
    else
      let operator ← op text
      let right ← rightSide rules struct precedence
      return (expressionOf (.binary precedence) [left, operator, right], true)
  | none =>
    if ← looking (fun ts => base.rank ≤ Precedence.assign.rank && assignmentAhead ts) then
      let equals ← op "="
      return (expressionOf .assign [left, equals, ← rightSide rules struct .assign], true)
    else if ← looking (fun ts => base.rank ≤ Precedence.range.rank && Look.op ".." ts) then
      let (limits, closed) ← rangeOperator
      return (expressionOf .range [left, limits, ← rangeEnd rules struct closed], true)
    else if ← looking (Look.word "as") then
      let as_ ← word "as"
      let type ← rules.type false
      checkCast
      return (expressionOf .cast [left, as_, type], true)
    else return (left, false)

/-- Reads the operators after an operand that bind at least as tightly as a precedence. -/
def climb (rules : Rules) (struct : Bool) (left : Tree) (base : Precedence) : Parser Tree :=
  iterate (operation rules struct base) left

/-- Reads an expression; a flag tells whether a struct literal may stand in it. -/
def expressionTree (rules : Rules) (struct : Bool) : Parser Tree := do
  rules.climb struct (← rules.unary struct) .jump

/-- Reads the value of a field in a struct literal. -/
def fieldValue (rules : Rules) : Parser Tree := do
  let attributes ← outerAttributes rules
  let name ← member
  if ← looking (fun ts => Look.op ":" ts || !name.isNamed) then
    let colon ← op ":"
    return .sequence (attributes ++ [name, colon, ← rules.expression true])
  else return .sequence (attributes ++ [name])

def fieldValues (rules : Rules) : Parser (List Tree) := do
  let found ← iterate (fun found => do
    if ← looking atEnd then return (found, false)
    else if ← looking (Look.op "..") then
      let dots ← op ".."
      if ← looking atEnd then return (dots :: found, false)
      else return (.sequence [dots, ← rules.expression true] :: found, false)
    else
      let field ← fieldValue rules
      if ← looking atEnd then return (field :: found, false)
      else return (.sequence [field, ← op ","] :: found, true)) []
  return found.reverse

/-- Reads an expression that begins with a path. -/
def expressionWithPath (rules : Rules) (struct : Bool) : Parser Tree := do
  let (self, path) ← qualifiedPath rules true
  match ← macroCall? self path with
  | some parts => return expressionOf (.macroCall ((Tree.sequence parts).endsInBraces)) parts
  | none =>
    if ← looking (fun ts => struct && Look.brace ts) then
      return expressionOf .structLiteral (qualified self path ++ [← braces (fieldValues rules)])
    else return expressionOf .path (qualified self path)

/-- Reads what parentheses hold, and tells whether it is one expression. -/
def parenthesizedExpression (rules : Rules) : Parser (Bool × List Tree) := do
  if ← looking atEnd then return (false, [])
  else
    let first ← rules.expression true
    if ← looking atEnd then return (true, [first])
    else
      let comma ← op ","
      return (false, first :: comma :: (← terminated "," (rules.expression true)))

/-- Reads what brackets hold, and tells whether it is repeated. -/
def bracketedExpression (rules : Rules) : Parser (Bool × List Tree) := do
  if ← looking atEnd then return (false, [])
  else
    let first ← rules.expression true
    if ← looking atEnd then return (false, [first])
    else if ← looking (Look.op ",") then
      let comma ← op ","
      return (false, first :: comma :: (← terminated "," (rules.expression true)))
    else if ← looking (Look.op ";") then
      let semicolon ← op ";"
      return (true, [first, semicolon, ← rules.expression true])
    else refuse .noCommaOrSemicolon

/-- Reads an input of a closure; one of which only the source is kept has no attributes. -/
def closureInput (rules : Rules) : Parser Tree := do
  let attributes ← outerAttributes rules
  let pattern ← rules.pattern
  if ← looking (Look.op ":") then
    let colon ← op ":"
    return .sequence (attributes ++ [pattern, colon, ← rules.type true])
  else
    match pattern with
    | .node (.pattern .verbatim) _ => return pattern
    | _ => return .sequence (attributes ++ [pattern])

def closure (rules : Rules) (struct : Bool) : Parser Tree := do
  let lifetimes ← binder rules
  let const ← word? "const"
  let static ← word? "static"
  let async ← word? "async"
  let move ← word? "move"
  let bar ← op "|"
  let inputs ← upTo (Look.op "|") "," (closureInput rules)
  let bar' ← op "|"
  let front := [lifetimes, const, static, async, move, bar] ++ flat inputs ++ [bar']
  if ← looking (Look.op "->") then
    let arrow ← op "->"
    let type ← rules.type true
    return expressionOf .closure (front ++ [arrow, type, ← block rules])
  else return expressionOf .closure (front ++ [← rules.expression struct])

/-- Reads a value that may follow a jump. -/
def jumpValue (rules : Rules) (struct : Bool) : Parser Tree := do
  if ← looking (fun ts => expressionAhead ts && (struct || !Look.brace ts)) then
    rules.expression true
  else return .absent

def breakExpression (rules : Rules) (struct : Bool) : Parser Tree := do
  let break_ ← word "break"
  let place ← nextPlace
  if ← looking (fun ts => Look.lifetime ts && Look.second (Look.op ":") ts) then
    let _ ← rules.expression true
    refuseAt place .labelNeedsParentheses
  else
    let name ← optionally Look.lifetime lifetime
    return expressionOf .breaking [break_, name, ← jumpValue rules struct]

/-- Reads one `if` with its block, and `else` when that follows. -/
def ifClause (rules : Rules) : Parser (List Tree) := do
  let if_ ← word "if"
  let condition ← rules.expression false
  return [if_, condition, ← block rules, ← word? "else"]

def ifExpression (rules : Rules) : Parser Tree := do
  let parts ← iterate (fun found => do
    let clause ← ifClause rules
    if (clause.getLast?.any Tree.isPresent) then
      if ← looking (Look.word "if") then return (found ++ clause, true)
      else if ← looking Look.brace then return (found ++ clause ++ [← block rules], false)
      else expecting [.spelled "if", .curlyBraces]
    else return (found ++ clause, false)) []
  return expressionOf .ifElse parts

/-- Reads a `while` loop. -/
def whileLoop (rules : Rules) (name : Tree) : Parser Tree := do
  let while_ ← word "while"
  let condition ← rules.expression false
  return expressionOf .whileLoop [name, while_, condition, ← bodyWithAttributes rules]

/-- Reads a `for` loop. -/
def forLoop (rules : Rules) (name : Tree) : Parser Tree := do
  let for_ ← word "for"
  let pattern ← alternatives rules
  let in_ ← word "in"
  let range ← rules.expression false
  return expressionOf .forLoop [name, for_, pattern, in_, range, ← bodyWithAttributes rules]

def endlessLoop (rules : Rules) (name : Tree) : Parser Tree := do
  return expressionOf .loop [name, ← word "loop", ← bodyWithAttributes rules]

/-- Reads a loop or a block behind a label. -/
def labeled (rules : Rules) : Parser Tree := do
  let name ← label
  if ← looking (Look.word "while") then whileLoop rules name
  else if ← looking (Look.word "for") then forLoop rules name
  else if ← looking (Look.word "loop") then endlessLoop rules name
  else if ← looking Look.brace then
    return expressionOf .block [name, ← bodyWithAttributes rules]
  else refuse .noLoop

/-- Reads an arm of a `match`. -/
def arm (rules : Rules) : Parser Tree := do
  let attributes ← outerAttributes rules
  let pattern ← alternatives rules
  let guard ← if ← looking (Look.word "if") then
    pure [← word "if", ← rules.expression true]
  else pure []
  let arrow ← op "=>"
  let body ← rules.early
  let comma ← if ← looking (fun ts => !body.endsItself && !atEnd ts) then op "," else op? ","
  return .sequence (attributes ++ [pattern] ++ guard ++ [arrow, body, comma])

/-- Reads a `match`. -/
def matchExpression (rules : Rules) : Parser Tree := do
  let match_ ← word "match"
  let value ← rules.expression false
  let arms ← braces do
    let attributes ← innerAttributes rules
    return attributes ++ (← allItems (arm rules))
  return expressionOf .matching [match_, value, arms]

/-- Reads a jump with a value that may follow it. -/
def jump (rules : Rules) (name : String) (form : ExprForm) : Parser Tree := do
  return expressionOf form [← word name, ← jumpValue rules true]

/-- Reads something of which only the source is kept. -/
def sourceExpression {α : Type} (p : Parser α) : Parser Tree := do
  let (_, source) ← withSource p
  return expressionOf .verbatim (source.map .token)

def builtin : Parser Unit := do
  let _ ← word "builtin"
  let _ ← op "#"
  let _ ← ident
  let _ ← parens everything

/-- Whether a block that can fail stands ahead. -/
def tryBlockAhead (ts : List Token) : Bool := Look.word "try" ts && Look.second Look.brace ts

def keywordOperand (rules : Rules) (struct : Bool) : Parser Tree := do
  if ← looking (Look.word "break") then breakExpression rules struct
  else if ← looking (Look.word "continue") then
    return expressionOf .continuing [← word "continue", ← optionally Look.lifetime lifetime]
  else if ← looking (Look.word "return") then jump rules "return" .returning
  else if ← looking (Look.word "become") then
    sourceExpression do
      let _ ← word "become"
      rules.expression true
  else if ← looking Look.bracket then
    let ((repeated, parts), wrap) ← inside .bracket (bracketedExpression rules)
    return expressionOf (if repeated then .repetition else .array) [wrap parts]
  else if ← looking (Look.word "let") then
    let let_ ← word "let"
    let pattern ← alternatives rules
    let equals ← op "="
    let value ← rules.climb struct (← rules.unary struct) .compare
    return expressionOf .letCondition [let_, pattern, equals, value]
  else if ← looking (Look.word "if") then ifExpression rules
  else if ← looking (Look.word "while") then whileLoop rules .absent
  else if ← looking (Look.word "for") then forLoop rules .absent
  else if ← looking (Look.word "loop") then endlessLoop rules .absent
  else if ← looking (Look.word "match") then matchExpression rules
  else if ← looking (Look.word "yield") then jump rules "yield" .yielding
  else if ← looking (Look.word "unsafe") then
    return expressionOf .unsafeBlock [← word "unsafe", ← bodyWithAttributes rules]
  else if ← looking (Look.word "const") then constBlock rules
  else if ← looking Look.brace then return expressionOf .block [← bodyWithAttributes rules]
  else if ← looking (Look.op "..") then
    let (limits, closed) ← rangeOperator
    return expressionOf .range [.absent, limits, ← rangeEnd rules struct closed]
  else if ← looking (Look.word "_") then return expressionOf .infer [← anyWord]
  else if ← looking Look.lifetime then labeled rules
  else refuse .noExpression

/-- Reads an operand without the operators around it. -/
def operand (rules : Rules) (struct : Bool) : Parser Tree := do
  if ← looking Look.literal then return expressionOf .literal [← literal]
  else if ← looking asyncBlockAhead then
    return expressionOf .asyncBlock [← word "async", ← word? "move", ← block rules]
  else if ← looking tryBlockAhead then
    return expressionOf .tryBlock [← word "try", ← block rules]
  else if ← looking closureAhead then closure rules struct
  else if ← looking (fun ts => Look.word "builtin" ts && Look.second (Look.op "#") ts) then
    sourceExpression builtin
  else if ← looking pathExpressionAhead then expressionWithPath rules struct
  else if ← looking Look.paren then
    let ((lone, parts), wrap) ← inside .parenthesis (parenthesizedExpression rules)
    return expressionOf (if lone then .paren else .tuple) [wrap parts]
  else keywordOperand rules struct

/-- Where the operator of a range without a start stands. -/
def rangePlace? : Tree → Option Position
  | .node (.expression .range) [_, limits, _] => limits.tokens.head?.map Token.place
  | _ => none

/-- Reads an operand and what follows it, after its attributes with their source. -/
def operandWithTrailers (rules : Rules) (struct : Bool) (attributes : List Tree)
    (before : List Token) : Parser Tree := do
  let (e, source) ← withSource do trailers rules (← operand rules struct)
  if e.exprForm = .verbatim then
    return expressionOf .verbatim ((before ++ source).map .token)
  else
    match (if attributes.isEmpty then none else rangePlace? e) with
    | some place => refuseAt place .attributeOnRange
    | none => return e.withAttributes attributes

/-- Reads the marks between `&` and what it refers to, and tells whether they ask for an address. -/
def referenceMarks : Parser (List Tree × Bool) := do
  if ← looking (fun ts => Look.word "raw" ts && Look.second (Look.anyOf ["mut", "const"]) ts) then
    return ([← anyWord, ← anyWord], true)
  else return ([← word? "mut"], false)

/-- Reads an operand with the operators in front of it. -/
def unaryTree (rules : Rules) (struct : Bool) : Parser Tree := do
  let (attributes, before) ← withSource (outerAttributes rules)
  if ← looking (Look.op "&") then
    let and ← op "&"
    let (marks, address) ← referenceMarks
    let form := if address then ExprForm.rawAddress else .reference
    return expressionOf form (attributes ++ [and] ++ marks ++ [← rules.unary struct])
  else if ← looking (fun ts => ["*", "!", "-"].any (Look.op · ts)) then
    let operator ← firstOf ["*", "!", "-"]
    return expressionOf .unary (attributes ++ [operator, ← rules.unary struct])
  else operandWithTrailers rules struct attributes before

/-- Reads an operand, the operators after it, and the rest of a statement that need not be closed
by a semicolon. -/
def earlyExpression (rules : Rules) : Parser Tree := do
  let attributes ← outerAttributes rules
  let attach (e : Tree) := if e.exprForm = .verbatim then e else e.withAttributes attributes
  let blockLike (p : Parser Tree) : Parser Tree := do
    let e ← p
    if ← looking (fun ts => (Look.op "." ts && !Look.op ".." ts) || Look.op "?" ts) then
      rules.climb true (attach (← trailers rules e)) .jump
    else return attach e
  if ← looking (Look.word "if") then blockLike (ifExpression rules)
  else if ← looking (Look.word "while") then blockLike (whileLoop rules .absent)
  else if ← looking (fun ts => Look.word "for" ts && !closureBinderAhead ts) then
    blockLike (forLoop rules .absent)
  else if ← looking (Look.word "loop") then blockLike (endlessLoop rules .absent)
  else if ← looking (Look.word "match") then blockLike (matchExpression rules)
  else if ← looking tryBlockAhead then
    blockLike do return expressionOf .tryBlock [← word "try", ← block rules]
  else if ← looking (Look.word "unsafe") then
    blockLike do return expressionOf .unsafeBlock [← word "unsafe", ← bodyWithAttributes rules]
  else if ← looking (fun ts => Look.word "const" ts && Look.second Look.brace ts) then
    blockLike (constBlock rules)
  else if ← looking Look.brace then
    blockLike do return expressionOf .block [← bodyWithAttributes rules]
  else if ← looking Look.lifetime then blockLike (labeled rules)
  else rules.climb true (attach (← rules.unary true)) .jump

end Observable.Grammar
