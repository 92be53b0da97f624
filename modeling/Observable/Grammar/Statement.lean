import Observable.Grammar.Expression
/-! Statements. -/
namespace Observable.Grammar

mutual
/-- Whether nothing but the source is kept of the operand that an expression begins with. -/
def Tree.beginsVerbatim : Tree → Bool
  | .node (.expression .verbatim) _ => true
  | .node (.expression .assign) parts => firstBeginsVerbatim parts
  | .node (.expression (.binary _)) parts => firstBeginsVerbatim parts
  | .node (.expression .cast) parts => firstBeginsVerbatim parts
  | _ => false

/-- The same for the first of some parts. -/
def firstBeginsVerbatim : List Tree → Bool
  | [] => false
  | t :: _ => t.beginsVerbatim
end

/-- Whether an item that is not a macro call stands ahead in a block. -/
def itemAhead (ts : List Token) : Bool :=
  let second (names : List String) := Look.second (Look.anyOf names) ts
  let third (names : List String) := Look.third (Look.anyOf names) ts
  let functionStarts := ["unsafe", "extern", "fn"]
  Look.anyOf ["pub", "extern", "use", "fn", "mod", "type", "struct", "enum", "trait", "impl",
    "macro"] ts
    || (Look.word "crate" ts && !Look.second (Look.op "::") ts)
    || (Look.word "static" ts && (second ["mut"] || (Look.second Look.ident ts
      && !(second ["async"] && (third ["move"] || Look.third (Look.op "|") ts)))))
    || (Look.word "const" ts && !(Look.second Look.brace ts || second ["static"]
      || (second ["async"] && !third functionStarts) || second ["move"]
      || Look.second (Look.op "|") ts))
    || (Look.word "unsafe" ts && !Look.second Look.brace ts)
    || (Look.word "async" ts && second functionStarts)
    || (Look.word "union" ts && Look.second Look.ident ts)
    || (Look.word "auto" ts && second ["trait"])
    || (Look.word "default" ts && second ["unsafe", "impl"])

/-- What a statement is. -/
inductive StatementStart where
  | item
  | macroCall
  | variable
  | expression
deriving DecidableEq

/-- Whether an operand goes on after a group. -/
def operandGoesOn (ts : List Token) : Bool :=
  (Look.op "." ts && !Look.op ".." ts) || Look.op "?" ts

/-- What a statement is of which the path of a macro may have been read. -/
def startAfterPath (ts : List Token) : Option StatementStart :=
  if !Look.op "!" ts then none
  else if Look.second (fun r => Look.ident r || Look.word "try" r) ts then some .item
  else if Look.second Look.brace ts && !Look.third operandGoesOn ts then some .macroCall
  else none

/-- Tells what a statement is, whatever its attributes. -/
def statementStart (rules : Rules) : Parser StatementStart := ahead do
  let _ ← outerAttributes rules
  let start ← fun s => match plainPath s with
    | .ok (_, after) => .ok (startAfterPath after.rest, s)
    | .error _ => .ok (none, s)
  if ← looking (Look.word "let") then return .variable
  else if ← looking itemAhead then return .item
  else return start.getD .expression

def statementOf (parts : List Tree) : Tree := .node .statement parts

/-- Reads a macro call that is a statement. -/
def macroStatement (attributes : List Tree) : Parser Tree := do
  let path ← plainPath
  let bang ← op "!"
  let body ← anyGroup
  return statementOf (attributes ++ [path, bang, body, ← op? ";"])

/-- Reads what a variable is given, and the block for values that do not fit. -/
def initializer (rules : Rules) : Parser (List Tree) := do
  if ← looking (Look.op "=") then
    let equals ← op "="
    let value ← rules.expression true
    if ← looking (fun ts => Look.word "else" ts && !value.endsInBraces) then
      return [equals, value, ← word "else", ← block rules]
    else return [equals, value]
  else return []

def variableStatement (rules : Rules) (attributes : List Tree) : Parser Tree := do
  let let_ ← word "let"
  let pattern ← rules.pattern
  let type ← if ← looking (Look.op ":") then
    pure [← op ":", ← rules.type true]
  else pure []
  let value ← initializer rules
  return statementOf (attributes ++ [let_, pattern] ++ type ++ value ++ [← op ";"])

/-- Reads an expression that is a statement, and tells whether a semicolon has to follow. -/
def expressionStatement (rules : Rules) (attributes : List Tree) : Parser (Tree × Bool) := do
  let e ← rules.early
  let semicolon ← op? ";"
  let shown := if e.beginsVerbatim then [] else attributes
  return (statementOf (shown ++ [e, semicolon]), !semicolon.isPresent && !e.isStatement)

/-- Reads a statement, and tells whether a semicolon has to follow. -/
def statement (rules : Rules) : Parser (Tree × Bool) := do
  match ← statementStart rules with
  | .item => return (← rules.item, false)
  | .macroCall => return (← macroStatement (← outerAttributes rules), false)
  | .variable => return (← variableStatement rules (← outerAttributes rules), false)
  | .expression => expressionStatement rules (← outerAttributes rules)

def statements (rules : Rules) : Parser (List Tree) := do
  let found ← iterate (fun found => do
    if ← looking (Look.op ";") then return (statementOf [← op ";"] :: found, true)
    else if ← looking atEnd then return (found, false)
    else
      let (next, open_) ← statement rules
      if ← looking atEnd then return (next :: found, false)
      else if open_ then refuse .noSemicolon
      else return (next :: found, true)) []
  return found.reverse

end Observable.Grammar
