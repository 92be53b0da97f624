import Observable.Grammar.Pattern
/-! Binary operators and what may follow an operand. -/
namespace Observable.Grammar

/-- The binary operators with their precedence; one that begins another comes after it. -/
def binaryOperators : List (String × Precedence) :=
  [("+=", .assign), ("-=", .assign), ("*=", .assign), ("/=", .assign), ("%=", .assign),
   ("^=", .assign), ("&=", .assign), ("|=", .assign), ("<<=", .assign), (">>=", .assign),
   ("&&", .and), ("||", .or), ("<<", .shift), (">>", .shift), ("==", .compare), ("<=", .compare),
   ("!=", .compare), (">=", .compare), ("+", .sum), ("-", .sum), ("*", .product),
   ("/", .product), ("%", .product), ("^", .bitXor), ("&", .bitAnd), ("|", .bitOr),
   ("<", .compare), (">", .compare)]

def binaryOperator? (ts : List Token) : Option (String × Precedence) :=
  binaryOperators.find? fun (text, _) => Look.op text ts

def assignmentAhead (ts : List Token) : Bool := Look.op "=" ts && !Look.op "=>" ts

/-- The precedence of the operator ahead; anything else binds loosest. -/
def precedenceAhead (ts : List Token) : Precedence :=
  match binaryOperator? ts with
  | some (_, precedence) => precedence
  | none =>
    if assignmentAhead ts then .assign
    else if Look.op ".." ts then .range
    else if Look.word "as" ts then .cast
    else .jump

def afterCast? (ts : List Token) : Option String :=
  if Look.op "." ts && !Look.op ".." ts then
    if Look.second (Look.word "await") ts then some "`.await`"
    else if Look.second Look.ident ts
        && (Look.third Look.paren ts || Look.third (Look.op "::") ts) then some "a method call"
    else some "a field access"
  else if Look.op "?" ts then some "`?`"
  else if Look.bracket ts then some "indexing"
  else if Look.paren ts then some "a function call"
  else none

def rangeEndsAhead (struct : Bool) (ts : List Token) : Bool :=
  atEnd ts || (Look.op "." ts && !Look.op ".." ts) || (!struct && Look.brace ts)
    || Look.word "as" ts
    || [",", ";", "?", "=>", "=", "+", "/", "%", "^", ">", "<=", "!=", "-=", "*=", "&=", "|=",
        "<<="].any (Look.op · ts)

def expressionAhead (ts : List Token) : Bool :=
  (Look.anyWord ts && !Look.word "as" ts) || Look.paren ts || Look.bracket ts || Look.brace ts
    || Look.literal ts || (Look.op "!" ts && !Look.op "!=" ts)
    || (Look.op "-" ts && !Look.op "-=" ts && !Look.op "->" ts)
    || (Look.op "*" ts && !Look.op "*=" ts) || (Look.op "|" ts && !Look.op "|=" ts)
    || (Look.op "&" ts && !Look.op "&=" ts) || Look.op ".." ts
    || (Look.op "<" ts && !Look.op "<=" ts && !Look.op "<<=" ts)
    || Look.op "::" ts || Look.lifetime ts || Look.op "#" ts

/-- Whether parameters that `for` binds in front of a closure stand ahead. -/
def closureBinderAhead (ts : List Token) : Bool :=
  Look.word "for" ts && Look.second parametersAhead ts

def closureAhead (ts : List Token) : Bool :=
  Look.op "|" ts || Look.word "move" ts || closureBinderAhead ts
    || (Look.word "const" ts && !Look.second Look.brace ts) || Look.word "static" ts
    || (Look.word "async" ts && Look.second (fun r => Look.op "|" r || Look.word "move" r) ts)

/-- Whether a block that runs later stands ahead. -/
def asyncBlockAhead (ts : List Token) : Bool :=
  Look.word "async" ts && (Look.second Look.brace ts
    || (Look.second (Look.word "move") ts && Look.third Look.brace ts))

/-- Whether an expression that begins with a path stands ahead. -/
def pathExpressionAhead (ts : List Token) : Bool :=
  pathAhead ts || (Look.word "try" ts && Look.second (fun r => Look.op "!" r || Look.op "::" r) ts)

/-- Whether an expression ends a match arm or a statement by itself. -/
def Tree.endsItself (e : Tree) : Bool :=
  match e.exprForm with
  | .ifElse | .matching | .block | .unsafeBlock | .whileLoop | .loop | .forLoop | .tryBlock
  | .constBlock => true
  | _ => false

/-- Whether an expression is a statement without a semicolon. -/
def Tree.isStatement (e : Tree) : Bool :=
  match e.exprForm with
  | .macroCall braces => braces
  | _ => e.endsItself

def Tree.endsInBraces (e : Tree) : Bool :=
  match e.tokens.getLast? with
  | some (.group .brace _ _ _) => true
  | _ => false

end Observable.Grammar
