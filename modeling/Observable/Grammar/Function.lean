import Observable.Grammar.Statement
/-! Signatures of functions. -/
namespace Observable.Grammar

def receiver (rules : Rules) : Parser Tree := do
  let reference ← if ← looking (Look.op "&") then
    pure [← op "&", ← optionally Look.lifetime lifetime]
  else pure []
  let mut_ ← word? "mut"
  let self ← word "self"
  let type ← if ← looking (fun ts => reference.isEmpty && Look.op ":" ts) then
    pure [← op ":", ← rules.type true]
  else pure []
  return .node .receiver (reference ++ [mut_, .sequence [self]] ++ type)

/-- An input of a function: a receiver with its place, another one, or what ends them all. -/
inductive Argument where
  | receiver (tree : Tree) (self : Position)
  | typed (tree : Tree)
  | variadic (tree : Tree)

/-- Where `self` stands in a receiver. -/
def selfPlace (tree : Tree) : Position :=
  let found := tree.tokens.find? fun
    | .ident false "self" _ => true
    | _ => false
  (found.map Token.place).getD .start

/-- Reads the end of the inputs of a function. -/
def lastArgument (front : List Tree) : Parser Argument := do
  let dots ← op "..."
  let comma ← if ← looking atEnd then pure .absent else op ","
  return .variadic (.sequence (front ++ [dots, comma]))

/-- Reads an input of a function; one without a name is given `_`. -/
def argument (rules : Rules) : Parser Argument := do
  let attributes ← outerAttributes rules
  if ← looking (Look.op "...") then lastArgument attributes
  else
    match ← attempt (receiver rules) with
    | some tree => return .receiver (.sequence (attributes ++ [tree])) (selfPlace tree)
    | none =>
      if ← looking (fun ts => Look.ident ts && Look.second (Look.op "<") ts) then
        let place ← nextPlace
        let name := Tree.ofTokens [.ident false "_" place, .punct ':' .alone place]
        return .typed (.sequence (attributes ++ [name, ← rules.type true]))
      else
        let pattern ← rules.pattern
        let colon ← op ":"
        if ← looking (Look.op "...") then lastArgument (attributes ++ [pattern, colon])
        else return .typed (.sequence (attributes ++ [pattern, colon, ← rules.type true]))

/-- Reads the inputs of a function; a receiver comes first and once. -/
def functionInputs (rules : Rules) : Parser (List Tree) := do
  let (found, _) ← iterate (fun (found, received) => do
    if ← looking atEnd then return ((found, received), false)
    else
      match ← argument rules with
      | .variadic tree => return ((tree :: found, received), false)
      | .receiver tree self =>
        if received then refuseAt self .secondReceiver
        else if !found.isEmpty then refuseAt self .unexpectedReceiver
        else next found tree true
      | .typed tree => next found tree received) (([], false) : List Tree × Bool)
  return found.reverse
where
  next (found : List Tree) (tree : Tree) (received : Bool) :
      Parser ((List Tree × Bool) × Bool) := do
    if ← looking atEnd then return ((tree :: found, received), false)
    else return ((.sequence [tree, ← op ","] :: found, received), true)

/-- Drops a word that may begin some tokens. -/
def dropWord (name : String) (ts : List Token) : List Token :=
  if Look.word name ts then ts.drop 1 else ts

/-- Drops a calling convention that may begin some tokens. -/
def dropConvention (ts : List Token) : List Token :=
  if Look.word "extern" ts then
    let rest := ts.drop 1
    if Look.string rest then rest.drop 1 else rest
  else ts

/-- Whether a signature stands ahead; a flag tells whether it may be marked `safe`. -/
def signatureAhead (safe : Bool) (ts : List Token) : Bool :=
  let rest := dropWord "async" (dropWord "const" ts)
  let marked := safe && Look.word "safe" rest
  let rest := if marked then rest.drop 1 else dropWord "unsafe" rest
  Look.word "fn" (dropConvention rest)

/-- Reads a signature, and tells whether it is marked `safe`. -/
def signatureWith (rules : Rules) (safe : Bool) : Parser (List Tree × Bool) := do
  let const ← word? "const"
  let async ← word? "async"
  let unsafe_ ← word? "unsafe"
  let marked ← looking fun ts => safe && !unsafe_.isPresent && Look.word "safe" ts
  let mark ← if marked then anyWord else pure .absent
  let abi ← convention
  let fn ← word "fn"
  let name ← ident
  let parameters ← generics rules
  let inputs ← parens (functionInputs rules)
  let output ← returnType rules true
  let conditions ← whereClause rules
  return ([const, async, unsafe_, mark, abi, fn, .node .name [name], parameters, inputs, output,
    conditions], marked)

def signature (rules : Rules) : Parser (List Tree) := do
  return (← signatureWith rules false).1

end Observable.Grammar
