import Observable.Grammar.Attribute
/-! Paths with arguments. -/
namespace Observable.Grammar

/-- Reads a constant argument: a literal, a name or a block. -/
def constArgument (rules : Rules) : Parser Tree := do
  if ← looking Look.literal then return .node (.expression .literal) [← literal]
  else if ← looking Look.ident then
    return .node (.expression .path) [.node .path [.absent, .node .segment [← ident, .absent]]]
  else if ← looking Look.brace then
    return .node (.expression .block) [← bodyWithAttributes rules]
  else expecting []

/-- Whether a literal or a block stands ahead. -/
def constAhead (ts : List Token) : Bool := Look.literal ts || Look.brace ts

/-- Reads bounds up to a stop, which may follow a `+`. -/
def boundsUpTo (rules : Rules) (stop : List Token → Bool) (constant : Bool) :
    Parser (List Tree) := do
  return flat (← listed stop (Look.op "+") (op "+") (rules.bound false constant))

/-- The only segment of a type that is a path of one segment. -/
def lonePathSegment? : Tree → Option Tree
  | .node (.type .path) [.node .path [leading, s@(.node .segment [_, _]), _]] =>
    if leading.isPresent then none else some s
  | _ => none

def genericArgument (rules : Rules) : Parser Tree := do
  if ← looking (fun ts => Look.lifetime ts && !Look.second (Look.op "+") ts) then
    return .node .lifetimeArgument [← lifetime]
  else if ← looking constAhead then
    return .node .genericArgument [← constArgument rules]
  else
    let type ← rules.type true
    match lonePathSegment? type with
    | some segment =>
      if ← looking (Look.op "=") then
        let equals ← op "="
        if ← looking constAhead then
          return .node .genericArgument [segment, equals, ← constArgument rules]
        else return .node .genericArgument [segment, equals, ← rules.type true]
      else if ← looking (Look.op ":") then
        let colon ← op ":"
        let stop (ts : List Token) := Look.op "," ts || Look.op ">" ts
        return .node .genericArgument (segment :: colon :: (← boundsUpTo rules stop true))
      else return .node .genericArgument [type]
    | none => return .node .genericArgument [type]

def isLifetimeArgument : Tree → Bool
  | .node .lifetimeArgument _ => true
  | _ => false

/-- Reads arguments in angle brackets; the lifetimes come first. -/
def angleArguments (rules : Rules) : Parser Tree := do
  let colons ← op? "::"
  let less ← op "<"
  let found ← upTo (Look.op ">") "," (genericArgument rules)
  let greater ← op ">"
  return .sequence [colons, less, .sequence (inFront isLifetimeArgument found), greater]

def hasNoArguments : Tree → Bool
  | .node .sequence [_, _, .node .sequence [], _] => true
  | t => !t.isPresent

/-- Reads an arrow and a type, which may be absent. -/
def returnType (rules : Rules) (plus : Bool) : Parser Tree := do
  if ← looking (Look.op "->") then return .sequence [← op "->", ← rules.type plus]
  else return .absent

def parenthesizedArguments (rules : Rules) : Parser Tree := do
  let inputs ← parens (terminated "," (rules.type true))
  return .sequence [inputs, ← returnType rules false]

/-- Whether angle brackets with arguments stand ahead; an expression needs `::` before them. -/
def argumentsAhead (expression : Bool) (ts : List Token) : Bool :=
  (!expression && Look.op "<" ts && !Look.op "<=" ts && !Look.op "<<=" ts)
    || (Look.op "::" ts && Look.third (Look.op "<") ts)

def segment (rules : Rules) (expression : Bool) : Parser Tree := do
  if ← looking (Look.anyOf ["super", "self", "crate", "try"]) then
    return .node .segment [← anyWord, .absent]
  else
    let name ← if ← looking (Look.word "Self") then anyWord else ident
    if ← looking (argumentsAhead expression) then
      return .node .segment [name, ← angleArguments rules]
    else return .node .segment [name, .absent]

/-- Reads the segments of a path as long as `::` stands between them. -/
def segments (rules : Rules) (expression : Bool) (goesOn : List Token → Bool) :
    Parser (List Tree) := do
  return flat (← listed (fun _ => false) goesOn (op "::") (segment rules expression))

def path (rules : Rules) (expression : Bool) : Parser Tree := do
  let leading ← op? "::"
  let goesOn (ts : List Token) := Look.op "::" ts && !Look.third Look.paren ts
  return .node .path (leading :: (← segments rules expression goesOn))

/-- Reads a path that may begin with a type in angle brackets; the type comes apart. -/
def qualifiedPath (rules : Rules) (expression : Bool) : Parser (Option Tree × Tree) := do
  if ← looking (Look.op "<") then
    let less ← op "<"
    let self ← rules.type true
    let trait ← if ← looking (Look.word "as") then
      pure [← word "as", ← path rules false]
    else pure []
    let greater ← op ">"
    let colons ← op "::"
    let rest ← segments rules expression (Look.op "::")
    return (some (.sequence (less :: self :: trait ++ [greater, colons])),
      .node .path (.absent :: rest))
  else return (none, ← path rules expression)

/-- A path with the type in front of it. -/
def qualified (self : Option Tree) (path : Tree) : List Tree := self.toList ++ [path]

/-- Reads `!` and the group after it when a plain path calls a macro. -/
def macroCall? (self : Option Tree) (path : Tree) : Parser (Option (List Tree)) := do
  if ← looking fun ts =>
      self.isNone && Look.op "!" ts && !Look.op "!=" ts && path.pathIsPlain then
    let bang ← op "!"
    return some [path, bang, ← anyGroup]
  else return none

end Observable.Grammar
