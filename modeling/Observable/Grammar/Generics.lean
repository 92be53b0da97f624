import Observable.Grammar.Path
/-! Bounds, generic parameters and conditions on them. -/
namespace Observable.Grammar

/-- Whether generic parameters rather than a type in angle brackets stand ahead. -/
def parametersAhead (ts : List Token) : Bool :=
  let ends (r : List Token) :=
    Look.op ">" r || Look.op "," r || (Look.op ":" r && !Look.op "::" r) || Look.op "=" r
  Look.op "<" ts
    && (Look.second (fun r => Look.op ">" r || Look.op "#" r || Look.word "const" r) ts
      || (Look.second (fun r => Look.lifetime r || Look.ident r) ts && Look.third ends ts))

/-- Reads lifetimes separated by `+` up to a stop. -/
def lifetimesUpTo (stop : List Token → Bool) : Parser (List Tree) := do
  return flat (← listed stop (Look.op "+") (op "+") lifetime)

/-- A colon and its bounds; a colon without bounds is left out. -/
def colonAndBounds (colon : Tree) (bounds : List Tree) : Tree :=
  if bounds.isEmpty then .absent else .sequence (colon :: bounds)

def lifetimeParameter (rules : Rules) : Parser Tree := do
  let attributes ← outerAttributes rules
  let name ← lifetime
  if ← looking (Look.op ":") then
    let colon ← op ":"
    let bounds ← lifetimesUpTo fun ts => Look.op "," ts || Look.op ">" ts
    return .node .lifetimeParameter (attributes ++ [name, colonAndBounds colon bounds])
  else return .node .lifetimeParameter (attributes ++ [name])

def typeParameter (rules : Rules) (attributes : List Tree) : Parser Tree := do
  let name ← ident
  let colon ← op? ":"
  let stop (ts : List Token) := Look.op "," ts || Look.op ">" ts || Look.op "=" ts
  let bounds ← if colon.isPresent then boundsUpTo rules stop true else pure []
  let default ← if ← looking (Look.op "=") then
    pure [← op "=", ← rules.type true]
  else pure []
  return .node .genericParameter (attributes ++ [name, colonAndBounds colon bounds] ++ default)

def constParameter (rules : Rules) (attributes : List Tree) : Parser Tree := do
  let const ← word "const"
  let name ← ident
  let colon ← op ":"
  let type ← rules.type true
  let default ← if ← looking (Look.op "=") then
    pure [← op "=", ← constArgument rules]
  else pure []
  return .node .genericParameter (attributes ++ [const, name, colon, type] ++ default)

/-- Puts attributes in front of a parameter that was read without them. -/
def lifetimeParameterAfter (rules : Rules) (attributes : List Tree) : Parser Tree := do
  return (← lifetimeParameter rules).withAttributes attributes

def genericParameter (rules : Rules) : Parser Tree := do
  let attributes ← outerAttributes rules
  if ← looking Look.lifetime then lifetimeParameterAfter rules attributes
  else if ← looking Look.ident then typeParameter rules attributes
  else if ← looking (Look.word "const") then constParameter rules attributes
  else if ← looking (Look.word "_") then
    return .node .genericParameter (attributes ++ [← anyWord])
  else expecting [.lifetime, .identifier, .spelled "const"]

/-- Reads a parameter that `for` binds. -/
def boundParameter (rules : Rules) : Parser Tree := do
  let attributes ← outerAttributes rules
  if ← looking Look.ident then typeParameter rules attributes
  else if ← looking Look.lifetime then lifetimeParameterAfter rules attributes
  else if ← looking (Look.word "const") then constParameter rules attributes
  else expecting [.identifier, .lifetime, .spelled "const"]

def isLifetimeParameter : Tree → Bool
  | .node .lifetimeParameter _ => true
  | _ => false

/-- Reads generic parameters, of which there may be none; the lifetimes come first, and brackets
without parameters are left out. -/
def generics (rules : Rules) : Parser Tree := do
  if ← looking (Look.op "<") then
    let less ← op "<"
    let found ← upTo (Look.op ">") "," (genericParameter rules)
    let greater ← op ">"
    if found.isEmpty then return .node .generics []
    else return .node .generics (less :: inFront isLifetimeParameter found ++ [greater])
  else return .node .generics []

/-- Reads the parameters that `for` binds, which may be absent. -/
def binder (rules : Rules) : Parser Tree := do
  if ← looking (Look.word "for") then
    let for_ ← word "for"
    let less ← op "<"
    let found ← upTo (Look.op ">") "," (boundParameter rules)
    let greater ← op ">"
    return .sequence (for_ :: less :: flat found ++ [greater])
  else return .absent

def captureAhead (ts : List Token) : Bool :=
  Look.lifetime ts || Look.ident ts || Look.word "Self" ts

def capture : Parser Tree := do
  if ← looking Look.lifetime then return .node .lifetimeArgument [← lifetime]
  else if ← looking captureAhead then return .node .genericArgument [← anyWord]
  else expecting [.lifetime, .identifier, .spelled ">"]

def captureComma : Parser Tree := do
  if ← looking (Look.op ",") then op "," else expecting [.spelled ",", .spelled ">"]

/-- Reads a list of captured parameters; the lifetimes come first. -/
def captures : Parser Tree := do
  let use ← word "use"
  let less ← op "<"
  let stop := Look.op ">"
  let found ← listed stop (fun ts => !stop ts) captureComma capture
  let greater ← op ">"
  return .node (.bound false) (use :: less :: inFront isLifetimeArgument found ++ [greater])

/-- Reads the mark of a bound that holds only in constant contexts, and tells whether there is
one. -/
def constMark (constant : Bool) : Parser Bool := do
  let place ← nextPlace
  if ← looking Look.bracket then
    let _ ← brackets do return [← word "const"]
    if constant then return true else refuseAt place .maybeConstNotAllowed
  else if ← looking (Look.word "const") then
    let _ ← word "const"
    if constant then return true else refuseAt place .constNotAllowed
  else return false

/-- Gives the last segment of a path its arguments in parentheses. -/
def withParentheses (arguments : Tree) : Tree → Tree
  | .node .path parts =>
    match parts.reverse with
    | last :: .node .segment (name :: _) :: before =>
      .node .path (before.reverse ++ [.node .segment [name, arguments], last])
    | _ => .node .path parts
  | t => t

/-- Whether the last segment of a path has no arguments. -/
def lastHasNoArguments (path : Tree) : Bool :=
  match path.pathSegments.getLast? with
  | some (.node .segment [_, arguments]) => hasNoArguments arguments
  | _ => true

def parenthesesAhead (ts : List Token) : Bool :=
  Look.paren ts || (Look.op "::" ts && Look.third Look.paren ts)

/-- Reads the path of a trait, with arguments in parentheses if it has some. -/
def traitPath (rules : Rules) : Parser Tree := do
  let path ← path rules false
  if ← looking fun ts => lastHasNoArguments path && parenthesesAhead ts then
    let _ ← op? "::"
    return withParentheses (← parenthesizedArguments rules) path
  else return path

/-- Reads a bound that is a trait; nothing but its source is kept of a constant one. -/
def traitBound (rules : Rules) (constant : Bool) : Parser (List Tree × Bool) := do
  let lifetimes ← binder rules
  let marked ← constMark constant
  let place ← nextPlace
  let modifier ← op? "?"
  let inner ← if !lifetimes.isPresent && modifier.isPresent then binder rules else pure .absent
  let path ← traitPath rules
  if modifier.isPresent && (lifetimes.isPresent || inner.isPresent) then
    refuseAt place .binderWithMaybe
  else return ([lifetimes, modifier, path], marked)

def bound (rules : Rules) (capturing constant : Bool) : Parser Tree := do
  if ← looking Look.lifetime then return .node (.bound false) [← lifetime]
  else if ← looking (Look.word "use") then
    let place ← nextPlace
    let found ← captures
    if capturing then return found else refuseAt place .captureNotAllowed
  else
    let ((parts, marked), source) ← withSource do
      if ← looking Look.paren then
        let ((parts, marked), wrap) ← inside .parenthesis (traitBound rules constant)
        return ([wrap parts], marked)
      else traitBound rules constant
    return .node (.bound true) (if marked then source.map .token else parts)

/-- Whether another bound can stand after a `+`. -/
def boundAhead (constant : Bool) (ts : List Token) : Bool :=
  Look.anyWord ts || Look.op "::" ts || Look.op "?" ts || Look.lifetime ts || Look.paren ts
    || (constant && (Look.bracket ts || Look.word "const" ts))

/-- Reads bounds separated by `+`. -/
def bounds (rules : Rules) (plus capturing constant : Bool) : Parser (List Tree) := do
  let found ← iterate (fun found => do
    let b ← bound rules capturing constant
    if ← looking (fun ts => plus && Look.op "+" ts) then
      let separator ← op "+"
      return ((b, separator) :: found, ← looking (boundAhead constant))
    else return ((b, .absent) :: found, false)) []
  return flat found.reverse

/-- Whether one of some bounds is a trait. -/
def hasTrait (bounds : List Tree) : Bool := bounds.any fun
  | .node (.bound isTrait) _ => isTrait
  | _ => false

/-- What ends the conditions of a `where` clause. -/
def conditionsEnd (ts : List Token) : Bool :=
  atEnd ts || Look.brace ts || Look.op "," ts || Look.op ";" ts
    || (Look.op ":" ts && !Look.op "::" ts) || Look.op "=" ts

/-- What ends the bounds of a lifetime in a `where` clause. -/
def lifetimeBoundsEnd (ts : List Token) : Bool :=
  atEnd ts || Look.brace ts || Look.op "," ts || Look.op ";" ts || Look.op ":" ts || Look.op "=" ts

/-- Reads a condition of a `where` clause. -/
def condition (rules : Rules) : Parser Tree := do
  if ← looking (fun ts => Look.lifetime ts && Look.second (Look.op ":") ts) then
    let name ← lifetime
    let colon ← op ":"
    return .sequence (name :: colon :: (← lifetimesUpTo lifetimeBoundsEnd))
  else
    let lifetimes ← binder rules
    let type ← rules.type true
    let colon ← op ":"
    return .sequence (lifetimes :: type :: colon :: (← boundsUpTo rules conditionsEnd true))

/-- Reads a `where` clause, which may be absent; one without conditions is left out. -/
def whereClause (rules : Rules) : Parser Tree := do
  if ← looking (Look.word "where") then
    let where_ ← word "where"
    let found ← listed conditionsEnd (Look.op ",") (op ",") (condition rules)
    if found.isEmpty then return .absent
    else return .node .whereClause (where_ :: flat found)
  else return .absent

end Observable.Grammar
