import Observable.Grammar.Generics
/-! Types. -/
namespace Observable.Grammar

def plainType (parts : List Tree) : Tree := .node (.type .other) parts

/-- A type of which nothing but the source is kept. -/
def sourceType (source : List Token) : Tree := plainType (source.map .token)

/-- What can begin a type, in the order in which a message names it. -/
def typeStarts : List Expectation :=
  [.spelled "for", .parentheses, .spelled "fn", .spelled "unsafe", .spelled "extern", .identifier,
   .spelled "::", .spelled "<", .spelled "dyn", .squareBrackets, .spelled "*", .spelled "&",
   .spelled "!", .spelled "impl", .spelled "_", .lifetime]

/-- What can follow the parameters that `for` binds in front of a type. -/
def boundTypeStarts : List String := ["fn", "unsafe", "extern", "super", "self", "Self", "crate"]

/-- Reads the calling convention of a function, which may be absent. -/
def convention : Parser Tree := do
  if ← looking (Look.word "extern") then
    let extern_ ← word "extern"
    return .sequence [extern_, ← optionally Look.string string]
  else return .absent

/-- Whether a name or `_` stands ahead. -/
def nameAhead (ts : List Token) : Bool := Look.ident ts || Look.word "_" ts

/-- Whether the inputs of a function type end in `...` from here. -/
def variadicAhead (ts : List Token) : Bool :=
  Look.op "..." ts
    || (nameAhead ts && Look.second (Look.op ":") ts && Look.third (Look.op "...") ts)

/-- Reads the end of the inputs of a function type. -/
def variadic : Parser Tree := do
  let name ← if ← looking nameAhead then pure [← anyWord, ← op ":"] else pure []
  let dots ← op "..."
  return .sequence (name ++ [dots, ← op? ","])

/-- Reads the name in front of an input of a function type, which may be absent. -/
def inputName (self : Bool) : Parser (List Tree) := do
  let named (ts : List Token) := nameAhead ts || (self && Look.word "self" ts)
  if ← looking fun ts =>
      named ts && Look.second (Look.op ":") ts && !Look.second (Look.op "::") ts then
    return [← anyWord, ← op ":"]
  else return []

/-- Reads an input of a function type; only the source of a receiver that can change is kept. -/
def functionTypeInput (rules : Rules) (self : Bool) : Parser Tree := do
  let mutableSelf (ts : List Token) :=
    self && Look.word "mut" ts && Look.second (Look.word "self") ts
  let ((kept, parts), source) ← withSource do
    if ← looking mutableSelf then
      let _ ← word "mut"
      let name ← inputName self
      if name.isEmpty then
        let _ ← word "self"
        return (false, [])
      else
        let _ ← rules.type true
        return (false, [])
    else
      let name ← inputName self
      if ← looking (fun ts => !name.isEmpty && mutableSelf ts && !name.any isSelf) then
        let _ ← word "mut"
        let _ ← word "self"
        return (false, [])
      else return (true, name ++ [← rules.type true])
  return .sequence (if kept then parts else source.map .token)
where
  isSelf : Tree → Bool
    | .token (.ident false "self" _) => true
    | _ => false

def functionTypeInputs (rules : Rules) : Parser (List Tree) := do
  let found ← iterate (fun found => do
    if ← looking atEnd then return (found, false)
    let attributes ← outerAttributes rules
    if ← looking variadicAhead then
      return (.sequence (attributes ++ [← variadic]) :: found, false)
    let input ← functionTypeInput rules found.isEmpty
    if ← looking atEnd then return (.sequence (attributes ++ [input]) :: found, false)
    return (.sequence (attributes ++ [input, ← op ","]) :: found, true)) []
  return found.reverse

def functionType (rules : Rules) : Parser Tree := do
  let lifetimes ← binder rules
  let unsafe_ ← word? "unsafe"
  let abi ← convention
  let fn ← word "fn"
  let inputs ← parens (functionTypeInputs rules)
  return plainType [lifetimes, unsafe_, abi, fn, inputs, ← returnType rules false]

/-- Reads `+` and a bound as often as they come. -/
def moreBounds (rules : Rules) : Parser (List Tree) := do
  let found ← iterate (fun found => do
    if ← looking (Look.op "+") then
      let plus ← op "+"
      return (.sequence [plus, ← bound rules false false] :: found, true)
    else return (found, false)) []
  return found.reverse

/-- Reads `+` and bounds after a path; the last `+` may have none after it. -/
def boundsAfterPath (rules : Rules) (plus : Bool) : Parser (List Tree) := do
  let found ← iterate (fun found => do
    if ← looking (fun ts => plus && Look.op "+" ts) then
      let plus ← op "+"
      if ← looking (boundAhead false) then
        return (.sequence [plus, ← bound rules false false] :: found, true)
      else return (plus :: found, false)
    else return (found, false)) []
  return found.reverse

def objectBounds (rules : Rules) (place : Position) (plus : Bool) : Parser (List Tree) := do
  let found ← bounds rules plus false false
  if hasTrait found then return found else refuseAt place .noTraitInObject

/-- Reads a trait object that begins with a lifetime. -/
def lifetimeObject (rules : Rules) : Parser Tree := do
  return plainType (← objectBounds rules (← nextPlace) true)

/-- What the parentheses of a type hold. -/
inductive Parenthesized where
  | whole (parts : List Tree)
  | bound (parts : List Tree)
  | single (type : Tree)

/-- Reads what the parentheses of a type hold. -/
def parenthesizedType (rules : Rules) : Parser Parenthesized := do
  if ← looking atEnd then return .whole []
  else if ← looking Look.lifetime then return .whole [← lifetimeObject rules]
  else if ← looking (Look.op "?") then return .bound (← traitBound rules true).1
  else
    let first ← rules.type true
    if ← looking (Look.op ",") then
      let comma ← op ","
      return .whole (first :: comma :: (← terminated "," (rules.type true)))
    else return .single first

/-- What a parenthesized type holds as a bound, if it can be one. -/
def asBound? : Tree → Option (List Tree)
  | .node (.type .path) parts => some parts
  | .node (.type .bareBound) [.group .parenthesis _ _ parts] => some parts
  | .node (.type .bareBound) parts => some parts
  | _ => none

/-- Reads a type that begins with a parenthesis. -/
def typeInParentheses (rules : Rules) (plus : Bool) : Parser Tree := do
  let (found, wrap) ← inside .parenthesis (parenthesizedType rules)
  match found with
  | .whole parts => return plainType [wrap parts]
  | .bound parts =>
    let more ← moreBounds rules
    return .node (.type (if more.isEmpty then .bareBound else .other)) (wrap parts :: more)
  | .single type =>
    match asBound? type with
    | some parts =>
      if ← looking (fun ts => plus && Look.op "+" ts) then
        return plainType (wrap parts :: (← moreBounds rules))
      else return plainType [wrap [type]]
    | none => return plainType [wrap [type]]

/-- Reads a type that begins with a path. -/
def typeWithPath (rules : Rules) (lifetimes : Tree) (plus : Bool) : Parser Tree := do
  let (self, path) ← qualifiedPath rules false
  if self.isSome then return plainType (qualified self path)
  else
    match ← macroCall? self path with
    | some parts => return plainType parts
    | none =>
      if lifetimes.isPresent || (← looking fun ts => plus && Look.op "+" ts) then
        let more ← boundsAfterPath rules plus
        let form := if more.isEmpty then TypeForm.bareBound else .other
        return .node (.type form) (lifetimes :: path :: more)
      else return .node (.type .path) [path]

/-- Reads a trait object after `dyn`; only the source of one with `*` is kept. -/
def objectType (rules : Rules) (plus : Bool) : Parser Tree := do
  let ((star, parts), source) ← withSource do
    let place ← nextPlace
    let dyn ← word "dyn"
    let star ← op? "*"
    return (star, dyn :: (← objectBounds rules place plus))
  return if star.isPresent then sourceType source else plainType parts

/-- Reads a type that is a row of things, or one of them over and over. -/
def bracketedType (rules : Rules) : Parser Tree := do
  return plainType [← brackets do
    let element ← rules.type true
    if ← looking (Look.op ";") then
      let semicolon ← op ";"
      return [element, semicolon, ← rules.expression true]
    else return [element]]

def pointerType (rules : Rules) : Parser Tree := do
  let star ← op "*"
  let kind ← if ← looking (Look.anyOf ["const", "mut"]) then anyWord
             else expecting [.spelled "const", .spelled "mut"]
  return plainType [star, kind, ← rules.type false]

def referenceType (rules : Rules) : Parser Tree := do
  let and ← op "&"
  let lifetime ← optionally Look.lifetime lifetime
  let mut_ ← word? "mut"
  return plainType [and, lifetime, mut_, ← rules.type false]

/-- Reads a type that is known by its traits. -/
def implType (rules : Rules) (plus : Bool) : Parser Tree := do
  let place ← nextPlace
  let impl ← word "impl"
  let found ← bounds rules plus true true
  if hasTrait found then return plainType (impl :: found) else refuseAt place .noTrait

def pathAhead (ts : List Token) : Bool :=
  Look.ident ts || Look.anyOf pathKeywords ts || Look.op "::" ts || Look.op "<" ts

/-- Reads a type after the parameters that `for` binds in front of it. -/
def typeAfterBinder (rules : Rules) (lifetimes : Tree) (plus : Bool) : Parser Tree := do
  if ← looking Look.paren then typeInParentheses rules plus
  else if ← looking (Look.anyOf ["fn", "unsafe", "extern"]) then
    return (← functionType rules).withAttributes [lifetimes]
  else if ← looking pathAhead then typeWithPath rules lifetimes plus
  else if ← looking (Look.word "dyn") then objectType rules plus
  else if ← looking Look.bracket then bracketedType rules
  else if ← looking (Look.op "*") then pointerType rules
  else if ← looking (Look.op "&") then referenceType rules
  else if ← looking (Look.op "!") then return plainType [← op "!"]
  else if ← looking (Look.word "impl") then implType rules plus
  else if ← looking (Look.word "_") then return plainType [← word "_"]
  else if ← looking Look.lifetime then lifetimeObject rules
  else expecting typeStarts

/-- Reads a type; a flag tells whether `+` may follow a bound. -/
def typeTree (rules : Rules) (plus : Bool) : Parser Tree := do
  if ← looking (Look.word "for") then
    let lifetimes ← binder rules
    if ← looking (fun ts => Look.ident ts || Look.anyOf boundTypeStarts ts) then
      typeAfterBinder rules lifetimes plus
    else expecting (.identifier :: boundTypeStarts.map .spelled)
  else typeAfterBinder rules .absent plus

end Observable.Grammar
