import Observable.Grammar.Parser
/-! Plain paths, visibilities, members and labels. -/
namespace Observable.Grammar

/-- The keywords that can be a word of a path. -/
def pathKeywords : List String := ["super", "self", "Self", "crate"]

def plainPath : Parser Tree := do
  let leading ← op? "::"
  let found ← iterate (fun found => do
    if ← looking (fun ts => Look.ident ts || Look.anyOf pathKeywords ts) then
      let segment := Tree.node .segment [← anyWord, .absent]
      if ← looking (Look.op "::") then
        return ((segment, ← op "::") :: found, true)
      else return ((segment, .absent) :: found, false)
    else return (found, false)) []
  match found with
  | [] => return .node .path [leading, .node .segment [← ident, .absent]]
  | (_, separator) :: _ =>
    if separator.isPresent then refuse .noPathSegment
    else return .node .path (leading :: flat found.reverse)

/-- What stands in the parentheses of a restricted visibility. -/
def restriction : Parser (List Tree) := do
  if ← looking (Look.anyOf ["crate", "self", "super"]) then
    let name ← anyWord
    if ← looking atEnd then
      return [.node .path [.absent, .node .segment [name, .absent]]]
    else refuse .noPath
  else return [← word "in", ← plainPath]

/-- Whether the parentheses after `pub` restrict it. -/
def restricts : List Token → Bool
  | .group .parenthesis body _ _ :: _ =>
    Look.word "in" body || (Look.anyOf ["crate", "self", "super"] body && body.length = 1)
  | _ => false

/-- Reads a visibility, which may be absent. -/
def visibility : Parser Tree := do
  if ← looking (Look.word "pub") then
    let pub ← word "pub"
    if ← looking restricts then
      return .node .visibility [pub, ← parens restriction]
    else return .node .visibility [pub]
  else return .node .visibility []

def Tree.isInherited : Tree → Bool
  | .node .visibility [] => true
  | _ => false

/-- The bound below which the index of a tuple field lies. -/
def indexLimit : Nat := 4294967296

def indexValue (negative : Bool) : Option Literal.Form → Except Complaint Nat
  | some (.integer value suffix) =>
    if !suffix.isEmpty then .error .suffixedInteger
    else if negative then .error .integerMalformed
    else if indexLimit ≤ value then .error .integerTooLarge
    else .ok value
  | _ => .error (.expected [.integerLiteral])

/-- The index of a tuple field as a token. -/
def indexToken (value : Nat) (place : Position) : Tree := .token (.literal (toString value) place)

def index : Parser Tree := fun s =>
  let negative := Look.op "-" s.rest
  match indexValue negative (Look.literalForm? s.rest) with
  | .ok value => .ok (indexToken value s.place, { s with rest := s.rest.drop 1 })
  | .error c => refuseAt s.place c s

/-- Reads the name or the index of a field. -/
def member : Parser Tree := do
  if ← looking Look.ident then ident
  else if ← looking Look.integer then index
  else refuse .noMember

def Tree.isNamed : Tree → Bool
  | .token (.ident ..) => true
  | _ => false

/-- Reads a label, which may be absent. -/
def label : Parser Tree := do
  if ← looking Look.lifetime then return .sequence [← lifetime, ← op ":"]
  else return .absent

end Observable.Grammar
