import Observable.Grammar.Error
import Observable.Grammar.Look
import Observable.Grammar.Tree
/-! Readers of syntax from the tokens of one group. -/
namespace Observable.Grammar

/-- What is left of the group being read, where it closes, and the first token that an inner group
left unread. -/
structure Input where
  rest : List Token
  close : Position
  delimiter : Delimiter
  leftover : Option (Position × Delimiter) := none
deriving Repr

/-- A reader takes tokens from the front of a group or refuses them. -/
abbrev Parser := StateT Input (Except SyntaxError)

namespace Input

/-- The place of the next token, or of the end of the group. -/
def place (s : Input) : Position :=
  match s.rest with
  | t :: _ => t.place
  | [] => s.close

/-- The first unread token, counting what is left of this group. -/
def settled (s : Input) : Option (Position × Delimiter) :=
  match s.leftover, s.rest with
  | some l, _ => some l
  | none, t :: _ => some (t.place, s.delimiter)
  | none, [] => none

/-- The tokens that were read since an earlier state. -/
def since (before after : Input) : List Token :=
  before.rest.take (before.rest.length - after.rest.length)

end Input

def refuse {α : Type} (c : Complaint) : Parser α := fun s =>
  .error { place := s.place, complaint := c, atEnd := s.rest.isEmpty }

def refuseAt {α : Type} (place : Position) (c : Complaint) : Parser α := fun _ =>
  .error { place := place, complaint := c }

/-- Refuses the next token, which is none of some alternatives. -/
def expecting {α : Type} (alternatives : List Expectation) : Parser α :=
  refuse (.expected alternatives)

def looking (look : List Token → Bool) : Parser Bool := fun s => .ok (look s.rest, s)

def nextPlace : Parser Position := fun s => .ok (s.place, s)

def pass (n : Nat) : Parser Unit := fun s => .ok ((), { s with rest := s.rest.drop n })

def optionally (look : List Token → Bool) (p : Parser Tree) : Parser Tree := do
  if ← looking look then p else return .absent

/-- Reads something and goes back if that is refused. -/
def attempt {α : Type} (p : Parser α) : Parser (Option α) := fun s =>
  match p s with
  | .ok (a, s') => .ok (some a, s')
  | .error _ => .ok (none, s)

/-- Reads something and goes back in any case; a refusal counts. -/
def ahead {α : Type} (p : Parser α) : Parser α := fun s =>
  match p s with
  | .ok (a, _) => .ok (a, s)
  | .error e => .error e

def respaced : List Token → List Token
  | [] => []
  | [.punct c _ p] => [.punct c .alone p]
  | .punct c _ p :: rest => .punct c .joint p :: respaced rest
  | t :: rest => t :: respaced rest

def op (text : String) : Parser Tree := fun s =>
  if Look.op text s.rest then
    let taken := respaced (s.rest.take text.length)
    .ok (.ofTokens taken, { s with rest := s.rest.drop text.length })
  else .error { place := s.place, complaint := .expected [.spelled text] }

def op? (text : String) : Parser Tree := optionally (Look.op text) (op text)

/-- Reads the first of some operators that stands ahead. -/
def firstOf : List String → Parser Tree
  | [] => expecting []
  | text :: others => do if ← looking (Look.op text) then op text else firstOf others

/-- Reads the next token when it passes a test. -/
def oneToken (look : List Token → Bool) (c : Complaint) : Parser Tree := fun s =>
  match s.rest with
  | t :: rest =>
    if look s.rest then .ok (.token t, { s with rest := rest })
    else .error { place := t.place, complaint := c }
  | [] => .error { place := s.close, complaint := c, atEnd := true }

def word (name : String) : Parser Tree := oneToken (Look.word name) (.expected [.spelled name])

def word? (name : String) : Parser Tree := optionally (Look.word name) (word name)

def anyWord : Parser Tree := oneToken Look.anyWord .noWord

def ident : Parser Tree := fun s =>
  match s.rest with
  | .ident false name p :: _ =>
    if isIdentifier false name then oneToken Look.ident (.expected [.identifier]) s
    else .error { place := p, complaint := .foundKeyword name }
  | _ => oneToken Look.ident (.expected [.identifier]) s

def lifetime : Parser Tree := fun s =>
  if Look.lifetime s.rest then
    .ok (.node .lifetime ((s.rest.take 2).map .token), { s with rest := s.rest.drop 2 })
  else expecting [.lifetime] s

/-- Reads a literal, with its sign. -/
def literal : Parser Tree := fun s =>
  match s.rest with
  | .punct '-' _ p :: .literal text _ :: rest =>
    if Look.literal s.rest then
      .ok (.ofTokens (Token.ofLiteral ("-" ++ text) p), { s with rest := rest })
    else expecting [.literal] s
  | _ => oneToken Look.literal (.expected [.literal]) s

def string : Parser Tree := oneToken Look.string (.expected [.stringLiteral])

def Expectation.ofDelimiter : Delimiter → Expectation
  | .parenthesis => .parentheses
  | .bracket => .squareBrackets
  | .brace => .curlyBraces
  | .invisible => .spelled ""

/-- Reads the inside of a group with a delimiter, and tells how to close it again; what its reader
leaves over is remembered. -/
def inside {α : Type} (d : Delimiter) (p : Parser α) : Parser (α × (List Tree → Tree)) := fun s =>
  match s.rest with
  | .group d' body place close :: rest =>
    if d = d' then
      match p { rest := body, close := close, delimiter := d, leftover := s.leftover } with
      | .ok (found, inner) =>
        .ok ((found, .group d place close), { s with rest := rest, leftover := inner.settled })
      | .error e => .error e
    else expecting [.ofDelimiter d] s
  | _ => expecting [.ofDelimiter d] s

def within (d : Delimiter) (p : Parser (List Tree)) : Parser Tree := do
  let (parts, wrap) ← inside d p
  return wrap parts

def parens (p : Parser (List Tree)) : Parser Tree := within .parenthesis p

def brackets (p : Parser (List Tree)) : Parser Tree := within .bracket p

def braces (p : Parser (List Tree)) : Parser Tree := within .brace p

def atEnd : List Token → Bool := List.isEmpty

/-- Takes the rest of the group as it is. -/
def everything : Parser (List Tree) := fun s =>
  .ok (s.rest.map .token, { s with rest := [] })

/-- The contents of a macro call: a group with any delimiter, as it is. -/
def anyGroup : Parser Tree := fun s =>
  match s.rest with
  | .group d body place close :: rest =>
    if d = .invisible then refuse .noDelimiter s
    else .ok (.token (.group d body place close), { s with rest := rest })
  | _ => refuse .noDelimiter s

/-- Reads something and tells which tokens it took. -/
def withSource {α : Type} (p : Parser α) : Parser (α × List Token) := fun s =>
  match p s with
  | .ok (a, s') => .ok ((a, s.since s'), s')
  | .error e => .error e

/-- Runs a step until it says that it is done, at most a given number of times. -/
def iterateUpTo {α : Type} (step : α → Parser (α × Bool)) : Nat → α → Parser α
  | 0, a => pure a
  | n + 1, a => do
    let (a, again) ← step a
    if again then iterateUpTo step n a else pure a

/-- Runs a step until it says that it is done; each step but the last reads a token. -/
def iterate {α : Type} (step : α → Parser (α × Bool)) (a : α) : Parser α := fun s =>
  iterateUpTo step (s.rest.length + 1) a s

/-- Reads items with separators after them: a new item begins unless the list stops there, and a
separator follows where the list goes on. -/
def listed (stop goesOn : List Token → Bool) (separator item : Parser Tree) :
    Parser (List (Tree × Tree)) := do
  let found ← iterate (fun found => do
    if ← looking stop then return (found, false)
    let x ← item
    if ← looking goesOn then
      let c ← separator
      return ((x, c) :: found, true)
    else return ((x, .absent) :: found, false)) []
  return found.reverse

def flat (pairs : List (Tree × Tree)) : List Tree := pairs.flatMap fun (x, c) => [x, c]

/-- Items separated by an operator up to a stop, which may follow a separator. -/
def upTo (stop : List Token → Bool) (separator : String) (item : Parser Tree) :
    Parser (List (Tree × Tree)) :=
  listed stop (fun ts => !stop ts) (op separator) item

/-- Items separated by an operator up to the end of the group. -/
def terminated (separator : String) (item : Parser Tree) : Parser (List Tree) := do
  return flat (← upTo atEnd separator item)

/-- Items up to the end of the group. -/
def allItems (item : Parser Tree) : Parser (List Tree) := do
  let found ← iterate (fun found => do
    if ← looking atEnd then return (found, false)
    return ((← item) :: found, true)) []
  return found.reverse

/-- Puts the items that pass a test in front, with a comma between the two kinds where the source
had none. -/
def inFront (test : Tree → Bool) (pairs : List (Tree × Tree)) : List Tree :=
  let (first, others) := pairs.partition fun (x, _) => test x
  let separated := first.getLast?.all fun (_, c) => c.isPresent
  let comma := if separated || others.isEmpty then []
               else [Tree.token (.punct ',' .alone .start)]
  flat first ++ comma ++ flat others

/-- The grammar rules that others call recursively. -/
structure Rules where
  type : Bool → Parser Tree
  expression : Bool → Parser Tree
  unary : Bool → Parser Tree
  climb : Bool → Tree → Precedence → Parser Tree
  early : Parser Tree
  pattern : Parser Tree
  statements : Parser (List Tree)
  item : Parser Tree
  bound : Bool → Bool → Parser Tree
  namedField : Parser Tree
  useTree : Bool → Parser (Option Tree)

end Observable.Grammar
