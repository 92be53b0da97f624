import Observable.Toml.Scalar
/-! Texts between quotes. -/
namespace Observable.Toml

/-- Whether a character is a space or a tab. -/
def isBlank (c : Char) : Bool := c = ' ' || c = '\t'

/-- Whether a character may stand in a line of text. -/
def isText (c : Char) : Bool := c = '\t' || (' ' ≤ c && c ≠ '\x7f')

/-- How a text is quoted: by which mark, and whether it may have more than one line. Only between
double quotes a backslash begins an escape. -/
structure Quotation where
  mark : Char
  lines : Bool
deriving DecidableEq, Repr, Inhabited

namespace Quotation

def escapes (q : Quotation) : Bool := q.mark = '"'

/-- The marks that still belong to the text before its end, and what follows the end. -/
def close? (q : Quotation) (text : List Char) : Option (List Char × List Char) :=
  if q.lines then
    let marks := min (text.takeWhile (· = q.mark)).length 5
    if 3 ≤ marks then some (List.replicate (marks - 3) q.mark, text.drop marks) else none
  else if text.head? = some q.mark then some ([], text.tail)
  else none

/-- Whether a character may stand in a text, given what follows it. -/
def admits (q : Quotation) (c : Char) (next : Option Char) : Bool :=
  isText c || (q.lines && (c = '\n' || (c = '\r' && next = some '\n')))

/-- Where a reader of a text stands: in the text, behind a backslash, within the digits of a
character's number, or at the end of a line that goes on. -/
inductive State where
  | text
  | escape
  | digits (left value : Nat)
  | gap (broken : Bool)
deriving DecidableEq, Repr

/-- What a character behind a backslash stands for. -/
def plainEscape? (c : Char) : Option Char :=
  if c = 'b' then some '\x08'
  else if c = 't' then some '\t'
  else if c = 'n' then some '\n'
  else if c = 'f' then some '\x0c'
  else if c = 'r' then some '\r'
  else if c = 'e' then some '\x1b'
  else if c = '"' || c = '\\' then some c
  else none

/-- The number of digits that a character behind a backslash asks for. -/
def digitCount? (c : Char) : Option Nat :=
  if c = 'x' then some 2 else if c = 'u' then some 4 else if c = 'U' then some 8 else none

def charOf? (n : Nat) : Option Char := if n.isValidChar then some (Char.ofNat n) else none

/-- Puts a character in front of a text that was read. -/
def cons (c : Char) (found : Option (List Char × List Char)) : Option (List Char × List Char) :=
  found.map fun (text, rest) => (c :: text, rest)

/-- Reads on at a character that is neither in an escape nor in a gap. -/
def plain (q : Quotation) (c : Char) (rest : List Char)
    (go : State → Option (List Char × List Char)) : Option (List Char × List Char) :=
  match q.close? (c :: rest) with
  | some found => some found
  | none =>
    if c = '\\' && q.escapes then go .escape
    else if q.admits c rest.head? then cons c (go .text)
    else none

/-- Whether a line break may be escaped by a backslash before a character. -/
def breaks (q : Quotation) (c : Char) (next : Option Char) : Bool :=
  q.lines && (isBlank c || c = '\n' || (c = '\r' && next = some '\n'))

/-- The text up to its end, and what follows it. -/
def body (q : Quotation) : State → List Char → Option (List Char × List Char)
  | _, [] => none
  | .text, c :: rest => plain q c rest fun s => body q s rest
  | .escape, c :: rest =>
    match plainEscape? c, digitCount? c with
    | some d, _ => cons d (body q .text rest)
    | none, some count => body q (.digits count 0) rest
    | none, none => if q.breaks c rest.head? then body q (.gap (c = '\n')) rest else none
  | .digits left value, c :: rest =>
    match Scalar.digit? 16 c with
    | none => none
    | some d =>
      let value := value * 16 + d
      if 1 < left then body q (.digits (left - 1) value) rest
      else
        match charOf? value with
        | some ch => cons ch (body q .text rest)
        | none => none
  | .gap broken, c :: rest =>
    if q.breaks c rest.head? then body q (.gap (broken || c = '\n')) rest
    else if broken then plain q c rest fun s => body q s rest
    else none

/-- What follows a line break, if a text begins with one. -/
def pastBreak (text : List Char) : List Char :=
  match text with
  | '\n' :: rest => rest
  | '\r' :: '\n' :: rest => rest
  | _ => text

/-- Reads a quoted text that has one line. -/
def line? (text : List Char) : Option (List Char × List Char) :=
  match text with
  | c :: rest => if c = '"' || c = '\'' then body ⟨c, false⟩ .text rest else none
  | [] => none

/-- Reads a quoted text; a line break at its very start is left out. -/
def read? (text : List Char) : Option (List Char × List Char) :=
  match text with
  | a :: b :: c :: rest =>
    if (a = '"' || a = '\'') && a = b && a = c then body ⟨a, true⟩ .text (pastBreak rest)
    else line? text
  | _ => line? text

end Quotation

end Observable.Toml
