import Observable.Token.Basic
import Observable.Token.Literal
import Observable.Text.Printable
/-! Reading a text as tokens. -/
namespace Observable.Lexer

/-- What is left of a text, and where it begins. -/
structure Cursor where
  rest : List Char
  place : Position

namespace Cursor

def skip (c : Cursor) (n : Nat) : Cursor :=
  ⟨c.rest.drop n, c.place.after (c.rest.take n)⟩

/-- Moves to a given tail of the text. -/
def moveTo (c : Cursor) (tail : List Char) : Cursor := c.skip (c.rest.length - tail.length)

/-- The characters before a given tail of the text. -/
def upTo (c : Cursor) (tail : List Char) : List Char := c.rest.take (c.rest.length - tail.length)

end Cursor

/-- Blanks: the Unicode white space and the two direction marks. -/
def isBlank (c : Char) : Bool :=
  c = ' ' || ('\t' ≤ c && c ≤ '\x0d') || c = '\u0085' || c = '\u00a0' || c = '\u1680' ||
  ('\u2000' ≤ c && c ≤ '\u200a') || c = '\u200e' || c = '\u200f' || c = '\u2028' ||
  c = '\u2029' || c = '\u202f' || c = '\u205f' || c = '\u3000'

def startsWith (word : String) (text : List Char) : Bool := word.toList.isPrefixOf text

/-- The rest of a line and what follows it; a carriage return before the line feed belongs to the
break. -/
def takeLine : List Char → List Char × List Char
  | [] => ([], [])
  | '\n' :: rest => ([], '\n' :: rest)
  | '\r' :: '\n' :: rest => ([], '\n' :: rest)
  | c :: rest => let (line, tail) := takeLine rest; (c :: line, tail)

/-- What follows the end of nested block comments of the given depth. -/
def closeComment : Nat → List Char → Option (List Char)
  | depth, '/' :: '*' :: rest => closeComment (depth + 1) rest
  | depth, '*' :: '/' :: rest => if depth ≤ 1 then some rest else closeComment (depth - 1) rest
  | depth, _ :: rest => closeComment depth rest
  | _, [] => none

/-- What follows a comment that is not documentation, if the text begins with one. -/
def passComment (text : List Char) : Option (List Char) :=
  if startsWith "//" text && (!startsWith "///" text || startsWith "////" text)
      && !startsWith "//!" text then
    some (takeLine text).2
  else if startsWith "/**/" text then some (text.drop 4)
  else if startsWith "/*" text && (!startsWith "/**" text || startsWith "/***" text)
      && !startsWith "/*!" text then
    closeComment 0 text
  else none

/-- A documentation comment: its text, whether it documents what encloses it, and what follows. -/
structure DocComment where
  text : List Char
  inner : Bool
  rest : List Char

/-- A carriage return that no line feed follows. -/
def hasBareReturn : List Char → Bool
  | [] => false
  | '\r' :: rest => rest.head? ≠ some '\n' || hasBareReturn rest
  | _ :: rest => hasBareReturn rest

private def lineDoc (inner : Bool) (text : List Char) : DocComment :=
  let (line, rest) := takeLine text
  ⟨line, inner, rest⟩

private def blockDoc (inner : Bool) (text : List Char) : Option DocComment :=
  (closeComment 0 text).map fun rest =>
    let whole := text.take (text.length - rest.length)
    ⟨(whole.take (whole.length - 2)).drop 3, inner, rest⟩

/-- The documentation comment that a text begins with. -/
def docComment? (text : List Char) : Option DocComment :=
  let found :=
    if startsWith "//!" text then some (lineDoc true (text.drop 3))
    else if startsWith "/*!" text then blockDoc true text
    else if startsWith "///" text && !startsWith "////" text then
      some (lineDoc false (text.drop 3))
    else if startsWith "/**" text && !startsWith "/***" text then blockDoc false text
    else none
  found.filter fun d => !hasBareReturn d.text

/-- A documentation comment as the attribute it stands for. -/
def DocComment.tokens (d : DocComment) (place : Position) : List Token :=
  let mark := if d.inner then [Token.punct '!' .alone place] else []
  let value := Token.literal (String.ofList (Text.quoted d.text)) place
  let body := [Token.ident false "doc" place, .punct '=' .alone place, value]
  .punct '#' .alone place :: (mark ++ [.group .bracket body place place])

def isPunct (c : Char) : Bool := "~!@#$%^&*-=+|;:,<.>/?'".toList.contains c

/-- Whether a text begins with punctuation; the slash of a comment is none. -/
def punctAhead (text : List Char) : Bool :=
  !startsWith "//" text && !startsWith "/*" text && text.head?.any isPunct

def isUnraw (name : String) : Bool := ["_", "super", "self", "Self", "crate"].contains name

/-- An identifier at the front of a text: whether it is raw, its name, and what follows. -/
def readIdent (text : List Char) : Option (Bool × String × List Char) :=
  let raw := startsWith "r#" text
  let body := if raw then text.drop 2 else text
  match body with
  | c :: rest =>
    if Text.isIdentStart c then
      let name := String.ofList (c :: rest.takeWhile Text.isIdentContinue)
      if raw && isUnraw name then none
      else some (raw, name, rest.dropWhile Text.isIdentContinue)
    else none
  | [] => none

/-- Openings of literals, which begin no identifier. -/
def opensLiteral (text : List Char) : Bool :=
  ["r\"", "r#\"", "r##", "b\"", "b'", "br\"", "br#", "c\"", "cr\"", "cr#"].any
    (startsWith · text)

/-- The mark of a lifetime at the front of a text: a quote, an identifier and no closing quote. -/
def lifetimeAhead (text : List Char) : Bool :=
  match text with
  | '\'' :: rest =>
    match readIdent rest with
    | some (_, _, tail) =>
      tail.head? ≠ some '\'' && (tail.head? ≠ some '#' || startsWith "r#" rest)
    | none => false
  | _ => false

/-- The text that stands for code that could not be expanded; it counts as a literal. -/
def failedExpansion : String := "(/*ERROR*/)"

def readLeaf (c : Cursor) : Option (Token × Cursor) :=
  match Literal.read c.rest with
  | some tail =>
    let text := c.upTo tail
    some (.literal (String.ofList text) c.place, c.skip text.length)
  | none =>
    match c.rest with
    | [] => none
    | ch :: tail =>
      if ch = '\'' then
        if lifetimeAhead c.rest then some (.punct ch .joint c.place, c.skip 1) else none
      else if punctAhead c.rest then
        let spacing := if punctAhead tail then Spacing.joint else .alone
        some (.punct ch spacing c.place, c.skip 1)
      else if startsWith failedExpansion c.rest then
        some (.literal failedExpansion c.place, c.skip failedExpansion.length)
      else if opensLiteral c.rest then none
      else (readIdent c.rest).map fun (raw, name, _) =>
        (.ident raw name c.place, c.skip (Token.identText raw name).length)

/-- A group that is still open: its delimiter, where it opens, and the tokens before it. -/
structure OpenGroup where
  delimiter : Delimiter
  place : Position
  before : List Token

def opens (c : Char) : Option Delimiter :=
  if c = '(' then some .parenthesis
  else if c = '[' then some .bracket
  else if c = '\x7b' then some .brace
  else none

def closes (c : Char) : Option Delimiter :=
  if c = ')' then some .parenthesis
  else if c = ']' then some .bracket
  else if c = '\x7d' then some .brace
  else none

/-- Reads tokens up to the end of the text, one step for each unit of fuel; tokens are collected
in reverse, and the open groups are kept innermost first. -/
def run : Nat → Cursor → List OpenGroup → List Token → Except Position (List Token)
  | 0, c, _, _ => .error c.place
  | fuel + 1, c, groups, done =>
    match c.rest with
    | [] =>
      match groups with
      | [] => .ok done.reverse
      | g :: _ => .error g.place
    | ch :: _ =>
      if isBlank ch then run fuel (c.skip 1) groups done
      else
        match passComment c.rest with
        | some tail => run fuel (c.moveTo tail) groups done
        | none =>
          match docComment? c.rest with
          | some d => run fuel (c.moveTo d.rest) groups ((d.tokens c.place).reverse ++ done)
          | none =>
            match (if startsWith failedExpansion c.rest then none else opens ch), closes ch with
            | some d, _ => run fuel (c.skip 1) (⟨d, c.place, done⟩ :: groups) []
            | none, some d =>
              match groups with
              | [] => .error c.place
              | g :: outer =>
                if g.delimiter = d then
                  run fuel (c.skip 1) outer (.group d done.reverse g.place c.place :: g.before)
                else .error c.place
            | none, none =>
              match readLeaf c with
              | some (t, c') => run fuel c' groups (t :: done)
              | none => .error c.place

/-- A byte order mark at the front of a text is dropped. -/
def dropMark : List Char → List Char
  | '\ufeff' :: rest => rest
  | text => text

/-- The tokens of a text, or the place that cannot be read: a character that begins no token, a
delimiter that closes nothing, or one that is never closed. A byte order mark in front is passed
over, but takes its place in the line. -/
def tokens (text : List Char) : Except Position (List Token) :=
  let start : Cursor := (⟨text, .start⟩ : Cursor).moveTo (dropMark text)
  run (start.rest.length + 1) start [] []

end Observable.Lexer
