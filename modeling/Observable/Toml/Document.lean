import Observable.Toml.Quoted
/-! Documents: their lines, and the table that the lines make up. -/
namespace Observable.Toml

/-- A text that is being read: how many characters are done, and those that are left. -/
structure Cursor where
  offset : Nat
  rest : List Char
deriving DecidableEq, Repr, Inhabited

/-- Reads something from the front of a text; none if the text is no document. -/
abbrev Reader (α : Type) := Cursor → Option (α × Cursor)

namespace Cursor

/-- The cursor before a tail of what is left. -/
def before (c : Cursor) (tail : List Char) : Cursor :=
  ⟨c.offset + (c.rest.length - tail.length), tail⟩

/-- The part of the text between two cursors. -/
def spanTo (c d : Cursor) : Span := ⟨c.offset, d.offset⟩

def passBlanks (c : Cursor) : Cursor := c.before (c.rest.dropWhile isBlank)

def past? (c : Cursor) (mark : Char) : Option Cursor :=
  (Scalar.past? mark c.rest).map c.before

end Cursor

namespace Document

/-- What follows a line's end: a comment that may be there, and the line break. -/
def pastLine? : List Char → Option (List Char)
  | [] => some []
  | c :: rest =>
    if c = '\n' then some rest
    else if c = '\r' && rest.head? = some '\n' then some rest.tail
    else if c = '#' then inComment rest
    else none
where
  /-- What follows a comment and its line break. -/
  inComment : List Char → Option (List Char)
    | [] => some []
    | c :: rest =>
      if c = '\n' then some rest
      else if c = '\r' && rest.head? = some '\n' then some rest.tail
      else if isText c then inComment rest
      else none

/-- What follows blanks, line breaks and comments, given whether a comment is open. -/
def pastGap? : Bool → List Char → Option (List Char)
  | _, [] => some []
  | comment, c :: rest =>
    if c = '\n' then pastGap? false rest
    else if c = '\r' && rest.head? = some '\n' then pastGap? false rest
    else if comment then if isText c then pastGap? true rest else none
    else if c = '#' then pastGap? true rest
    else if isBlank c then pastGap? false rest
    else some (c :: rest)

/-- Passes blanks, line breaks and comments. -/
def passGap? (c : Cursor) : Option Cursor := (pastGap? false c.rest).map c.before

/-- Whether a character may stand in a key without quotes. -/
def isKeyPart (c : Char) : Bool := c.isAlphanum || c = '_' || c = '-'

def key : Reader Key := fun c => do
  let (text, tail) ←
    match c.rest.takeWhile isKeyPart with
    | [] => Quotation.line? c.rest
    | text => some (text, c.rest.drop text.length)
  let done := c.before tail
  return (⟨String.ofList text, c.spanTo done⟩, done)

/-- Reads the keys that follow a key, each behind a point. -/
def keysAfter (found : KeyPath) : Nat → Reader KeyPath
  | 0, c => some (found, c)
  | n + 1, c =>
    match c.passBlanks.past? '.' with
    | none => some (found, c)
    | some d => do
      let (next, d) ← key d.passBlanks
      keysAfter ⟨found.keys, next⟩ n d

def keyPath : Reader KeyPath := fun c => do
  let (first, d) ← key c
  keysAfter ⟨[], first⟩ d.rest.length d

/-- Reads a key path and the value that it names, given how values are read. -/
def assignment (value : Reader (Located Value)) : Reader (KeyPath × Located Value) := fun c => do
  let (path, d) ← keyPath c
  let d ← d.passBlanks.past? '='
  let (found, d) ← value d.passBlanks
  return ((path, found), d)

/-- Reads members with commas between them up to a closing mark, and that mark; a comma may stand
behind the last one. -/
def members {α : Type} (close : Char) (member : Reader α) : Nat → Reader (List α)
  | 0, _ => none
  | n + 1, c => do
    let c ← passGap? c
    if let some d := c.past? close then return ([], d)
    let (first, d) ← member c
    let d ← passGap? d
    if let some d := d.past? close then return ([first], d)
    let (others, d) ← members close member n (← d.past? ',')
    return (first :: others, d)

/-- Reads a value; those within it are read by another reader. -/
def valueWith (inner : Reader (Located Value)) : Reader (Located Value) := fun c => do
  let (found, d) ←
    match c.rest with
    | '[' :: rest => do
      let (items, d) ← members ']' inner (rest.length + 1) (c.before rest)
      pure (Value.array false items, d)
    | '\x7b' :: rest => do
      let (all, d) ← members '\x7d' (assignment inner) (rest.length + 1) (c.before rest)
      let table ← all.foldlM (fun t (path, v) => t.define path v) (⟨.braced, []⟩ : Table)
      pure (table.value, d)
    | _ =>
      match Quotation.read? c.rest with
      | some (text, tail) => pure (.string (String.ofList text), c.before tail)
      | none => do
        let (text, tail) := Scalar.split c.rest
        pure (← Scalar.value? text, c.before tail)
  return (⟨c.spanTo d, found⟩, d)

/-- Reads a value in which others are nested up to a depth. -/
def value : Nat → Reader (Located Value)
  | 0 => valueWith fun _ => none
  | depth + 1 => valueWith (value depth)

def maxDepth : Nat := 80

/-- A line that says something: the header of a table, that of one more table of an array, or a
value with its name. -/
inductive Line where
  | table (path : KeyPath) (span : Span)
  | element (path : KeyPath) (span : Span)
  | member (path : KeyPath) (value : Located Value)
deriving Inhabited

def line : Reader Line := fun c =>
  match c.rest with
  | '[' :: '[' :: rest => do
    let (path, d) ← keyPath (c.before rest).passBlanks
    let d ← (← d.passBlanks.past? ']').past? ']'
    return (.element path (c.spanTo d), d)
  | '[' :: rest => do
    let (path, d) ← keyPath (c.before rest).passBlanks
    let d ← d.passBlanks.past? ']'
    return (.table path (c.spanTo d), d)
  | _ => do
    let ((path, v), d) ← assignment (value maxDepth) c
    return (.member path v, d)

/-- Reads the lines of a document to its end. -/
def lines : Nat → Cursor → Option (List Line)
  | 0, c => if c.rest.isEmpty then some [] else none
  | n + 1, c =>
    let c := c.passBlanks
    if c.rest.isEmpty then some []
    else
      match pastLine? c.rest with
      | some tail => lines n (c.before tail)
      | none => do
        let (first, d) ← line c
        let d := d.passBlanks
        let others ← lines n (d.before (← pastLine? d.rest))
        return first :: others

/-- A document that is being put together: its outermost table, and the keys of the table to which
members are added. -/
structure Draft where
  top : Table := ⟨.headed, []⟩
  here : List Key := []
deriving Inhabited

def Draft.add (d : Draft) : Line → Option Draft
  | .table path span => (d.top.begin path span).map (⟨·, path.keys⟩)
  | .element path span => (d.top.append path span).map (⟨·, path.keys⟩)
  | .member path value =>
    (d.top.enter false (·.define path value) d.here).map fun top => { d with top }

def ofLines? (all : List Line) : Option Table := (all.foldlM Draft.add {}).map (·.top)

/-- Reads a document; a mark of byte order may stand in front of it. -/
def read? (text : List Char) : Option Table := do
  let start : Cursor := ⟨0, text⟩
  let start := if text.head? = some '\ufeff' then start.before text.tail else start
  ofLines? (← lines (text.length + 1) start)

end Document

end Observable.Toml
