/-! Documents of settings: values with their places, and the tables that hold them. -/
namespace Observable.Toml

/-- A part of a text, by the numbers of characters before its start and before its end. -/
structure Span where
  start : Nat
  stop : Nat
deriving DecidableEq, Repr, Inhabited

/-- The name of a member, with the place where it is written. -/
structure Key where
  name : String
  span : Span
deriving DecidableEq, Repr, Inhabited

/-- Something with the place where it is written. -/
structure Located (α : Type) where
  span : Span
  content : α
deriving Repr, Inhabited

/-- How a table came about: by a header of its own, by a longer header, by a dotted key, or
between braces. -/
inductive TableKind where
  | headed
  | implied
  | dotted
  | braced
deriving DecidableEq, Repr, Inhabited

/-- A number with a fraction: decimal digits and the power of ten of the last one, or no number. -/
inductive FloatValue where
  | finite (negative : Bool) (digits : Nat) (exponent : Int)
  | infinite (negative : Bool)
  | undefined
deriving DecidableEq, Repr, Inhabited

/-- A value. An array grows if its members are tables with headers of their own; the members of a
table are sorted by name. -/
inductive Value where
  | string (text : String)
  | integer (n : Int)
  | float (f : FloatValue)
  | boolean (b : Bool)
  | dateTime
  | array (grows : Bool) (items : List (Located Value))
  | table (kind : TableKind) (members : List (Key × Located Value))
deriving Inhabited

abbrev Members := List (Key × Located Value)

namespace Members

def find? (name : String) (members : Members) : Option (Located Value) :=
  (List.find? (fun m => m.1.name = name) members).map (·.2)

/-- Sets a member; one that was there before keeps its key. -/
def put (key : Key) (value : Located Value) : Members → Members
  | [] => [(key, value)]
  | (k, v) :: rest =>
    if k.name = key.name then (k, value) :: rest
    else if compare key.name k.name = .lt then (key, value) :: (k, v) :: rest
    else (k, v) :: put key value rest

def erase (name : String) (members : Members) : Members :=
  List.filter (fun m => m.1.name ≠ name) members

end Members

/-- A table. -/
structure Table where
  kind : TableKind
  members : Members := []
deriving Inhabited

/-- The name of a member of a table within a table: the keys of the tables, and its own key. -/
structure KeyPath where
  tables : List Key
  key : Key
deriving Repr, Inhabited

/-- The keys of a name from the outermost one on. -/
def KeyPath.keys (p : KeyPath) : List Key := p.tables ++ [p.key]

namespace Table

def value (t : Table) : Value := .table t.kind t.members

/-- Changes the table to which some keys lead. Tables that are missing are made; of an array the
last table counts. A table between braces is complete, and a dotted key does not reach into a table
with a header. -/
def enter (dotted : Bool) (change : Table → Option Table) : List Key → Table → Option Table
  | [], t => change t
  | key :: path, t =>
    match t.members.find? key.name with
    | none => do
      let inner ← enter dotted change path ⟨if dotted then .dotted else .implied, []⟩
      return { t with members := t.members.put key ⟨key.span, inner.value⟩ }
    | some ⟨span, .table kind members⟩ =>
      if kind = .braced || (dotted && kind = .headed) then none
      else do
        let inner ← enter dotted change path ⟨kind, members⟩
        return { t with members := t.members.put key ⟨span, inner.value⟩ }
    | some ⟨span, .array true items⟩ =>
      match items.getLast? with
      | some ⟨last, .table kind members⟩ => do
        let inner ← enter dotted change path ⟨kind, members⟩
        let items := items.dropLast ++ [⟨last, inner.value⟩]
        return { t with members := t.members.put key ⟨span, .array true items⟩ }
      | _ => none
    | some _ => none

/-- Defines a member. Its name is new; a table that dotted keys made is only extended by dotted
keys, and no other one is. -/
def define (path : KeyPath) (value : Located Value) : Table → Option Table :=
  enter true (fun t =>
    if (t.kind = .dotted) ↔ path.tables.isEmpty then none
    else if (t.members.find? path.key.name).isSome then none
    else some { t with members := t.members.put path.key value }) path.tables

/-- Begins a table with a header; at most the headers of its members came before. -/
def begin (path : KeyPath) (span : Span) : Table → Option Table :=
  enter false (fun t =>
    match t.members.find? path.key.name with
    | none => some { t with members := t.members.put path.key ⟨span, .table .headed []⟩ }
    | some ⟨_, .table .implied members⟩ =>
      let others := Members.erase path.key.name t.members
      some { t with members := others.put path.key ⟨span, .table .headed members⟩ }
    | some _ => none) path.tables

/-- Begins one more table of an array of tables. -/
def append (path : KeyPath) (span : Span) : Table → Option Table :=
  let first : Located Value := ⟨span, .table .headed []⟩
  enter false (fun t =>
    match t.members.find? path.key.name with
    | none => some { t with members := t.members.put path.key ⟨span, .array true [first]⟩ }
    | some ⟨all, .array true items⟩ =>
      some { t with members := t.members.put path.key ⟨all, .array true (items ++ [first])⟩ }
    | some _ => none) path.tables

end Table

end Observable.Toml
