import Observable.Field.Declaration
import Observable.Layout.Printer
import Observable.Module.Source
/-! Marked fields that a property can be derived for. -/
namespace Observable

open Grammar (Tree)

/-- A marked field that no one else can see, with the type that owns it. -/
structure Candidate where
  owner : Owner
  name : String
  type : List Token
  accessibility : Accessibility
  location : Location
  argument : Option String
deriving Repr, Inhabited

/-- The type of a field as it is shown. -/
def Candidate.typeDisplay (c : Candidate) : String := Layout.renderInline c.type

/-- What a scan finds: candidates and problems, in order. -/
structure Findings where
  candidates : List Candidate := []
  diagnostics : List Diagnostic := []
deriving Repr, Inhabited

namespace Findings

def append (a b : Findings) : Findings :=
  ⟨a.candidates ++ b.candidates, a.diagnostics ++ b.diagnostics⟩

instance : Append Findings := ⟨append⟩

def join (all : List Findings) : Findings := all.foldl (· ++ ·) {}

end Findings

/-- Where a field is declared: in a file, in a module's scope, and inside a block or not. -/
structure Surroundings where
  file : String
  scope : Scope
  inBlock : Bool
deriving Repr, Inhabited

namespace FieldDeclaration

/-- The owner and the name of a field, if a property can be derived for it. -/
def resolve (d : FieldDeclaration) (s : Surroundings) : Except ResolveError (Owner × String) :=
  let owner : Owner := ⟨s.scope.module, d.owner⟩
  if s.inBlock then .error (.local d.owner)
  else if d.generic then .error (.generic owner)
  else
    match d.field.name? with
    | some (.ident raw name _) => .ok (owner, Token.identText raw name)
    | _ => .error (.unnamed owner d.index)

def problem (location : Location) (e : ResolveError) : Findings :=
  { diagnostics := [{ code := .resolution, message := e.message, location := some location }] }

/-- The warning about a marker that is there more than once. -/
def repeated (name : String) (count : Nat) (location : Location) : List Diagnostic :=
  if 1 < count then
    [{ code := .duplicateMarker
       message := "marker applied " ++ toString count ++ " times to `" ++ name
         ++ "`; it is honoured once"
       location := some location }]
  else []

/-- What one field gives: nothing unless it is marked and confined to its module. -/
def scan (d : FieldDeclaration) (s : Surroundings) : Findings :=
  match d.field.attributes.filter (Marker.marks s.scope) with
  | [] => {}
  | first :: more =>
    if d.accessibility ≠ .confined then {}
    else
      let location : Location := ⟨s.file, d.place⟩
      match d.resolve s with
      | .error e => problem location e
      | .ok (owner, name) =>
        match Marker.nameOf first with
        | .error e => problem location (.arguments name e)
        | .ok argument =>
          { candidates := [{ owner, name, type := d.field.fieldType.tokens,
                             accessibility := d.accessibility, location, argument }]
            diagnostics := repeated name (more.length + 1) location }

end FieldDeclaration

end Observable
