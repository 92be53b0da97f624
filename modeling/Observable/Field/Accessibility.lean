import Observable.Grammar.Name
/-! How far a field can be seen. -/
namespace Observable

/-- How far a field can be seen: in its module, further but not everywhere, in its crate, or
everywhere. -/
inductive Accessibility where
  | confined
  | restricted
  | internal
  | everywhere
deriving DecidableEq, Repr, Inhabited

namespace Accessibility

def label : Accessibility → String
  | confined => "private"
  | restricted => "restricted"
  | internal => "internal"
  | everywhere => "public"

/-- The path that a visibility is restricted to. -/
def restriction? : Grammar.Tree → Option Grammar.Tree
  | .node .visibility parts => parts.findSome? fun
    | .group _ _ _ inner => inner.find? fun
      | .node .path _ => true
      | _ => false
    | _ => none
  | _ => none

def ofVisibility (vis : Grammar.Tree) : Accessibility :=
  if vis.isInherited then .confined
  else
    match restriction? vis with
    | none => .everywhere
    | some path =>
      if path.pathIsGlobal then .restricted
      else if path.pathWords = ["self"] then .confined
      else if path.pathWords = ["crate"] then .internal
      else .restricted

/-- The accessibility of a field; one of a variant can be seen wherever its enum can. -/
def ofField (vis : Grammar.Tree) (inVariant : Bool) : Accessibility :=
  if inVariant then .everywhere else ofVisibility vis

end Accessibility

end Observable
