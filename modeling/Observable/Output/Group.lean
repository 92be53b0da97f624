import Observable.Field.Candidate
import Observable.Text.Sorted
/-! Candidates grouped by the type that owns them, and the key of each group's unit. -/
namespace Observable

/-- A type with its marked fields, in the order of their names. -/
structure Group where
  owner : Owner
  fields : List Candidate
deriving Repr, Inhabited

namespace Group

/-- The owners of some candidates, in order and each once. -/
def owners (candidates : List Candidate) : List Owner :=
  (sorted (fun a b => (a.compare b).isLE) (candidates.map (·.owner))).eraseReps

def ofOwner (candidates : List Candidate) (owner : Owner) : Group where
  owner := owner
  fields := sorted (fun a b => (compare a.name b.name).isLE)
    (candidates.filter fun c => c.owner = owner)

/-- The groups of some candidates, in the order of their owners. -/
def ofCandidates (candidates : List Candidate) : List Group :=
  (owners candidates).map (ofOwner candidates)

/-- The key of a unit with a name. -/
def keyOf (base : String) : String := base ++ "_Classes_g"

/-- The name of an owner with the modules around it. -/
def qualifiedName (o : Owner) : String := "_".intercalate (o.module.segments ++ [o.name])

/-- The keys that an owner's unit may have, the preferred one first: its name, its name with its
modules, and that with a number. -/
def keyChoice (o : Owner) : Nat → String
  | 0 => keyOf o.name
  | 1 => keyOf (qualifiedName o)
  | n + 2 => keyOf (qualifiedName o ++ "_" ++ toString (n + 2))

/-- The first key of an owner that is not taken; one of so many choices is free. -/
def freeKey (taken : List String) (o : Owner) : String :=
  (((List.range (taken.length + 2)).map (keyChoice o)).find? (!taken.contains ·)).getD ""

/-- The keys of some owners' units in order, given the keys that are taken. -/
def keysFrom (taken : List String) : List Owner → List String
  | [] => []
  | o :: rest =>
    let key := freeKey taken o
    key :: keysFrom (taken ++ [key]) rest

/-- The keys of the units of some groups. -/
def keys (groups : List Group) : List String := keysFrom [] (groups.map (·.owner))

end Group

end Observable
