import Observable.Grammar.Tree
import Observable.Module.Path
/-! The names that a module binds, and what a path in it refers to. -/
namespace Observable

def Token.spelling : Token → String
  | .ident raw name _ => identText raw name
  | _ => ""

namespace Grammar.Tree

/-- The spelling of an identifier in a tree. -/
def spelling : Tree → String
  | .token t => t.spelling
  | _ => ""

/-- The token that names an item or a field, if it has a name. -/
def name? : Tree → Option Token
  | .node _ parts => parts.findSome? fun
    | .node .name [.token t] => some t
    | _ => none
  | _ => none

def partsAfter (keyword : String) (parts : List Tree) : List Tree :=
  (parts.dropWhile fun
    | .token (.ident false n _) => n ≠ keyword
    | _ => true).drop 1

end Grammar.Tree

/-- A path from the root of the crate. -/
structure CanonicalPath where
  segments : List String
deriving DecidableEq, Repr, Inhabited

namespace CanonicalPath

def below (module : ModulePath) (rest : List String) : CanonicalPath :=
  ⟨"crate" :: (module.segments ++ rest)⟩

def display (p : CanonicalPath) : String := "::".intercalate p.segments

end CanonicalPath

/-- A name that an import binds, and the words of the path that it stands for. -/
structure Binding where
  name : String
  target : List String
deriving DecidableEq, Repr, Inhabited

namespace Binding

/-- The word that stands for the root of all libraries at the start of a target. -/
def libraryRoot : String := "::"

/-- The path that a name stands for at the end of a prefix; `self` stands for the prefix. -/
def extend (words : List String) (name : String) : List String :=
  if name = "self" then words else words ++ [name]

mutual
/-- The bindings of an import tree behind some words, one for each leaf that binds a name. -/
def ofTree (words : List String) : Grammar.Tree → List Binding
  | .node (.useTree .path) parts => ofPath words parts
  | .node (.useTree .name) [name] =>
    let target := extend words name.spelling
    match target.getLast? with
    | some bound => [⟨bound, target⟩]
    | none => []
  | .node (.useTree .rename) [name, _, rename] =>
    if rename.spelling = "_" then [] else [⟨rename.spelling, extend words name.spelling⟩]
  | .node (.useTree .group) parts => ofTrees words parts
  | .group _ _ _ parts => ofTrees words parts
  | _ => []

/-- The bindings of an import path behind some words. -/
def ofPath (words : List String) : List Grammar.Tree → List Binding
  | name :: rest => ofTrees (words ++ [name.spelling]) rest
  | [] => []

/-- The bindings of some import trees in order. -/
def ofTrees (words : List String) : List Grammar.Tree → List Binding
  | [] => []
  | t :: ts => ofTree words t ++ ofTrees words ts
end

/-- The bindings of an item; only an import has some. -/
def ofItem : Grammar.Tree → List Binding
  | .node (.item .use) parts =>
    match Grammar.Tree.partsAfter "use" parts with
    | leading :: tree :: _ => ofTree (if leading.isPresent then [libraryRoot] else []) tree
    | _ => []
  | _ => []

end Binding

/-- What a module binds: its imports in order, and the names of its items. -/
structure Scope where
  module : ModulePath
  imports : List Binding
  locals : List String
deriving Repr, Inhabited

namespace Scope

/-- The scope of a module with some items. -/
def ofItems (module : ModulePath) (items : List Grammar.Tree) : Scope where
  module := module
  imports := items.flatMap Binding.ofItem
  locals := items.filterMap fun item => item.name?.map Token.spelling

/-- What an import binds a name to; of several imports the last one counts. -/
def import? (s : Scope) (name : String) : Option (List String) :=
  (s.imports.reverse.find? fun b => b.name = name).map Binding.target

def binds (s : Scope) (name : String) : Bool :=
  s.locals.contains name || (s.import? name).isSome

/-- Words that no item can be named by. -/
def pathWords : List String := ["crate", "self", "super", "Self"]

/-- What the words after `super` refer to, from a module upwards. -/
def resolveAbove (module : ModulePath) : List String → Option CanonicalPath
  | [] => module.parent.map (CanonicalPath.below · [])
  | word :: rest =>
    match module.parent with
    | none => none
    | some above =>
      if word = "super" then resolveAbove above rest
      else some (CanonicalPath.below above (word :: rest))

/-- What some words refer to that begin at the crate, at the module or at one of its items. -/
def resolveWords (s : Scope) : List String → Option CanonicalPath
  | [] => none
  | first :: rest =>
    if first = "crate" then some ⟨first :: rest⟩
    else if first = "self" then some (CanonicalPath.below s.module rest)
    else if first = "super" then resolveAbove s.module rest
    else if s.locals.contains first then some (CanonicalPath.below s.module (first :: rest))
    else none

/-- What a path in a module refers to: an import replaces its first word, and a single word that
the module does not bind is looked up at the root. -/
def resolve (s : Scope) (path : List String) : Option CanonicalPath :=
  match path with
  | [] => none
  | first :: rest =>
    match s.import? first with
    | some target => s.resolveWords (target ++ rest)
    | none =>
      if rest.isEmpty && !s.locals.contains first && !pathWords.contains first then
        some (CanonicalPath.below .root [first])
      else s.resolveWords path

/-- What a path in a syntax tree refers to; one from the root of all libraries leaves the crate. -/
def resolvePath (s : Scope) (path : Grammar.Tree) : Option CanonicalPath :=
  if path.pathIsGlobal then none else s.resolve path.pathWords

end Scope

end Observable
