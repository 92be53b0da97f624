import Observable.Field.Candidate
/-! The scan of a crate: a walk over each file that keeps track of modules and blocks. -/
namespace Observable

open Grammar (Tree)

/-- A step of the walk over a syntax tree. -/
inductive Step where
  | enterModule (name : String) (items : List Tree)
  | leaveModule
  | enterBlock
  | leaveBlock
  | field (declaration : FieldDeclaration)
deriving Repr, Inhabited

namespace Step

/-- Whether a part holds conditions on generic parameters. -/
def isConditions : Tree → Bool
  | .node .whereClause _ => true
  | _ => false

/-- Whether a part holds generic parameters. -/
def isParameters : Tree → Bool
  | .node .generics _ => true
  | _ => false

/-- Puts conditions behind the generic parameters among some parts, or at the end. -/
def placeConditions {α : Type} (conditions : List (Tree × α)) :
    List (Tree × α) → List (Tree × α)
  | [] => conditions
  | part :: rest =>
    if isParameters part.1 then part :: (conditions ++ rest)
    else part :: placeConditions conditions rest

/-- Some parts in the order of the walk: conditions on generic parameters belong to the
parameters. -/
def arrange {α : Type} (parts : List (Tree × α)) : List (Tree × α) :=
  placeConditions (parts.filter fun p => isConditions p.1) (parts.filter fun p => !isConditions p.1)

/-- The items in the braces of a module. -/
def moduleItems? (parts : List Tree) : Option (List Tree) :=
  parts.findSome? fun
    | .group .brace _ _ items => some items
    | _ => none

mutual
/-- The steps of the walk over a tree: a type's fields come before what is inside them. -/
def ofTree : Tree → List Step
  | .token _ => []
  | .group _ _ _ parts => (ofParts parts).flatMap (·.2)
  | .node (.item .module) parts =>
    match moduleItems? parts with
    | some items =>
      let name := ((Grammar.Tree.node (.item .module) parts).name?.map Token.spelling).getD ""
      .enterModule name items :: (arrange (ofParts parts)).flatMap (·.2) ++ [.leaveModule]
    | none => []
  | .node .block parts =>
    .enterBlock :: (arrange (ofParts parts)).flatMap (·.2) ++ [.leaveBlock]
  | .node kind parts =>
    (FieldDeclaration.ofItem (.node kind parts)).map .field
      ++ (arrange (ofParts parts)).flatMap (·.2)

/-- Some parts with the steps of the walk over each. -/
def ofParts : List Tree → List (Tree × List Step)
  | [] => []
  | t :: ts => (t, ofTree t) :: ofParts ts
end

/-- The steps of the walk over a file. -/
def ofFile (file : Grammar.File) : List Step :=
  (ofParts (file.attributes ++ file.items)).flatMap (·.2)

end Step

/-- The state of the walk: the scopes of the modules entered, innermost first, the number of
blocks entered, and what was found. -/
structure Walk where
  file : String
  scopes : List Scope
  depth : Nat := 0
  findings : Findings := {}
deriving Repr, Inhabited

namespace Walk

def step (w : Walk) : Step → Walk
  | .enterModule name items =>
    match w.scopes with
    | s :: _ => { w with scopes := .ofItems (s.module.child name) items :: w.scopes }
    | [] => w
  | .leaveModule => { w with scopes := w.scopes.drop 1 }
  | .enterBlock => { w with depth := w.depth + 1 }
  | .leaveBlock => { w with depth := w.depth - 1 }
  | .field d =>
    match w.scopes with
    | s :: _ => { w with findings := w.findings ++ d.scan ⟨w.file, s, 0 < w.depth⟩ }
    | [] => w

end Walk

def SourceFile.scan (f : SourceFile) : Findings :=
  ((Step.ofFile f.syntaxTree).foldl Walk.step { file := f.path, scopes := [f.scope] }).findings

/-- What the scan of a crate finds, file by file. -/
def Compilation.scan (c : Compilation) : Findings :=
  Findings.join (c.files.map SourceFile.scan)

end Observable
