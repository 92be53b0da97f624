import Mathlib.Data.List.Perm.Basic
import Observable.Field.Scan
/-! The fields that a crate declares, each with what encloses its declaration: in the order of the
text, and in the order of the walk. -/
namespace Observable

open Grammar (Tree)

/-- Where a field is declared: what surrounds it, and whether it stands in the attributes of a
module without a body. -/
structure Standing where
  surroundings : Surroundings
  detached : Bool := false
deriving Repr, Inhabited

/-- The name of a module, an item or a field as it is spelled. -/
def Grammar.Tree.nameText (t : Tree) : String := (t.name?.map Token.spelling).getD ""

/-- Where the parts of a tree stand. A module with a body has a scope of its own, and a block hides
what it declares. -/
def Standing.inside (p : Standing) (t : Tree) : Standing :=
  let s := p.surroundings
  match t with
  | .node (.item .module) parts =>
    match Step.moduleItems? parts with
    | some items => { p with surroundings :=
        { s with scope := .ofItems (s.scope.module.child t.nameText) items } }
    | none => { p with detached := true }
  | .node .block _ => { p with surroundings := { s with inBlock := true } }
  | _ => p

/-- A field with where it is declared. -/
abbrev PlacedField := FieldDeclaration × Standing

namespace PlacedField

mutual
/-- The fields declared in a tree, in the order of the text. -/
def ofTree (p : Standing) : Tree → List PlacedField
  | .token _ => []
  | .group _ _ _ parts => ofTrees p parts
  | .node kind parts =>
    (FieldDeclaration.ofItem (.node kind parts)).map (·, p)
      ++ ofTrees (p.inside (.node kind parts)) parts

def ofTrees (p : Standing) : List Tree → List PlacedField
  | [] => []
  | t :: ts => ofTree p t ++ ofTrees p ts
end

mutual
/-- The fields declared in a tree, in the order of the walk. -/
def walked (p : Standing) : Tree → List PlacedField
  | .token _ => []
  | .group _ _ _ parts => (walkedParts p parts).flatMap (·.2)
  | .node kind parts =>
    (FieldDeclaration.ofItem (.node kind parts)).map (·, p)
      ++ (Step.arrange (walkedParts (p.inside (.node kind parts)) parts)).flatMap (·.2)

/-- Some parts with the fields declared in each. -/
def walkedParts (p : Standing) : List Tree → List (Tree × List PlacedField)
  | [] => []
  | t :: ts => (t, walked p t) :: walkedParts p ts
end

end PlacedField

namespace Step

theorem placeConditions_perm {α : Type} (conditions parts : List (Tree × α)) :
    (placeConditions conditions parts).Perm (conditions ++ parts) := by
  induction parts with
  | nil => simp [placeConditions]
  | cons part rest ih =>
    unfold placeConditions
    split
    · exact List.perm_middle.symm
    · exact (ih.cons part).trans List.perm_middle.symm

/-- The walk comes to each part once. -/
theorem arrange_perm {α : Type} (parts : List (Tree × α)) : (arrange parts).Perm parts :=
  (placeConditions_perm _ _).trans (List.filter_append_perm (fun p => isConditions p.1) parts)

theorem placeConditions_map {α β : Type} (f : Tree × α → Tree × β) (hf : ∀ p, (f p).1 = p.1)
    (conditions parts : List (Tree × α)) :
    placeConditions (conditions.map f) (parts.map f)
      = (placeConditions conditions parts).map f := by
  induction parts with
  | nil => rfl
  | cons part rest ih =>
    rw [List.map_cons, placeConditions, placeConditions, hf part, ih]
    split <;> simp

/-- The order of the walk depends on the parts alone. -/
theorem arrange_map {α β : Type} (f : Tree × α → Tree × β) (hf : ∀ p, (f p).1 = p.1)
    (parts : List (Tree × α)) : arrange (parts.map f) = (arrange parts).map f := by
  rw [arrange, arrange, ← placeConditions_map f hf, List.filter_map, List.filter_map]
  simp only [Function.comp_def, hf]

end Step

namespace PlacedField

mutual
/-- The walk comes to each declared field once. -/
theorem walked_perm (p : Standing) (t : Tree) : (walked p t).Perm (ofTree p t) := by
  cases t with
  | token t => exact .refl _
  | group d place close parts =>
    rw [walked, ofTree]
    exact walkedParts_perm p parts
  | node kind parts =>
    rw [walked, ofTree]
    refine List.Perm.append_left _ ?_
    exact ((Step.arrange_perm _).flatMap_right _).trans (walkedParts_perm _ parts)

theorem walkedParts_perm (p : Standing) (ts : List Tree) :
    ((walkedParts p ts).flatMap (·.2)).Perm (ofTrees p ts) := by
  cases ts with
  | nil => exact .refl _
  | cons t ts =>
    rw [walkedParts, List.flatMap_cons, ofTrees]
    exact (walked_perm p t).append (walkedParts_perm p ts)
end

theorem mem_flatMap_arrange {α : Type} {parts : List (Tree × List α)} {a : α} :
    a ∈ (Step.arrange parts).flatMap (·.2) ↔ ∃ part ∈ parts, a ∈ part.2 := by
  rw [List.mem_flatMap]
  simp only [(Step.arrange_perm parts).mem_iff]

theorem detached_inside {p : Standing} (h : p.detached = true) (t : Tree) :
    (p.inside t).detached = true := by
  unfold Standing.inside
  split
  · split
    · exact h
    · rfl
  · exact h
  · exact h

mutual
/-- What is declared in the attributes of a module without a body stays apart. -/
theorem detached_of_mem_walked {p : Standing} (h : p.detached = true) (t : Tree)
    {f : PlacedField} (hf : f ∈ walked p t) : f.2.detached = true := by
  cases t with
  | token t => simp [walked] at hf
  | group d place close parts =>
    rw [walked, List.mem_flatMap] at hf
    obtain ⟨part, hpart, hf⟩ := hf
    exact detached_of_mem_walkedParts h parts hpart hf
  | node kind parts =>
    rw [walked, List.mem_append, List.mem_map, mem_flatMap_arrange] at hf
    rcases hf with ⟨d, -, rfl⟩ | ⟨part, hpart, hf⟩
    · exact h
    · exact detached_of_mem_walkedParts (detached_inside h _) parts hpart hf

theorem detached_of_mem_walkedParts {p : Standing} (h : p.detached = true) (ts : List Tree)
    {part : Tree × List PlacedField} (hpart : part ∈ walkedParts p ts) {f : PlacedField}
    (hf : f ∈ part.2) : f.2.detached = true := by
  cases ts with
  | nil => simp [walkedParts] at hpart
  | cons t ts =>
    rw [walkedParts, List.mem_cons] at hpart
    rcases hpart with rfl | hpart
    · exact detached_of_mem_walked h t hf
    · exact detached_of_mem_walkedParts h ts hpart hf
end

/-- The fields that a file declares, in the order of the text. -/
def ofFile (f : SourceFile) : List PlacedField :=
  ofTrees ⟨⟨f.path, f.scope, false⟩, false⟩ (f.syntaxTree.attributes ++ f.syntaxTree.items)

/-- The fields that a file declares, in the order of the walk. -/
def walkedFile (f : SourceFile) : List PlacedField :=
  (walkedParts ⟨⟨f.path, f.scope, false⟩, false⟩
    (f.syntaxTree.attributes ++ f.syntaxTree.items)).flatMap (·.2)

end PlacedField

/-- The fields that a crate declares, file by file in the order of the text. -/
def Compilation.declared (c : Compilation) : List PlacedField :=
  c.files.flatMap PlacedField.ofFile

/-- The fields that a crate declares, file by file in the order of the walk. -/
def Compilation.walked (c : Compilation) : List PlacedField :=
  c.files.flatMap PlacedField.walkedFile

theorem Compilation.walked_perm (c : Compilation) : c.walked.Perm c.declared :=
  List.Perm.flatMap_left _ fun f _ =>
    PlacedField.walkedParts_perm _ (f.syntaxTree.attributes ++ f.syntaxTree.items)

end Observable
