import Observable.Proofs.Field.Scan
import Observable.Proofs.Grammar.Frugal.Basic
/-! The name of each declared field is an identifier of its own, right between braces. -/
namespace Observable

open Grammar (Tree)
open Weighed

namespace PlacedField

/-- The names of some fields. -/
def names (fs : List PlacedField) : List (Option Token) := fs.map fun f => f.1.field.name?

theorem names_append (fs gs : List PlacedField) : names (fs ++ gs) = names fs ++ names gs :=
  List.map_append

theorem names_map (ds : List FieldDeclaration) (p : Standing) :
    names (ds.map (·, p)) = ds.map fun d => d.field.name? := by
  rw [names, List.map_map]
  rfl

mutual
/-- What the names of the fields weigh that a tree holds for the type around it. -/
def offer (w : Weight) : Tree → Nat
  | .group d _ _ parts => offers (w.inside d) parts
  | .node .field parts => weigh w (Grammar.Tree.node .field parts).name?
  | .node .namedFields parts => offers w parts
  | .node .variant parts => offers w parts
  | _ => 0

def offers (w : Weight) : List Tree → Nat
  | [] => 0
  | t :: ts => offer w t + offers w ts
end

variable {w : Weight}

theorem map_name?_ofFields (item : Tree) (inVariant : Bool) (fields : List Tree) :
    (FieldDeclaration.ofFields item inVariant fields).map (fun d => d.field.name?)
      = fields.map Tree.name? := by
  rw [FieldDeclaration.ofFields, List.map_map]
  conv_rhs => rw [← List.zipIdx_map_fst 0 fields, List.map_map]
  rfl

theorem weigh_names_filter (fields : List Tree) (test : Tree → Bool)
    (htest : ∀ t, test t = true → t.name? = none) :
    weigh w ((fields.filter test).map Tree.name?) = 0 := by
  induction fields with
  | nil => rfl
  | cons t fields ih =>
    rw [List.filter_cons]
    split
    · rename_i h
      rw [List.map_cons, weigh_cons, htest t h, weigh_none, Nat.zero_add, ih]
    · exact ih

theorem weigh_fields_le_offers (found : List Tree) :
    weigh w ((found.filter Tree.fields.isField).map Tree.name?) ≤ offers w found := by
  induction found with
  | nil => exact Nat.le_refl _
  | cons t found ih =>
    rw [List.filter_cons, offers]
    split
    · rename_i hfield
      obtain ⟨parts, rfl⟩ : ∃ parts, t = .node .field parts := by
        unfold Tree.fields.isField at hfield
        split at hfield
        · exact ⟨_, rfl⟩
        · cases hfield
      rw [List.map_cons, weigh_cons, offer]
      exact Nat.add_le_add_left ih _
    · exact Nat.le_add_left_of_le ih

/-- Whether a tree is a variant of an enum. -/
def isVariant : Tree → Bool
  | .node .variant _ => true
  | _ => false

/-- The fields of a type or of a variant stand in its parts. -/
theorem weigh_fields_le (kind : Grammar.Kind) (parts : List Tree) :
    weigh (w.inside .brace) ((Grammar.Tree.node kind parts).fields.map Tree.name?)
      ≤ offers w parts := by
  rw [Tree.fields]
  induction parts with
  | nil => exact Nat.le_refl _
  | cons part parts ih =>
    rw [List.flatMap_cons, List.map_append, weigh_append, offers]
    refine Nat.add_le_add ?_ ih
    split
    · rename_i found
      rw [offer, offers, offer, offers, Nat.add_zero]
      exact weigh_fields_le_offers found
    · rw [weigh_names_filter]
      · exact Nat.zero_le _
      · intro t ht
        simpa using (Bool.and_eq_true_iff.mp ht).2
    · exact Nat.zero_le _

/-- The variants of an enum, with their fields, stand between its braces. -/
theorem weigh_variants_le (d : Delimiter) (found : List Tree) :
    weigh (w.inside .brace)
        (((found.filter isVariant).flatMap fun v => v.fields).map Tree.name?)
      ≤ offers (w.inside d) found := by
  induction found with
  | nil => exact Nat.le_refl _
  | cons t found ih =>
    rw [List.filter_cons, offers]
    split
    · rename_i hvariant
      obtain ⟨parts, rfl⟩ : ∃ parts, t = .node .variant parts := by
        unfold isVariant at hvariant
        split at hvariant
        · exact ⟨_, rfl⟩
        · cases hvariant
      rw [List.flatMap_cons, List.map_append, weigh_append, offer]
      exact Nat.add_le_add (weigh_fields_le (w := w.inside d) .variant parts) ih
    · exact Nat.le_add_left_of_le ih

theorem weigh_ofItem_le (kind : Grammar.Kind) (parts : List Tree) :
    weigh (w.inside .brace)
        ((FieldDeclaration.ofItem (.node kind parts)).map fun d => d.field.name?)
      ≤ offers w parts := by
  unfold FieldDeclaration.ofItem
  split
  · rename_i heq
    cases heq
    rw [map_name?_ofFields]
    exact weigh_fields_le _ parts
  · rename_i heq
    cases heq
    rw [map_name?_ofFields]
    exact weigh_fields_le _ parts
  · rename_i heq
    cases heq
    simp only [List.map_flatMap, map_name?_ofFields]
    rw [Tree.variants]
    induction parts with
    | nil => exact Nat.le_refl _
    | cons part parts ih =>
      rw [List.flatMap_cons, List.flatMap_append, weigh_append, offers]
      refine Nat.add_le_add ?_ ih
      split
      · rename_i d _ _ found
        have hfound := weigh_variants_le (w := w) d found
        rw [List.map_flatMap] at hfound
        exact hfound
      · exact Nat.zero_le _
  · exact Nat.zero_le _

/-- A name is a part that holds its token and nothing else; the first one counts. -/
theorem name?_cons (kind : Grammar.Kind) (t : Tree) (ts : List Tree) :
    (∃ token, t = .node .name [.token token] ∧
    (Grammar.Tree.node kind (t :: ts)).name? = some token) ∨
      (Grammar.Tree.node kind (t :: ts)).name? = (Grammar.Tree.node kind ts).name? := by
  rw [Tree.name?, Tree.name?, List.findSome?_cons]
  split
  · rename_i token htoken
    split at htoken
    · cases htoken
      exact .inl ⟨_, rfl, rfl⟩
    · cases htoken
  · exact .inr rfl

mutual
/-- The names of the fields that are declared in a tree, and of those that it holds for the type
around it, are different identifiers in it. -/
theorem offer_add_names_le {w : Weight} (hw : w.declared = 0) (p : Standing) (t : Tree) :
    offer w t + weigh (w.inside .brace) (names (ofTree p t)) ≤ weigh w t := by
  cases t with
  | token t => exact Nat.zero_le _
  | group d place close parts =>
    rw [offer, ofTree, Tree.weigh_group]
    exact offers_add_names_le (w := w.inside d) hw p parts
  | node kind parts =>
    have hitem := weigh_ofItem_le (w := w) kind parts
    have hparts := offers_add_names_le hw (p.inside (.node kind parts)) parts
    rw [ofTree, names_append, names_map, weigh_append, Tree.weigh_node_of_declared hw]
    unfold offer
    split
    · rename_i heq
      cases heq
    · rename_i heq
      cases heq
      have hnone : FieldDeclaration.ofItem (.node .field parts) = [] := rfl
      rw [hnone, List.map_nil, weigh_nil, Nat.zero_add]
      exact name_add_names_le hw (p.inside (.node .field parts)) parts
    · rename_i heq
      cases heq
      have hnone : FieldDeclaration.ofItem (.node .namedFields parts) = [] := rfl
      rw [hnone, List.map_nil, weigh_nil, Nat.zero_add]
      exact hparts
    · rename_i heq
      cases heq
      have hnone : FieldDeclaration.ofItem (.node .variant parts) = [] := rfl
      rw [hnone, List.map_nil, weigh_nil, Nat.zero_add]
      exact hparts
    · omega

theorem offers_add_names_le {w : Weight} (hw : w.declared = 0) (p : Standing) (ts : List Tree) :
    offers w ts + weigh (w.inside .brace) (names (ofTrees p ts)) ≤ weigh w ts := by
  cases ts with
  | nil => exact Nat.le_refl _
  | cons t ts =>
    have htree := offer_add_names_le hw p t
    have htrees := offers_add_names_le hw p ts
    rw [offers, ofTrees, names_append, weigh_append, weigh_cons]
    omega

/-- The name of a field is none of the names that are declared in its parts. -/
theorem name_add_names_le {w : Weight} (hw : w.declared = 0) (p : Standing) (ts : List Tree) :
    weigh w (Grammar.Tree.node .field ts).name? + weigh (w.inside .brace) (names (ofTrees p ts))
      ≤ weigh w ts := by
  cases ts with
  | nil => exact Nat.le_refl _
  | cons t ts =>
    have htree := offer_add_names_le hw p t
    have htrees := offers_add_names_le hw p ts
    have hname := name_add_names_le hw p ts
    rw [ofTrees, names_append, weigh_append, weigh_cons]
    rcases name?_cons .field t ts with ⟨token, rfl, htoken⟩ | hrest
    · have hnone : names (ofTree p (.node .name [.token token])) = [] := rfl
      rw [htoken, hnone, weigh_some, weigh_nil, Tree.weigh_node_of_declared hw, weigh_cons,
        Tree.weigh_token, weigh_nil]
      omega
    · rw [hrest]
      omega
end

/-- The names of all fields that a file declares are different identifiers of its text, each right
between braces. -/
theorem weigh_names_ofFile_le {w : Weight} (hw : w.declared = 0) (f : SourceFile) :
    weigh (w.inside .brace) (names (ofFile f))
      ≤ weigh w (f.syntaxTree.attributes ++ f.syntaxTree.items) := by
  have hall := offers_add_names_le hw ⟨⟨f.path, f.scope, false⟩, false⟩
    (f.syntaxTree.attributes ++ f.syntaxTree.items)
  exact Nat.le_trans (Nat.le_add_left _ _) hall

end PlacedField

end Observable
