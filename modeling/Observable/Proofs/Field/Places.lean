import Observable.Proofs.Field.Scan
import Observable.Proofs.Layout.Places
/-! What a scan finds depends on how a source is spelled, and not on where its tokens stand. -/
namespace Observable

namespace Grammar

mutual
/-- A tree whose tokens stand nowhere. -/
def Tree.placeless : Tree → Tree
  | .token t => .token t.unplaced
  | .group d _ _ parts => .group d .start .start (placelessTrees parts)
  | .node kind parts => .node kind (placelessTrees parts)

/-- Trees whose tokens stand nowhere. -/
def placelessTrees : List Tree → List Tree
  | [] => []
  | t :: ts => t.placeless :: placelessTrees ts
end

mutual
/-- Whether two trees are spelled alike, wherever they stand. -/
def Tree.sameAs : Tree → Tree → Bool
  | .token t, .token t' => t.sameAs t'
  | .group d _ _ parts, .group d' _ _ parts' => d == d' && sameTrees parts parts'
  | .node kind parts, .node kind' parts' => kind == kind' && sameTrees parts parts'
  | _, _ => false

/-- Whether two rows of trees are spelled alike. -/
def sameTrees : List Tree → List Tree → Bool
  | [], [] => true
  | t :: ts, u :: us => t.sameAs u && sameTrees ts us
  | _, _ => false
end

mutual
/-- Two trees are spelled alike exactly when they differ in nothing but their places. -/
theorem Tree.sameAs_iff (t u : Tree) : t.sameAs u = true ↔ t.placeless = u.placeless := by
  cases t with
  | token t => cases u <;> simp [Tree.sameAs, Tree.placeless, Token.sameAs_iff]
  | group d p q parts =>
    cases u with
    | group d' p' q' parts' => simp [Tree.sameAs, Tree.placeless, sameTrees_iff parts parts']
    | _ => simp [Tree.sameAs, Tree.placeless]
  | node kind parts =>
    cases u with
    | node kind' parts' => simp [Tree.sameAs, Tree.placeless, sameTrees_iff parts parts']
    | _ => simp [Tree.sameAs, Tree.placeless]

/-- Two rows of trees are spelled alike exactly when they differ in nothing but their places. -/
theorem sameTrees_iff (ts us : List Tree) :
    sameTrees ts us = true ↔ placelessTrees ts = placelessTrees us := by
  cases ts with
  | nil => cases us <;> simp [sameTrees, placelessTrees]
  | cons t ts =>
    cases us with
    | nil => simp [sameTrees, placelessTrees]
    | cons u us => simp [sameTrees, placelessTrees, Tree.sameAs_iff t u, sameTrees_iff ts us]
end

theorem placelessTrees_eq_map (ts : List Tree) : placelessTrees ts = ts.map Tree.placeless := by
  induction ts with
  | nil => rfl
  | cons t ts ih => rw [placelessTrees, ih, List.map_cons]

theorem placelessTrees_append (ts us : List Tree) :
    placelessTrees (ts ++ us) = placelessTrees ts ++ placelessTrees us := by
  simp only [placelessTrees_eq_map, List.map_append]

mutual
theorem Tree.tokens_placeless (t : Tree) : t.placeless.tokens = unplacedTokens t.tokens := by
  cases t with
  | token t => rfl
  | group d p q parts =>
    simp only [Tree.placeless, Tree.tokens, unplacedTokens, Token.unplaced,
      treesTokens_placeless parts]
  | node kind parts => exact treesTokens_placeless parts

theorem treesTokens_placeless (ts : List Tree) :
    treesTokens (placelessTrees ts) = unplacedTokens (treesTokens ts) := by
  cases ts with
  | nil => rfl
  | cons t ts =>
    rw [placelessTrees, treesTokens, Tree.tokens_placeless t, treesTokens_placeless ts, treesTokens,
      unplacedTokens_append]
end

/-- What a search for a part finds that does not look at places. -/
theorem findSome?_placelessTrees {α : Type} {f : Tree → Option α} {g : α → α}
    (hf : ∀ t : Tree, f t.placeless = (f t).map g) (ts : List Tree) :
    (placelessTrees ts).findSome? f = (ts.findSome? f).map g := by
  induction ts with
  | nil => rfl
  | cons t ts ih =>
    rw [placelessTrees, List.findSome?_cons, List.findSome?_cons, hf]
    cases f t with
    | none => exact ih
    | some a => rfl

theorem filter_placelessTrees {test : Tree → Bool} (h : ∀ t : Tree, test t.placeless = test t)
    (ts : List Tree) : (placelessTrees ts).filter test = placelessTrees (ts.filter test) := by
  rw [placelessTrees_eq_map, List.filter_map, placelessTrees_eq_map]
  exact congrArg _ (List.filter_congr fun t _ => h t)

theorem find?_placelessTrees {test : Tree → Bool} (h : ∀ t : Tree, test t.placeless = test t)
    (ts : List Tree) : (placelessTrees ts).find? test = (ts.find? test).map Tree.placeless := by
  rw [placelessTrees_eq_map, List.find?_map, show test ∘ Tree.placeless = test from funext h]

/-- What follows the first tree that fails a test. -/
theorem drop_dropWhile_placelessTrees {test : Tree → Bool}
    (h : ∀ t : Tree, test t.placeless = test t) (ts : List Tree) :
    ((placelessTrees ts).dropWhile test).drop 1 = placelessTrees ((ts.dropWhile test).drop 1) := by
  rw [placelessTrees_eq_map, placelessTrees_eq_map, List.dropWhile_map,
    show test ∘ Tree.placeless = test from funext h, List.map_drop]

theorem flatMap_placelessTrees {f : Tree → List Tree}
    (hf : ∀ t : Tree, f t.placeless = placelessTrees (f t)) (ts : List Tree) :
    (placelessTrees ts).flatMap f = placelessTrees (ts.flatMap f) := by
  induction ts with
  | nil => rfl
  | cons t ts ih =>
    rw [placelessTrees, List.flatMap_cons, List.flatMap_cons, hf, ih, placelessTrees_append]

end Grammar

open Grammar

@[simp] theorem Token.spelling_unplaced (t : Token) : t.unplaced.spelling = t.spelling := by
  cases t <;> rfl

namespace Grammar.Tree

variable (t : Tree)

@[simp] theorem spelling_placeless : t.placeless.spelling = t.spelling := by
  cases t with
  | token t => exact t.spelling_unplaced
  | _ => rfl

@[simp] theorem isPresent_placeless : t.placeless.isPresent = t.isPresent := by
  cases t with
  | node kind parts => cases kind <;> cases parts <;> rfl
  | _ => rfl

theorem name?_placeless : t.placeless.name? = t.name?.map Token.unplaced := by
  cases t with
  | node kind parts =>
    refine findSome?_placelessTrees (fun t => ?_) parts
    cases t with
    | node kind parts => rcases parts with _ | ⟨_ | _ | _, _ | _⟩ <;> cases kind <;> rfl
    | _ => rfl
  | _ => rfl

@[simp] theorem nameText_placeless : t.placeless.nameText = t.nameText := by
  rw [nameText, name?_placeless, Option.map_map, nameText]
  exact congrArg (·.getD "") (congrArg (t.name?.map ·) (funext Token.spelling_unplaced))

theorem partsAfter_placeless (keyword : String) (parts : List Tree) :
    partsAfter keyword (placelessTrees parts) = placelessTrees (partsAfter keyword parts) := by
  unfold partsAfter
  refine drop_dropWhile_placelessTrees (fun t => ?_) parts
  rcases t with (⟨_ | _, _, _⟩ | _ | _ | _) | _ | _ <;> rfl

theorem pathIdents_placeless : t.placeless.pathIdents = t.pathIdents := by
  cases t with
  | node kind parts =>
    cases kind with
    | path =>
      rw [placeless, pathIdents, placelessTrees_eq_map, List.filterMap_map]
      refine List.filterMap_congr fun t _ => ?_
      rcases t with _ | _ | ⟨kind, parts⟩ <;> try rfl
      cases kind <;> rcases parts with _ | ⟨(_ | _ | _ | _) | _ | _, _⟩ <;> rfl
    | _ => rfl
  | _ => rfl

@[simp] theorem pathWords_placeless : t.placeless.pathWords = t.pathWords := by
  rw [pathWords, pathIdents_placeless, pathWords]

@[simp] theorem pathIsGlobal_placeless : t.placeless.pathIsGlobal = t.pathIsGlobal := by
  cases t with
  | node kind parts =>
    cases kind <;> try rfl
    cases parts with
    | nil => rfl
    | cons leading rest => exact leading.isPresent_placeless
  | _ => rfl

theorem attributeMeta?_placeless : t.placeless.attributeMeta? = t.attributeMeta?.map placeless := by
  cases t with
  | node kind parts =>
    cases kind <;> try rfl
    refine findSome?_placelessTrees (fun t => ?_) parts
    rcases t with _ | ⟨d, p, q, parts⟩ | _
    case group =>
      rcases parts with _ | ⟨_ | _ | ⟨kind, _⟩, _ | _⟩ <;> cases d <;> try rfl
      all_goals cases kind <;> rfl
    all_goals rfl
  | _ => rfl

theorem attributePath?_placeless : t.placeless.attributePath? = t.attributePath?.map placeless := by
  rw [attributePath?, attributeMeta?_placeless, attributePath?, Option.bind_map, Option.map_bind]
  refine congrArg _ (funext fun m => ?_)
  rcases m with _ | _ | ⟨_, _ | _⟩ <;> rfl

theorem groupTokens_placeless : t.placeless.groupTokens = unplacedTokens t.groupTokens := by
  rcases t with (_ | _ | _ | _) | _ | _ <;> rfl

theorem isOuterAttribute_placeless : t.placeless.isOuterAttribute = t.isOuterAttribute := by
  rcases t with _ | _ | ⟨kind, _⟩ <;> try rfl
  cases kind <;> try rfl
  rename_i inner
  cases inner <;> rfl

theorem attributes_placeless : t.placeless.attributes = placelessTrees t.attributes := by
  cases t with
  | node kind parts => exact filter_placelessTrees isOuterAttribute_placeless parts
  | _ => rfl

theorem declaredVisibility_placeless :
    t.placeless.declaredVisibility = t.declaredVisibility.placeless := by
  cases t with
  | node kind parts =>
    rw [placeless, declaredVisibility, find?_placelessTrees, declaredVisibility]
    · cases parts.find? _ <;> rfl
    · rintro (_ | _ | ⟨kind, _⟩) <;> try rfl
      cases kind <;> rfl
  | _ => rfl

theorem fieldType_placeless : t.placeless.fieldType = t.fieldType.placeless := by
  cases t with
  | node kind parts =>
    cases kind <;> try rfl
    rw [placeless, fieldType, placelessTrees_eq_map, List.getLast?_map, fieldType]
    cases parts.getLast? <;> rfl
  | _ => rfl

theorem fields_placeless : t.placeless.fields = placelessTrees t.fields := by
  cases t with
  | node kind parts =>
    refine flatMap_placelessTrees (fun t => ?_) parts
    have hfield : ∀ t : Tree, fields.isField t.placeless = fields.isField t := by
      rintro (_ | _ | ⟨kind, _⟩) <;> try rfl
      cases kind <;> rfl
    rcases t with _ | _ | ⟨kind, _ | ⟨_ | ⟨delimiter, _, _, _⟩ | _, _ | _⟩⟩ <;>
      cases kind <;> try rfl
    all_goals cases delimiter <;> try rfl
    · exact filter_placelessTrees hfield _
    · refine filter_placelessTrees (fun t => ?_) _
      rw [hfield, name?_placeless, Option.isNone_map]
  | _ => rfl

theorem variants_placeless : t.placeless.variants = placelessTrees t.variants := by
  cases t with
  | node kind parts =>
    rcases kind with _ | _ | _ | _ | _ | _ | _ | _ | _ | _ | _ | _ | _ | _ | _ | _ | _ | _ | _ | _ |
      _ | _ | _ | _ | _ | _ | _ | _ | form <;> try rfl
    cases form <;> try rfl
    refine flatMap_placelessTrees (fun t => ?_) parts
    rcases t with _ | _ | _ <;> try rfl
    refine filter_placelessTrees ?_ _
    rintro (_ | _ | ⟨kind, _⟩) <;> try rfl
    cases kind <;> rfl
  | _ => rfl

@[simp] theorem isGeneric_placeless : t.placeless.isGeneric = t.isGeneric := by
  cases t with
  | node kind parts =>
    rw [placeless, isGeneric, placelessTrees_eq_map, List.any_map, isGeneric]
    refine congrArg parts.any (funext fun t => ?_)
    rcases t with _ | _ | ⟨kind, _ | _⟩ <;> try rfl
    all_goals cases kind <;> rfl
  | _ => rfl

end Grammar.Tree

namespace Binding

mutual
theorem ofTree_placeless (words : List String) (t : Tree) :
    ofTree words t.placeless = ofTree words t := by
  cases t with
  | token t => rfl
  | group d p q parts => exact ofTrees_placeless words parts
  | node kind parts =>
    cases kind <;> try rfl
    rename_i form
    cases form with
    | path =>
      cases parts with
      | nil => rfl
      | cons name rest =>
        change ofTrees (words ++ [name.placeless.spelling]) (placelessTrees rest) = _
        rw [name.spelling_placeless]
        exact ofTrees_placeless _ rest
    | name =>
      rcases parts with _ | ⟨name, _ | _⟩ <;> try rfl
      simp only [Tree.placeless, placelessTrees, ofTree, name.spelling_placeless]
    | rename =>
      rcases parts with _ | ⟨name, _ | ⟨_, _ | ⟨rename, _ | _⟩⟩⟩ <;> try rfl
      simp only [Tree.placeless, placelessTrees, ofTree, name.spelling_placeless,
        rename.spelling_placeless]
    | group => exact ofTrees_placeless words parts
    | glob => rfl

theorem ofTrees_placeless (words : List String) (ts : List Tree) :
    ofTrees words (placelessTrees ts) = ofTrees words ts := by
  cases ts with
  | nil => rfl
  | cons t ts =>
    rw [placelessTrees, ofTrees, ofTree_placeless words t, ofTrees_placeless words ts, ofTrees]
end

theorem ofItem_placeless (item : Tree) : ofItem item.placeless = ofItem item := by
  cases item with
  | node kind parts =>
    cases kind <;> try rfl
    rename_i form
    cases form <;> try rfl
    rw [Tree.placeless, ofItem, Tree.partsAfter_placeless, ofItem]
    rcases Tree.partsAfter "use" parts with _ | ⟨leading, _ | ⟨tree, _⟩⟩ <;> try rfl
    simp only [placelessTrees, leading.isPresent_placeless, ofTree_placeless]
  | _ => rfl

end Binding

theorem Scope.ofItems_placeless (module : ModulePath) (items : List Tree) :
    ofItems module (placelessTrees items) = ofItems module items := by
  have hname : (fun item : Tree => item.placeless.name?.map Token.spelling)
      = fun item => item.name?.map Token.spelling := by
    funext item
    rw [item.name?_placeless, Option.map_map]
    exact congrArg (item.name?.map ·) (funext Token.spelling_unplaced)
  have hbindings : (fun item : Tree => Binding.ofItem item.placeless) = Binding.ofItem :=
    funext Binding.ofItem_placeless
  simp only [ofItems, placelessTrees_eq_map, List.flatMap_map, List.filterMap_map,
    Function.comp_def, hname, hbindings]

theorem Accessibility.ofVisibility_placeless (vis : Tree) :
    ofVisibility vis.placeless = ofVisibility vis := by
  have hinherited : vis.placeless.isInherited = vis.isInherited := by
    rcases vis with _ | _ | ⟨kind, _ | _⟩ <;> try rfl
    all_goals cases kind <;> rfl
  have hrestriction : restriction? vis.placeless = (restriction? vis).map Tree.placeless := by
    rcases vis with _ | _ | ⟨kind, parts⟩ <;> try rfl
    cases kind <;> try rfl
    refine findSome?_placelessTrees (fun t => ?_) parts
    rcases t with _ | ⟨_, _, _, inner⟩ | _ <;> try rfl
    refine find?_placelessTrees (fun t => ?_) inner
    rcases t with _ | _ | ⟨kind, _⟩ <;> try rfl
    cases kind <;> rfl
  rw [ofVisibility, hinherited, hrestriction, ofVisibility]
  cases restriction? vis <;> simp

theorem Marker.marks_placeless (scope : Scope) (attr : Tree) :
    marks scope attr.placeless = marks scope attr := by
  rw [marks, attr.attributePath?_placeless, marks]
  cases attr.attributePath? <;> simp [Scope.resolvePath]

/-- The name that a marker carries is told by its spelling. -/
theorem Marker.nameOf_placeless (attr : Tree) : nameOf attr.placeless = nameOf attr := by
  have hgroup : ∀ t : Tree, readArguments t.placeless.groupTokens
      = readArguments t.groupTokens := by
    intro t
    rw [t.groupTokens_placeless, readArguments, unplacedTokens_unplacedTokens, readArguments]
  rw [nameOf, attr.attributeMeta?_placeless, nameOf]
  rcases attr.attributeMeta? with _ | _ | _ | ⟨kind, parts⟩ <;> try rfl
  cases kind <;> try rfl
  rename_i form
  cases form <;> try rfl
  match parts with
  | [path, group] => simp only [Option.map_some, Tree.placeless, placelessTrees, hgroup]
  | [] | [_] | _ :: _ :: _ :: _ => rfl

/-- A location that tells nothing. -/
def Location.nowhere : Location := ⟨"", .start⟩

/-- A candidate without the places of its declaration. -/
def Candidate.unlocated (c : Candidate) : Candidate :=
  { c with type := unplacedTokens c.type, location := .nowhere }

/-- A problem without the place that it is about. -/
def Diagnostic.unlocated (d : Diagnostic) : Diagnostic :=
  { d with location := d.location.map fun _ => .nowhere }

namespace Findings

/-- Findings without the places that they were made at. -/
def unlocated (f : Findings) : Findings :=
  ⟨f.candidates.map Candidate.unlocated, f.diagnostics.map Diagnostic.unlocated⟩

@[simp] theorem unlocated_append (a b : Findings) :
    (a ++ b).unlocated = a.unlocated ++ b.unlocated := by
  change (append a b).unlocated = append a.unlocated b.unlocated
  simp [append, unlocated]

theorem unlocated_join (all : List Findings) :
    (join all).unlocated = join (all.map unlocated) := by
  induction all with
  | nil => rfl
  | cons a all ih => rw [join_cons, unlocated_append, ih, List.map_cons, join_cons]

end Findings

/-- A field whose declaration stands nowhere. -/
def FieldDeclaration.placeless (d : FieldDeclaration) : FieldDeclaration :=
  { d with field := d.field.placeless }

namespace FieldDeclaration

theorem ofFields_placeless (item : Tree) (inVariant : Bool) (fields : List Tree) :
    ofFields item.placeless inVariant (placelessTrees fields)
      = (ofFields item inVariant fields).map placeless := by
  have hname := item.nameText_placeless
  rw [Tree.nameText, Tree.nameText] at hname
  rw [ofFields, ofFields, placelessTrees_eq_map, List.zipIdx_map, List.map_map, List.map_map]
  simp only [hname, item.isGeneric_placeless]
  rfl

theorem ofItem_placeless (item : Tree) : ofItem item.placeless = (ofItem item).map placeless := by
  cases item with
  | node kind parts =>
    cases kind <;> try rfl
    rename_i form
    have hfields := (Grammar.Tree.node (.item form) parts).fields_placeless
    have hvariants := (Grammar.Tree.node (.item form) parts).variants_placeless
    cases form <;> try rfl
    all_goals rw [Tree.placeless] at hfields hvariants
    · let item : Tree := .node (.item .enumeration) parts
      have heach : ∀ v : Tree, ofFields item.placeless true v.placeless.fields
          = (ofFields item true v.fields).map placeless := by
        intro v
        rw [v.fields_placeless]
        exact ofFields_placeless item true v.fields
      rw [Tree.placeless, ofItem, hvariants, placelessTrees_eq_map item.variants, List.flatMap_map,
        ofItem, List.map_flatMap]
      exact List.flatMap_congr fun v _ => heach v
    · rw [Tree.placeless, ofItem, hfields]
      exact ofFields_placeless (.node (.item .struct) parts) false _
    · rw [Tree.placeless, ofItem, hfields]
      exact ofFields_placeless (.node (.item .union) parts) false _
  | _ => rfl

/-- What a field gives is told by its spelling, but for the places that are told with it. -/
theorem unlocated_scan_placeless (d : FieldDeclaration) (file file' : String) (scope : Scope)
    (inBlock : Bool) :
    (d.placeless.scan ⟨file', scope, inBlock⟩).unlocated
      = (d.scan ⟨file, scope, inBlock⟩).unlocated := by
  have hmarkers : d.placeless.field.attributes.filter (Marker.marks scope)
      = placelessTrees (d.field.attributes.filter (Marker.marks scope)) := by
    rw [placeless, d.field.attributes_placeless]
    exact filter_placelessTrees (Marker.marks_placeless scope) _
  have haccess : d.placeless.accessibility = d.accessibility := by
    simp only [accessibility, placeless, Tree.declaredVisibility_placeless, Accessibility.ofField,
      Accessibility.ofVisibility_placeless]
  have hresolve : d.placeless.resolve ⟨file', scope, inBlock⟩
      = d.resolve ⟨file, scope, inBlock⟩ := by
    simp only [resolve, placeless, Tree.name?_placeless]
    rcases d.field.name? with _ | (_ | _ | _ | _) <;> rfl
  have htype : unplacedTokens d.placeless.field.fieldType.tokens
      = unplacedTokens d.field.fieldType.tokens := by
    rw [placeless, Tree.fieldType_placeless, Tree.tokens_placeless, unplacedTokens_unplacedTokens]
  have hrepeated : ∀ name count location location',
      (repeated name count location).map Diagnostic.unlocated
        = (repeated name count location').map Diagnostic.unlocated := by
    intro name count location location'
    unfold repeated
    split <;> rfl
  rw [scan, scan, hmarkers, haccess, hresolve]
  cases d.field.attributes.filter (Marker.marks scope) with
  | nil => rfl
  | cons first more =>
    dsimp only [placelessTrees]
    rw [Marker.nameOf_placeless, placelessTrees_eq_map, List.length_map]
    by_cases hconfined : d.accessibility = .confined
    · rw [if_neg (not_not_intro hconfined), if_neg (not_not_intro hconfined)]
      cases d.resolve ⟨file, scope, inBlock⟩ with
      | error e => rfl
      | ok found =>
        dsimp only
        cases Marker.nameOf first with
        | error e => rfl
        | ok argument =>
          simp only [Findings.unlocated, List.map_cons, List.map_nil, Candidate.unlocated, htype]
          exact congrArg _ (hrepeated _ _ _ _)
    · rw [if_pos hconfined, if_pos hconfined]

end FieldDeclaration

namespace Standing

/-- The same place in another file. -/
def inFile (p : Standing) (file : String) : Standing :=
  { p with surroundings := { p.surroundings with file } }

theorem moduleItems?_placeless (parts : List Tree) :
    Step.moduleItems? (placelessTrees parts) = (Step.moduleItems? parts).map placelessTrees := by
  refine findSome?_placelessTrees (fun t => ?_) parts
  rcases t with _ | ⟨d, _, _, _⟩ | _ <;> try rfl
  cases d <;> rfl

theorem inside_inFile (p : Standing) (file : String) (t : Tree) :
    (p.inFile file).inside t.placeless = (p.inside t).inFile file := by
  cases t with
  | node kind parts =>
    cases kind <;> try rfl
    rename_i form
    cases form <;> try rfl
    have hname := (Grammar.Tree.node (.item .module) parts).nameText_placeless
    rw [Tree.placeless] at hname
    simp only [Tree.placeless, inside, moduleItems?_placeless, hname]
    cases Step.moduleItems? parts with
    | none => rfl
    | some items => simp only [Option.map_some, Scope.ofItems_placeless, inFile]
  | _ => rfl

end Standing

namespace PlacedField

mutual
/-- The fields declared in a tree are told by its spelling, but for the places of their
declarations. -/
theorem ofTree_placeless (p : Standing) (file : String) (t : Tree) :
    ofTree (p.inFile file) t.placeless = (ofTree p t).map fun f =>
      (f.1.placeless, f.2.inFile file) := by
  cases t with
  | token t => rfl
  | group d q r parts => exact ofTrees_placeless p file parts
  | node kind parts =>
    have hfields := FieldDeclaration.ofItem_placeless (.node kind parts)
    have hinside := p.inside_inFile file (.node kind parts)
    rw [Tree.placeless] at hfields hinside
    rw [Tree.placeless, ofTree, hfields, hinside, ofTrees_placeless, ofTree, List.map_append,
      List.map_map, List.map_map]
    rfl

theorem ofTrees_placeless (p : Standing) (file : String) (ts : List Tree) :
    ofTrees (p.inFile file) (placelessTrees ts)
      = (ofTrees p ts).map fun f => (f.1.placeless, f.2.inFile file) := by
  cases ts with
  | nil => rfl
  | cons t ts =>
    rw [placelessTrees, ofTrees, ofTree_placeless p file t, ofTrees_placeless p file ts, ofTrees,
      List.map_append]
end

/-- What is found in some trees. -/
def given (p : Standing) (ts : List Tree) : Findings := found (ofTrees p ts)

theorem unlocated_given_placeless (p : Standing) (file : String) (ts : List Tree) :
    (given (p.inFile file) (placelessTrees ts)).unlocated = (given p ts).unlocated := by
  have hscan : ∀ f : PlacedField,
      (scan (f.1.placeless, f.2.inFile file)).unlocated = f.scan.unlocated :=
    fun f => f.1.unlocated_scan_placeless _ _ _ _
  rw [given, ofTrees_placeless, given, found, found, Findings.unlocated_join,
    Findings.unlocated_join, reached, List.filter_map, List.map_map, List.map_map, List.map_map]
  exact congrArg _ (List.map_congr_left fun f _ => hscan f)

/-- What is found in some trees is told by their spelling, wherever they and their file are. -/
theorem unlocated_given (p : Standing) (file : String) {ts us : List Tree}
    (h : sameTrees ts us = true) :
    (given p ts).unlocated = (given (p.inFile file) us).unlocated := by
  rw [← unlocated_given_placeless p file ts, (sameTrees_iff ts us).mp h,
    ← unlocated_given_placeless (p.inFile file) file us]
  rfl

end PlacedField

end Observable
