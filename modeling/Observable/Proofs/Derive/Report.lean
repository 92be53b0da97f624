import Mathlib.Data.List.Forall2
import Observable.Proofs.Derive.Agreement
import Observable.Proofs.Grammar.Shape
/-! What the check of a marked type reports: every marker that is misused, in the order of the
fields and of their attributes, and nothing else. -/
namespace Observable.Derive

open Grammar

/-- An attribute is a marker, its path being that one word. -/
def IsMarker (attr : Tree) : Prop := attr.attributePath?.any (·.pathIs Marker.name) = true

/-- An attribute is bare, or a group in which every argument gives a name that is not empty. -/
inductive IsProper (attr : Tree) : Prop
  | bare {path} (h : attr.attributeMeta? = some (.node (.metaItem .path) [path]))
  | list {path d body place close}
      (h : attr.attributeMeta? = some (.node (.metaItem .list)
        [path, .token (.group d body place close)]))
      (hgiven : IsGiven body)

/-- What is said of an attribute: what is wrong with the first of its arguments that cannot be used,
or that it has a value in place of arguments. -/
inductive Blamed (attr : Tree) : SyntaxError → Prop
  | argument {path d body place close e}
      (h : attr.attributeMeta? = some (.node (.metaItem .list)
        [path, .token (.group d body place close)]))
      (hmisgiven : Misgiven close body e) : Blamed attr e
  | value {path equals value}
      (h : attr.attributeMeta? = some (.node (.metaItem .nameValue) [path, equals, value])) :
      Blamed attr
        { place := (equals.tokens.head?.map Token.place).getD .start
          complaint := .custom "expected parentheses: #[ReactiveProperty(...)]" }

/-- A marker that is neither bare nor gives names only. -/
def IsMisused (attr : Tree) : Prop := IsMarker attr ∧ ¬ IsProper attr

theorem IsMarker.iff_pathIs {attr path : Tree} {form : MetaForm} {rest : List Tree}
    (h : attr.attributeMeta? = some (.node (.metaItem form) (path :: rest))) :
    IsMarker attr ↔ path.pathIs Marker.name = true := by
  simp [IsMarker, Tree.attributePath?, h]

theorem IsProper.of_list {attr path : Tree} {d : Delimiter} {body : List Token}
    {place close : Position}
    (h : attr.attributeMeta? = some (.node (.metaItem .list)
      [path, .token (.group d body place close)]))
    (hproper : IsProper attr) : IsGiven body := by
  cases hproper with
  | bare hbare =>
    rw [h] at hbare
    cases hbare
  | list hlist hgiven =>
    rw [h] at hlist
    cases hlist
    exact hgiven

theorem not_isProper_value {attr path equals value : Tree}
    (h : attr.attributeMeta? = some (.node (.metaItem .nameValue) [path, equals, value])) :
    ¬ IsProper attr := by
  rintro (hbare | hlist)
  · rw [h] at hbare
    cases hbare
  · rw [h] at hlist
    cases hlist

theorem withoutParentheses_eq {path equals : Tree} (h : path.pathIs Marker.name = true) :
    withoutParentheses path equals =
      { place := (equals.tokens.head?.map Token.place).getD .start
        complaint := .custom "expected parentheses: #[ReactiveProperty(...)]" } := by
  simp only [Tree.pathIs, Bool.and_eq_true, decide_eq_true_eq] at h
  rw [withoutParentheses, h.2]
  rfl

/-- Something is said of an attribute exactly when it is a marker that is misused. -/
theorem checkAttribute_cases {attr : Tree} (hattr : attr.IsAttribute) :
    (¬ IsMisused attr ∧ checkAttribute attr = none) ∨
      ∃ e, IsMisused attr ∧ Blamed attr e ∧ checkAttribute attr = some e := by
  obtain ⟨content, hmeta, hcontent⟩ := hattr.exists_meta
  obtain ⟨form, path, rest, rfl⟩ :
      ∃ form path rest, content = .node (.metaItem form) (path :: rest) := by
    cases hcontent <;> exact ⟨_, _, _, rfl⟩
  cases hmarker : path.pathIs Marker.name with
  | false =>
    refine .inl ⟨fun h => ?_, ?_⟩
    · rw [(IsMarker.iff_pathIs hmeta).mp h.1] at hmarker
      cases hmarker
    · simp [checkAttribute, hmeta, hmarker]
  | true =>
    have hmarked : IsMarker attr := (IsMarker.iff_pathIs hmeta).mpr hmarker
    cases hcontent with
    | path => exact .inl ⟨fun h => h.2 (.bare hmeta), by simp [checkAttribute, hmeta, hmarker]⟩
    | list _ d body place close =>
      rcases readArguments_cases body close with ⟨hgiven, found, hread⟩ | ⟨e, hmisgiven, hread⟩
      · exact .inl ⟨fun h => h.2 (.list hmeta hgiven), by
          simp [checkAttribute, hmeta, hmarker, hread]⟩
      · exact .inr ⟨e, ⟨hmarked, fun h => hmisgiven.not_isGiven (h.of_list hmeta)⟩,
          .argument hmeta hmisgiven, by simp [checkAttribute, hmeta, hmarker, hread]⟩
    | value _ equals value =>
      refine .inr ⟨_, ⟨hmarked, not_isProper_value hmeta⟩, .value hmeta, ?_⟩
      simp [checkAttribute, hmeta, hmarker, withoutParentheses_eq hmarker]

/-- What is said of an attribute is determined. -/
theorem Blamed.rightUnique : Relator.RightUnique Blamed := by
  intro attr e e' h h'
  cases h with
  | argument hmeta hmisgiven =>
    cases h' with
    | argument hmeta' hmisgiven' =>
      rw [hmeta] at hmeta'
      cases hmeta'
      exact hmisgiven.unique hmisgiven'
    | value hmeta' =>
      rw [hmeta] at hmeta'
      cases hmeta'
  | value hmeta =>
    cases h' with
    | argument hmeta' _ =>
      rw [hmeta] at hmeta'
      cases hmeta'
    | value hmeta' =>
      rw [hmeta] at hmeta'
      cases hmeta'
      rfl

open Classical in
/-- What is said of some attributes is said of those that are misused, one after the other. -/
theorem forall₂_checkAttribute {attrs : List Tree} (h : ∀ attr ∈ attrs, attr.IsAttribute) :
    List.Forall₂ Blamed (attrs.filter (IsMisused ·)) (attrs.filterMap checkAttribute) := by
  induction attrs with
  | nil => exact .nil
  | cons attr attrs ih =>
    have hrest := ih fun a ha => h a (List.mem_cons_of_mem attr ha)
    rcases checkAttribute_cases (h attr List.mem_cons_self) with
      ⟨hproper, hcheck⟩ | ⟨e, hmisused, hblamed, hcheck⟩
    · rw [List.filterMap_cons_none hcheck, List.filter_cons_of_neg (by simpa using hproper)]
      exact hrest
    · rw [List.filterMap_cons_some hcheck, List.filter_cons_of_pos (by simpa using hmisused)]
      exact .cons hblamed hrest

/-- Two markers of a type cannot be used. -/
example : ((Lexer.tokens ("struct S \x7b #[ReactiveProperty(a)] _x: u8, "
      ++ "#[ReactiveProperty(property_name = \"\")] _y: u8 \x7d").toList).toOption.map fun tokens =>
        (check tokens).map SyntaxError.message)
    = some ["unknown ReactiveProperty argument", "property_name cannot be empty"] := by
  decide +kernel

end Observable.Derive
