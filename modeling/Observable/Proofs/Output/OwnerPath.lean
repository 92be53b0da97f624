import Observable.Proofs.Layout.Spelling
import Observable.Proofs.Output.Naming
import Observable.Proofs.Output.Tame
/-! The path by which an owner is named in generated text. -/
namespace Observable

open Grammar (Rules Reads PathRow separated)
open Lexer (isWord Spells)

/-- On tokens that are some others up to places and soft spacing, a reader of these gets all. -/
theorem Grammar.readAll_of_reads {α : Type} {p : Rules → Parser α} {ts us : List Token}
    {good : α → Prop} (h : Reads (p (Rules.enough ts)) us [] good) (hts : easedTokens ts = us) :
    ∃ a, readAll ts p = .ok a ∧ good a := by
  obtain ⟨a, s, hp, hleftover, hrest, ha⟩ := h ⟨ts, .start, .invisible, none⟩ rfl hts
  have hrest : s.rest = [] := easedTokens_eq_nil.mp hrest
  refine ⟨a, ?_, ha⟩
  rw [readAll, readUpTo, hp]
  simp [Input.settled, hleftover, hrest]

/-- The tokens of a path of bare names. -/
def namesTokens (names : List String) : List Token :=
  separated (Quote.op "::") false (names.map fun name => [Quote.word name])

theorem namesTokens_cons (name : String) {names : List String} (hne : names ≠ []) :
    namesTokens (name :: names) = Quote.word name :: (Quote.op "::" ++ namesTokens names) := by
  cases names with
  | nil => exact absurd rfl hne
  | cons => rfl

theorem unplaced_namesTokens (names : List String) :
    unplacedTokens (namesTokens names) = namesTokens names := by
  induction names with
  | nil => rfl
  | cons name names ih =>
    cases names with
    | nil => rfl
    | cons next names =>
      rw [namesTokens_cons name (List.cons_ne_nil _ _)]
      simp only [unplacedTokens, unplacedTokens_append, ih]
      rfl

theorem tameRow_namesTokens {names : List String} (h : ∀ name ∈ names, isWord false name = true) :
    TameRow (namesTokens names) := by
  refine .colons fun row hrow => ?_
  obtain ⟨name, hname, rfl⟩ := List.mem_map.mp hrow
  exact ⟨.quoted (h name hname), _, _, _, _, rfl⟩

/-- Names with `::` between them spell a path. -/
theorem spells_namesTokens {names : List String} (hne : names ≠ [])
    (h : ∀ name ∈ names, isWord false name = true) :
    Spells ("::".toList.intercalate (names.map String.toList)) (namesTokens names) [] := by
  induction names with
  | nil => exact absurd rfl hne
  | cons name names ih =>
    obtain ⟨hname, hnames⟩ := List.forall_mem_cons.mp h
    cases names with
    | nil =>
      have hspells := Spells.word hname (show Lexer.stopsWord [] = true from rfl) (.done [])
      simpa [List.intercalate, namesTokens, separated, Token.identText, Quote.word, Quote.nowhere]
        using hspells
    | cons next names =>
      let rest := "::".toList.intercalate ((next :: names).map String.toList)
      have hrest : Spells rest (namesTokens (next :: names)) [] := ih (List.cons_ne_nil _ _) hnames
      have halone : Lexer.spacingBefore rest = .alone := by
        obtain ⟨tail, htail⟩ : ∃ tail, rest = (Token.identText false next).toList ++ tail := by
          cases names with
          | nil => exact ⟨[], by simp [rest, List.intercalate, Token.identText]⟩
          | cons other names =>
            refine ⟨"::".toList ++ "::".toList.intercalate ((other :: names).map String.toList), ?_⟩
            simp only [rest, List.map_cons, List.intercalate_cons_cons, List.append_assoc]
            rfl
        rw [Lexer.spacingBefore, htail, Layout.punctAhead_word (List.forall_mem_cons.mp hnames).1]
        rfl
      obtain ⟨hcolon, -, hjoint⟩ := isPair_marks (show isPair ':' ':' = true from rfl)
      have hcolons := Spells.mark hcolon (.mark hcolon hrest)
      rw [halone, hjoint] at hcolons
      rw [namesTokens_cons name (List.cons_ne_nil _ _), List.map_cons, List.map_cons,
        List.intercalate_cons_cons, List.append_assoc]
      exact .word hname rfl hcolons

theorem pathRow_name {rules : Rules} {name : String} (h : Grammar.isIdentifier false name = true) :
    PathRow rules false [Quote.word name] :=
  ⟨⟨false, name, [], rfl⟩, fun _ hvs => Grammar.reads_segment_bare h hvs⟩

namespace Owner

/-- The names that lead to an owner from the root of its crate. -/
def pathNames (o : Owner) : List String := "crate" :: (o.module.segments ++ [o.name])

/-- An owner with a plain name, in modules with such names. -/
structure IsPlain (o : Owner) : Prop where
  modules : ∀ segment ∈ o.module.segments, IsPlainName segment
  name : IsPlainName o.name

variable {o : Owner}

theorem toList_display (h : o.module.isRoot = false) :
    o.display.toList = "::".toList.intercalate (o.pathNames.map String.toList) := by
  have hconcat : ∀ segments : List String, segments ≠ [] →
      "::".toList.intercalate (segments.map String.toList) ++ ("::".toList ++ o.name.toList)
        = "::".toList.intercalate ((segments ++ [o.name]).map String.toList) := by
    intro segments hne
    induction segments with
    | nil => exact absurd rfl hne
    | cons segment segments ih =>
      cases segments with
      | nil => simp [List.intercalate]
      | cons next segments =>
        have ih := ih (List.cons_ne_nil _ _)
        simp only [List.cons_append, List.map_cons, List.intercalate_cons_cons,
          List.append_assoc] at ih ⊢
        rw [ih]
  have hne : o.module.segments ≠ [] := by simpa [ModulePath.isRoot] using h
  obtain ⟨segment, segments, hsegments⟩ := List.exists_cons_of_ne_nil hne
  have hmodule : o.module.display = "::".intercalate o.module.segments := by
    rw [ModulePath.display, h, if_neg Bool.false_ne_true]
  have hcrate : o.pathNames = "crate" :: segment :: (segments ++ [o.name]) := by
    rw [pathNames, hsegments]
    rfl
  rw [display, h, if_neg Bool.false_ne_true, hmodule, hcrate, List.map_cons, List.map_cons,
    List.intercalate_cons_cons, ← List.map_cons, ← List.cons_append, ← hsegments, ← hconcat _ hne]
  simp only [String.toList_append, String.toList_intercalate, List.append_assoc]
  rfl

namespace IsPlain

theorem isWord_pathNames (h : o.IsPlain) : ∀ name ∈ o.pathNames, isWord false name = true := by
  rw [pathNames, List.forall_mem_cons, List.forall_mem_append]
  refine ⟨by decide, fun segment hsegment => (h.modules segment hsegment).isWord, ?_⟩
  simpa using h.name.isWord

theorem pathRows (h : o.IsPlain) {rules : Rules} :
    ∀ row ∈ o.pathNames.map fun name => [Quote.word name], PathRow rules false row := by
  rw [pathNames, List.map_cons, List.forall_mem_cons]
  refine ⟨⟨⟨false, "crate", [], rfl⟩, fun vs _ => Grammar.reads_segment_keyword (by decide)⟩, ?_⟩
  intro row hrow
  obtain ⟨name, hname, rfl⟩ := List.mem_map.mp hrow
  refine pathRow_name ?_
  rcases List.mem_append.mp hname with hname | hname
  · exact (h.modules name hname).isIdentifier
  · rw [List.mem_singleton.mp hname]
    exact h.name.isIdentifier

/-- The path of an owner below the root. -/
theorem readPath_display (h : o.IsPlain) (hroot : o.module.isRoot = false) :
    ∃ tree, Grammar.readPath o.display.toList = .ok tree ∧
      tree.unplaced = namesTokens o.pathNames := by
  have hne : o.pathNames ≠ [] := List.cons_ne_nil _ _
  have hspells := spells_namesTokens hne h.isWord_pathNames
  rw [← toList_display hroot] at hspells
  have hfront : o.display.toList.head? ≠ some '\ufeff' := by
    rw [display, hroot, if_neg Bool.false_ne_true, String.toList_append, String.toList_append]
    simp
  obtain ⟨read, htokens, hread⟩ := hspells.tokens hfront
  have heased : easedTokens read = namesTokens o.pathNames := by
    rw [← easedTokens_unplacedTokens, hread, (tameRow_namesTokens h.isWord_pathNames).tame.eased,
      unplaced_namesTokens]
  have hreads : Reads (Grammar.path (Rules.enough read) false) (namesTokens o.pathNames ++ []) []
      (·.unplaced = namesTokens o.pathNames) := by
    refine Grammar.reads_path _ (by simpa using hne) h.pathRows ?_ ?_
    · exact Grammar.endsPart_of_endsType rfl
    · exact .and_left (.op rfl rfl)
  rw [List.append_nil] at hreads
  obtain ⟨tree, htree, hunplaced⟩ := Grammar.readAll_of_reads
    (p := fun rules => Grammar.path rules false) hreads heased
  refine ⟨tree, ?_, hunplaced⟩
  simpa [Grammar.readPath, Grammar.read, Grammar.tokensOf, htokens, bind, Except.bind] using htree

/-- The path of an owner is read as a type. -/
theorem isOwnerPath (h : o.IsPlain) : Augmentation.IsOwnerPath (namesTokens o.pathNames) := by
  obtain ⟨tail, htail⟩ : ∃ tail, namesTokens o.pathNames = Quote.word "crate" :: tail :=
    ⟨_, namesTokens_cons "crate" (by simp)⟩
  refine ⟨⟨"crate", tail, htail, by decide⟩, fun n vs hvs => ?_⟩
  have hpath : Reads (Grammar.path (Rules.upTo n) false) (namesTokens o.pathNames ++ vs) vs
      (·.unplaced = namesTokens o.pathNames) :=
    Grammar.reads_path _ (List.cons_ne_nil _ _) h.pathRows (Grammar.endsPart_of_endsType hvs)
      (.and_left (Grammar.endsType_noOp hvs rfl (by decide)))
  show Reads (Grammar.typeTree (Rules.upTo n) true) _ _ _
  rw [htail] at hpath ⊢
  exact Grammar.reads_typeTree_path
    (.or_left (.or_left (.or (.ident rfl) (.anyOf rfl)))) rfl rfl rfl
    hpath hvs

/-- A bare name is read as a type. -/
theorem isOwnerPath_name {name : String} (h : IsPlainName name) :
    Augmentation.IsOwnerPath [Quote.word name] := by
  refine ⟨⟨name, [], rfl, ?_⟩, fun n vs hvs => ?_⟩
  · rintro rfl
    exact absurd h.isIdentifier (by decide)
  · have hnone : ∀ row ∈ ([] : List (List Token)), PathRow (Rules.upTo n) false row :=
      List.forall_mem_nil _
    have hrow : Grammar.TypeRow (Rules.upTo (n + 1)) [Quote.word name] :=
      Grammar.typeRow_path (pathRow_name h.isIdentifier) h.isIdentifier hnone
    exact hrow.reads true vs hvs

end IsPlain

end Owner

end Observable
