import Observable.Proofs.Output.Reading
import Observable.Proofs.Property.Descriptor
import Observable.Proofs.Text.Case
import Observable.Proofs.Token.Front
import Observable.Proofs.Token.Spelled
import Observable.Proofs.Token.Whole
/-! The names that are generated for a property and its owner: all of them are identifiers that can
be spelled. -/
namespace Observable

open Lexer (isName isWord)
open Text (isInk)

/-- A text that is an identifier without a mark. -/
def IsPlainName (text : String) : Prop :=
  ∃ p, Property.identifier? text = some (.ident false text p)

theorem IsPlainName.isIdentifier {text : String} (h : IsPlainName text) :
    Grammar.isIdentifier false text = true := PlainName.isIdentifier ⟨text, h⟩

theorem IsPlainName.isWord {text : String} (h : IsPlainName text) : isWord false text = true := by
  obtain ⟨p, hp⟩ := h
  exact Property.isWord_of_identifier? hp

/-- A text is a plain name exactly when it is spelled as a word and is no keyword. -/
theorem isPlainName_iff {text : String} :
    IsPlainName text ↔ isWord false text = true ∧ Grammar.isIdentifier false text = true := by
  refine ⟨fun h => ⟨h.isWord, h.isIdentifier⟩, fun ⟨hword, hfree⟩ => ?_⟩
  have hspells : Lexer.Spells ((Token.identText false text).toList ++ [])
      [.ident false text .start] [] := .word hword rfl (.done [])
  rw [List.append_nil] at hspells
  obtain ⟨read, htokens, hread⟩ := hspells.tokens hspells.head_ne_mark
  have heased : easedTokens read = [.ident false text .start] := by
    rw [← easedTokens_unplacedTokens, hread]
    rfl
  obtain ⟨p, rest, rfl, hrest⟩ := easedTokens_eq_ident heased
  obtain rfl : rest = [] := easedTokens_eq_nil.mp hrest
  have htext : Lexer.tokens text.toList = .ok [.ident false text p] := htokens
  refine ⟨p, ?_⟩
  simp [Property.identifier?, Grammar.readIdentifier, Grammar.read, Grammar.tokensOf, htext, bind,
    Except.bind, Grammar.readAll, Grammar.readUpTo, Grammar.ident, Grammar.oneToken,
    Grammar.Look.ident, hfree, Grammar.Input.settled]

instance (text : String) : Decidable (IsPlainName text) := decidable_of_iff _ isPlainName_iff.symm

theorem isVisible_of_isInk {c : Char} (h : isInk c = true) : Lexer.IsVisible c := by
  obtain ⟨hblank, hslash, -, hmark⟩ := Text.ne_of_isInk h
  exact ⟨hblank, hslash, hmark⟩

theorem all_isInk_of_isName {name : List Char} (h : isName name = true) :
    name.all isInk = true := by
  obtain ⟨c, rest, rfl, hc, hrest⟩ := Lexer.isName_cons h
  refine List.all_eq_true.mpr (List.forall_mem_cons.mpr ⟨?_, fun d hd => ?_⟩)
  · exact Text.isInk_of_isIdentContinue (Text.isIdentContinue_of_isIdentStart hc)
  · exact Text.isInk_of_isIdentContinue (List.all_eq_true.mp hrest d hd)

theorem isName_append {name more : List Char} (h : isName name = true)
    (hmore : more.all Text.isIdentContinue = true) : isName (name ++ more) = true := by
  obtain ⟨c, rest, rfl, hc, hrest⟩ := Lexer.isName_cons h
  simp [isName, hc, hrest, hmore]

theorem all_isIdentContinue_of_isName {name : List Char} (h : isName name = true) :
    name.all Text.isIdentContinue = true := by
  obtain ⟨c, rest, rfl, hc, hrest⟩ := Lexer.isName_cons h
  simp [Text.isIdentContinue_of_isIdentStart hc, hrest]

namespace Property

/-- A text in ink that is an identifier is spelled as it is. -/
theorem isName_of_isIdentifier {text : String} (hink : text.toList.all isInk = true)
    (h : isIdentifier text = true) : (Token.ident false text .start).IsName := by
  obtain ⟨t, ht⟩ := Option.isSome_iff_exists.mp h
  obtain ⟨raw, name, p, rfl, hfree, htokens⟩ := identifier?_eq_some ht
  have hvisible : ∀ c ∈ text.toList, Lexer.IsVisible c := fun c hc =>
    isVisible_of_isInk (List.all_eq_true.mp hink c hc)
  have htext := String.toList_inj.mp (Lexer.eq_identText_of_tokens hvisible htokens)
  cases raw with
  | false =>
    obtain rfl : text = name := htext
    exact ⟨false, text, rfl, hfree, isWord_of_identifier? ht⟩
  | true =>
    have hmark : isInk '#' = true := by
      refine List.all_eq_true.mp hink '#' ?_
      rw [htext, Token.identText, if_pos rfl, String.toList_append]
      exact List.mem_append_left _ (by decide)
    exact absurd hmark (by decide)

/-- A text in ink that is an identifier once it is marked as raw. -/
theorem isName_of_isIdentifier_raw {text : String} (hink : text.toList.all isInk = true)
    (h : isIdentifier ("r#" ++ text) = true) : (Token.ident true text .start).IsName := by
  obtain ⟨t, ht⟩ := Option.isSome_iff_exists.mp h
  obtain ⟨raw, name, p, rfl, hfree, htokens⟩ := identifier?_eq_some ht
  have hword := isWord_of_identifier? ht
  have hmark : Lexer.IsVisible '#' := ⟨by decide, by decide, by decide⟩
  have hvisible : ∀ c ∈ ("r#" ++ text).toList, Lexer.IsVisible c := by
    rw [String.toList_append, List.forall_mem_append]
    refine ⟨?_, fun c hc => isVisible_of_isInk (List.all_eq_true.mp hink c hc)⟩
    exact List.forall_mem_cons.mpr
      ⟨isVisible_of_isInk (by decide), List.forall_mem_singleton.mpr hmark⟩
  have htext := String.toList_inj.mp (Lexer.eq_identText_of_tokens hvisible htokens)
  cases raw with
  | true =>
    obtain rfl : text = name := by
      rw [Token.identText, if_pos rfl] at htext
      simpa [← String.toList_inj] using htext
    exact ⟨true, text, rfl, hfree, hword⟩
  | false =>
    obtain rfl : "r#" ++ text = name := htext
    have hname : isName ("r#" ++ text).toList = true := (Bool.and_eq_true_iff.mp hword).1
    have hmark := List.all_eq_true.mp (all_isIdentContinue_of_isName hname) '#' (by simp)
    exact absurd hmark (by decide)

/-- The name of a method. -/
theorem isName_of_methodName? {name : String} {t : Token} (hink : name.toList.all isInk = true)
    (h : methodName? name = some t) : t.IsName := by
  have hsnake : (String.ofList (Text.snakeCase name.toList)).toList.all isInk = true := by
    rw [String.toList_ofList]
    exact Text.all_isInk_snakeCase hink
  simp only [methodName?] at h
  split_ifs at h with hfree hnever hraw
  · cases h
    exact isName_of_isIdentifier hsnake hfree
  · cases h
    exact isName_of_isIdentifier_raw hsnake hraw

/-- The property of a field has the characters of the field, one of them in upper case. -/
theorem nameOf_eq_ok {field property : String} (h : nameOf field = .ok property) :
    ∃ second rest, field.toList = fieldMark :: second :: rest ∧
      property.toList = Text.upperChars second ++ rest := by
  unfold nameOf at h
  split at h
  · rename_i first second rest hfield
    split at h
    · cases h
    · rename_i hmark
      obtain rfl : first = fieldMark := not_not.mp hmark
      dsimp only at h
      split at h
      · cases h
        exact ⟨second, rest, hfield, String.toList_ofList⟩
      · cases h
  · cases h

theorem all_isInk_nameOf {field property : String} (hink : field.toList.all isInk = true)
    (h : nameOf field = .ok property) : property.toList.all isInk = true := by
  obtain ⟨second, rest, hfield, hproperty⟩ := nameOf_eq_ok h
  simp only [hfield, List.all_cons, Bool.and_eq_true] at hink
  rw [hproperty, List.all_append, Text.all_isInk_upperChars hink.2.1, hink.2.2]
  rfl

end Property

theorem Token.IsName.unplaced {t : Token} (h : t.IsName) : t.unplaced = t := by
  obtain ⟨raw, name, rfl, -⟩ := h
  rfl

/-- A name with something that no keyword has is no keyword. -/
theorem isIdentifier_of_all {p : List Char → Bool} {name : String} (hname : p name.toList = true)
    (hwords : Grammar.reservedWords.all (fun word => !p word.toList) = true) :
    Grammar.isIdentifier false name = true := by
  rw [Grammar.isIdentifier, Bool.false_or, Bool.not_eq_true', ← Bool.not_eq_true,
    List.contains_iff_mem]
  intro hmem
  have hnot := List.all_eq_true.mp hwords name hmem
  rw [hname] at hnot
  cases hnot

/-- Two names in a row are one, which begins like the first. -/
theorem isWord_append {name : String} (h : isWord false name = true) (more : List Char)
    (hmore : more.all Text.isIdentContinue = true) :
    isWord false (name ++ String.ofList more) = true := by
  simp only [isWord, Bool.false_eq_true, if_false, Bool.and_eq_true] at h ⊢
  rw [String.toList_append, String.toList_ofList]
  refine ⟨isName_append h.1 hmore, ?_⟩
  obtain ⟨c, rest, hc, -⟩ := Lexer.isName_cons h.1
  rw [hc] at h ⊢
  exact h.2

/-- A name with `Events` behind it. -/
theorem isName_events {name : String} (h : isWord false name = true) :
    (Token.ident false (name ++ "Events") .start).IsName := by
  refine ⟨false, _, rfl, ?_, isWord_append h "Events".toList (by decide)⟩
  refine isIdentifier_of_all (p := ("Events".toList.isSuffixOf ·)) ?_ (by decide +kernel)
  simp [List.isSuffixOf_iff_suffix]

/-- A name with `set_` in front of it. -/
theorem isName_setter {name : String} (h : isName name.toList = true) :
    (Token.ident false ("set_" ++ name) .start).IsName := by
  have hmark : isWord false "set_" = true := by decide
  have hword := isWord_append hmark name.toList (all_isIdentContinue_of_isName h)
  rw [String.ofList_toList] at hword
  refine ⟨false, _, rfl, ?_, hword⟩
  refine isIdentifier_of_all (p := ("set_".toList.isPrefixOf ·)) ?_ (by decide +kernel)
  simp

end Observable
