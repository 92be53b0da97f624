import Mathlib.Tactic.SplitIfs
import Observable.Proofs.Text.Case
import Observable.Proofs.Token.Words
/-! What is read of a literal: it has at least one character, and the last one ends no line. -/
namespace Observable.Literal

/-- Something is read of a text, and the last of it ends no line. -/
def Reads (text tail : List Char) : Prop := ∃ c, c ≠ '\n' ∧ c :: tail <:+ text

/-- Nothing is read of a text, or the last of it ends no line. -/
def Ends (text tail : List Char) : Prop := tail = text ∨ Reads text tail

section Suffix

variable {c : Char} {text rest tail : List Char}

namespace Reads

theorem suffix (h : Reads text tail) : tail <:+ text := by
  obtain ⟨c, -, hsuffix⟩ := h
  exact (List.suffix_cons c tail).trans hsuffix

theorem of_suffix (h : Reads rest tail) (hrest : rest <:+ text) : Reads text tail := by
  obtain ⟨c, hc, hsuffix⟩ := h
  exact ⟨c, hc, hsuffix.trans hrest⟩

theorem cons (h : Reads rest tail) : Reads (c :: rest) tail := h.of_suffix (List.suffix_cons c rest)

theorem first (hc : c ≠ '\n') : Reads (c :: rest) rest := ⟨c, hc, List.suffix_refl _⟩

/-- The first character of a text is read first. -/
theorem behind (h : Reads (c :: rest) tail) : tail <:+ rest := by
  obtain ⟨d, -, hsuffix⟩ := h
  rcases List.suffix_cons_iff.mp hsuffix with heq | hlater
  · obtain ⟨-, rfl⟩ := List.cons.inj heq
    exact List.suffix_refl _
  · exact (List.suffix_cons d tail).trans hlater

theorem ne_nil (h : Reads text tail) : text ≠ [] := by
  rintro rfl
  obtain ⟨d, -, hsuffix⟩ := h
  cases List.suffix_nil.mp hsuffix

/-- What is left of a text is no longer than the text. -/
theorem not_longer {front : List Char} : ¬ Reads text (front ++ text) := by
  rintro ⟨c, -, hsuffix⟩
  have hlength := hsuffix.length_le
  simp only [List.length_cons, List.length_append] at hlength
  omega

theorem irrefl : ¬ Reads text text := fun h => not_longer (show Reads text ([] ++ text) from h)

end Reads

namespace Ends

theorem suffix (h : Ends text tail) : tail <:+ text := by
  rcases h with rfl | h
  · exact List.suffix_refl _
  · exact h.suffix

theorem cons (hc : c ≠ '\n') (h : Ends rest tail) : Reads (c :: rest) tail := by
  rcases h with rfl | h
  · exact .first hc
  · exact h.cons

theorem trans (h : Reads text rest) (h' : Ends rest tail) : Reads text tail := by
  rcases h' with rfl | h'
  · exact h
  · exact h'.of_suffix h.suffix

end Ends

end Suffix

theorem ne_break_of_isIdentContinue {c : Char} (h : Text.isIdentContinue c = true) : c ≠ '\n' :=
  Lexer.ne_of_isIdentContinue h (by decide)

section Readers

variable {family : Family} {text value tail : List Char}

theorem readQuoted_reads {state : Escape} (h : readQuoted family state text = some (value, tail)) :
    Reads text tail := by
  induction text generalizing state value with
  | nil => cases h
  | cons c rest ih =>
    rw [readQuoted] at h
    split at h
    · rename_i hclosed
      obtain ⟨rfl, -⟩ : c = '"' ∧ _ := by simpa using hclosed
      cases h
      exact .first (by decide)
    · split at h
      · cases h
      · obtain ⟨⟨value', tail'⟩, hread, heq⟩ := Option.map_eq_some_iff.mp h
        cases heq
        exact (ih hread).cons

theorem readRaw_reads {pounds : Nat} (h : readRaw family pounds text = some (value, tail)) :
    Reads text tail := by
  induction text using readRaw.induct family pounds generalizing value with
  | case1 => cases h
  | case2 rest hclosed =>
    rw [readRaw, if_pos hclosed] at h
    cases h
    obtain ⟨more, rfl⟩ := List.isPrefixOf_iff_prefix.mp hclosed
    rw [List.drop_left' List.length_replicate]
    cases pounds with
    | zero => exact .first (by decide)
    | succ n =>
      rw [List.replicate_succ', List.append_assoc, List.singleton_append]
      exact ⟨'#', by decide, (List.suffix_append _ _).trans (List.suffix_cons _ _)⟩
  | case3 rest hopen ih =>
    rw [readRaw, if_neg hopen] at h
    obtain ⟨⟨value', tail'⟩, hread, heq⟩ := Option.map_eq_some_iff.mp h
    cases heq
    exact (ih hread).cons
  | case4 rest ih =>
    rw [readRaw] at h
    obtain ⟨⟨value', tail'⟩, hread, heq⟩ := Option.map_eq_some_iff.mp h
    cases heq
    exact (ih hread).cons.cons
  | case5 c rest hquote hbreak hplain ih =>
    rw [readRaw, if_pos hplain] at h
    · obtain ⟨⟨value', tail'⟩, hread, heq⟩ := Option.map_eq_some_iff.mp h
      cases heq
      exact (ih hread).cons
    · exact hquote
    · exact hbreak
  | case6 c rest hquote hbreak hplain =>
    rw [readRaw, if_neg hplain] at h
    · cases h
    · exact hquote
    · exact hbreak

theorem readPounds_reads (h : readPounds family text = some (value, tail)) : Reads text tail := by
  unfold readPounds at h
  dsimp only at h
  split at h
  · rename_i rest hdrop
    split at h
    · have hrest : '"' :: rest <:+ text := hdrop ▸ List.drop_suffix _ text
      exact (readRaw_reads h).cons.of_suffix hrest
    · cases h
  · cases h

theorem dropWhile_ends (text : List Char) : Ends text (text.dropWhile Text.isIdentContinue) := by
  induction text with
  | nil => exact .inl rfl
  | cons c rest ih =>
    cases hc : Text.isIdentContinue c with
    | false => exact .inl (List.dropWhile_cons_of_neg (by simp [hc]))
    | true =>
      rw [List.dropWhile_cons_of_pos hc]
      exact .inr (ih.cons (ne_break_of_isIdentContinue hc))

theorem dropIdent_ends (text : List Char) : Ends text (dropIdent text) := by
  cases text with
  | nil => exact .inl rfl
  | cons c rest =>
    rw [dropIdent]
    split
    · rename_i hc
      exact .inr ((dropWhile_ends rest).cons
        (ne_break_of_isIdentContinue (Text.isIdentContinue_of_isIdentStart hc)))
    · exact .inl rfl

theorem readEscape_reads {state : Escape}
    (h : readCharBody.readEscape family state text = some tail) : Reads text tail := by
  induction text generalizing state with
  | nil => cases h
  | cons c rest ih =>
    unfold readCharBody.readEscape at h
    split at h
    · split at h
      · rename_i hclosed
        subst hclosed
        cases h
        exact .first (by decide)
      · cases h
    · split at h
      · cases h
      · cases h
      · exact (ih h).cons
      · cases h

theorem readCharBody_reads (h : readCharBody family text = some tail) : Reads text tail := by
  unfold readCharBody at h
  split at h
  · exact (readEscape_reads h).cons
  · split at h
    · cases h
      exact (Reads.first (by decide)).cons
    · cases h
  · cases h

theorem toNat_lt_of_isHexDigit {c : Char} (h : isHexDigit c = true) : c.toNat < 128 := by
  have hle {a b : Char} : a ≤ b ↔ a.toNat ≤ b.toNat := UInt32.le_iff_toNat_le
  have hdigit : c.isDigit = true → c.toNat ≤ 57 := fun h =>
    UInt32.le_iff_toNat_le.mp (of_decide_eq_true (Bool.and_eq_true_iff.mp h).2)
  simp only [isHexDigit, Bool.or_eq_true, Bool.and_eq_true, decide_eq_true_eq, hle] at h
  rcases h with (h | h) | h
  · exact Nat.lt_of_le_of_lt (hdigit h) (by decide)
  · exact Nat.lt_of_le_of_lt h.2 (by decide)
  · exact Nat.lt_of_le_of_lt h.2 (by decide)

theorem isIdentContinue_of_isHexDigit {c : Char} (h : isHexDigit c = true) :
    Text.isIdentContinue c = true := by
  have hascii := Text.forall_ascii (p := fun c => !isHexDigit c || Text.isIdentContinue c)
    (by decide +kernel) (toNat_lt_of_isHexDigit h)
  simpa [h] using hascii

theorem isIdentContinue_of_isDigit {c : Char} (h : c.isDigit = true) :
    Text.isIdentContinue c = true := isIdentContinue_of_isHexDigit (by simp [isHexDigit, h])

theorem ne_break_of_isDigit {c : Char} (h : c.isDigit = true) : c ≠ '\n' :=
  ne_break_of_isIdentContinue (isIdentContinue_of_isDigit h)

theorem readExponent_ends {sign digits : Bool} (h : readExponent sign digits text = some tail) :
    Ends text tail := by
  induction text generalizing sign digits with
  | nil =>
    rw [readExponent] at h
    split at h <;> cases h
    exact .inl rfl
  | cons c rest ih =>
    rw [readExponent] at h
    split_ifs at h with hsign _ _ hdigit hmark
    · exact .inl (Option.some.inj h).symm
    · exact .inr ((ih h).cons (by rintro rfl; cases hsign))
    · exact .inr ((ih h).cons (ne_break_of_isDigit hdigit))
    · exact .inr ((ih h).cons (by rintro rfl; cases hmark))
    · exact .inl (Option.some.inj h).symm

theorem readDecimal_ends {point : Bool} (h : readDecimal point text = some tail) :
    Ends text tail := by
  induction text generalizing point with
  | nil =>
    rw [readDecimal] at h
    split at h <;> cases h
    exact .inl rfl
  | cons c rest ih =>
    rw [readDecimal] at h
    split at h
    · rename_i hdigit
      refine .inr ((ih h).cons ?_)
      rintro rfl
      exact absurd hdigit (by decide)
    split at h
    · rename_i hpoint
      subst hpoint
      split_ifs at h
      · exact .inl (Option.some.inj h).symm
      · exact .inr ((ih h).cons (by decide))
    split at h
    · rename_i he
      split at h
      · cases h
        refine .inr ((readExponent_ends ‹_›).cons ?_)
        rintro rfl
        exact absurd he (by decide)
      · split_ifs at h
        exact .inl (Option.some.inj h).symm
    · split_ifs at h
      exact .inl (Option.some.inj h).symm

theorem readDigits_ends {base : Nat} {seen : Bool} (h : readDigits base seen text = some tail) :
    Ends text tail := by
  induction text generalizing seen with
  | nil =>
    rw [readDigits] at h
    split at h <;> cases h
    exact .inl rfl
  | cons c rest ih =>
    rw [readDigits] at h
    split_ifs at h with hdigit _ hmark _ hhex
    · exact .inr ((ih h).cons (ne_break_of_isDigit hdigit))
    · exact .inr ((ih h).cons (by rintro rfl; cases hmark))
    · exact .inr ((ih h).cons
        (ne_break_of_isIdentContinue (isIdentContinue_of_isHexDigit
          (Bool.and_eq_true_iff.mp hhex).1)))
    · exact .inl (Option.some.inj h).symm

theorem closeNumber_ends (h : closeNumber text = some tail) : Ends text tail := by
  unfold closeNumber at h
  dsimp only at h
  split at h <;> cases h
  exact dropIdent_ends text

/-- A number has a digit in front. -/
theorem readNumber_reads (h : readNumber text = some tail) :
    text.head?.any Char.isDigit = true ∧ Reads text tail := by
  cases hhead : text.head?.any Char.isDigit with
  | false => simp [readNumber, hhead] at h
  | true =>
    refine ⟨rfl, ?_⟩
    obtain ⟨c, rest, rfl⟩ : ∃ c rest, text = c :: rest := by
      cases text with
      | nil => cases hhead
      | cons c rest => exact ⟨c, rest, rfl⟩
    have hdigit : c.isDigit = true := hhead
    simp only [readNumber, hhead, if_true] at h
    split at h
    · rename_i found hdecimal
      obtain rfl := Option.some.inj h
      obtain ⟨digits, hread, hclose⟩ := Option.bind_eq_some_iff.mp hdecimal
      rw [readDecimal, hdigit] at hread
      exact (closeNumber_ends hclose).trans ((readDecimal_ends hread).cons
        (ne_break_of_isDigit hdigit))
    · obtain ⟨digits, hread, hclose⟩ := Option.bind_eq_some_iff.mp h
      refine (closeNumber_ends hclose).trans ?_
      unfold splitBase at hread
      split at hread
      · rename_i heq
        obtain ⟨rfl, rfl⟩ := List.cons.inj heq
        exact ((readDigits_ends hread).cons (by decide)).cons
      · rename_i heq
        obtain ⟨rfl, rfl⟩ := List.cons.inj heq
        exact ((readDigits_ends hread).cons (by decide)).cons
      · rename_i heq
        obtain ⟨rfl, rfl⟩ := List.cons.inj heq
        exact ((readDigits_ends hread).cons (by decide)).cons
      · rw [readDigits, if_pos hdigit] at hread
        split at hread
        · exact (readDigits_ends hread).cons (ne_break_of_isDigit hdigit)
        · cases hread

/-- A quoted text and the suffix after it. -/
theorem quoted_reads {found : Option (List Char × List Char)}
    (hfound : ∀ {value after}, found = some (value, after) → Reads text after)
    (h : (found.map fun (_, rest) => dropIdent rest) = some tail) : Reads text tail := by
  obtain ⟨⟨value, after⟩, hread, rfl⟩ := Option.map_eq_some_iff.mp h
  exact (dropIdent_ends after).trans (hfound hread)

/-- A character and the suffix after it. -/
theorem character_reads (h : (readCharBody family text).map dropIdent = some tail) :
    Reads text tail := by
  obtain ⟨after, hread, rfl⟩ := Option.map_eq_some_iff.mp h
  exact (dropIdent_ends after).trans (readCharBody_reads hread)

/-- A literal has at least one character, and the last one ends no line. -/
theorem read_reads (h : read text = some tail) : Reads text tail := by
  unfold read at h
  dsimp only at h
  split at h
  · exact (quoted_reads readQuoted_reads h).cons
  · exact (quoted_reads readPounds_reads h).cons
  · exact (quoted_reads readQuoted_reads h).cons.cons
  · exact (quoted_reads readPounds_reads h).cons.cons
  · exact (character_reads h).cons.cons
  · exact (quoted_reads readQuoted_reads h).cons.cons
  · exact (quoted_reads readPounds_reads h).cons.cons
  · exact (character_reads h).cons
  · exact (readNumber_reads h).2

end Readers

end Observable.Literal
