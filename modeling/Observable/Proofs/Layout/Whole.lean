import Observable.Proofs.Grammar.Frugal.Basic
import Observable.Proofs.Layout.Words
import Observable.Proofs.Token.Front
/-! The layout of a file is a text of its own: nothing is dropped at its front, and its tokens are
read back. -/
namespace Observable

namespace Grammar

theorem group_of_inside {α : Type} {d : Delimiter} {p : Parser α} {s : Input}
    {r : (α × (List Tree → Tree)) × Input} (h : inside d p s = .ok r) :
    ∃ body q q' more, s.rest = .group d body q q' :: more := by
  unfold inside at h
  split at h
  · rename_i d' body q q' more hrest
    split at h
    · rename_i hd
      exact ⟨body, q, q', more, by rw [hrest, hd]⟩
    · cases h
  · cases h

/-- What follows the marks of an inner attribute at the top of a file stands in brackets. -/
theorem brackets_of_file {s s' : Spacing} {p p' : Position} {rest : List Token} {f : File}
    (h : readAll (.punct '#' s p :: .punct '!' s' p' :: rest) file = .ok f) :
    ∃ body q r more, rest = .group .bracket body q r :: more := by
  unfold readAll readUpTo at h
  split at h
  · rename_i hfile
    obtain ⟨attributes, t, hattributes, -⟩ := Frugal.bind_ok hfile
    obtain ⟨found, t, hfound, -⟩ := Frugal.bind_ok hattributes
    obtain ⟨found, t, hstep, -⟩ := Frugal.bind_ok hfound
    obtain ⟨again, t, hlooking, hstep⟩ := Frugal.bind_ok hstep
    obtain ⟨rfl, rfl⟩ := Prod.mk.inj (Except.ok.inj hlooking)
    obtain ⟨one, t, hone, -⟩ := Frugal.bind_ok hstep
    obtain ⟨pound, t, hpound, hone⟩ := Frugal.bind_ok hone
    obtain ⟨-, rfl⟩ := Prod.mk.inj (Except.ok.inj hpound)
    obtain ⟨bang, t, hbang, hone⟩ := Frugal.bind_ok hone
    obtain ⟨-, rfl⟩ := Prod.mk.inj (Except.ok.inj hbang)
    obtain ⟨group, t, hgroup, -⟩ := Frugal.bind_ok hone
    obtain ⟨found, t, hinside, -⟩ := Frugal.bind_ok hgroup
    exact group_of_inside hinside
  · cases h

end Grammar

namespace Layout

open Lexer

/-- A literal begins with no mark of byte order. -/
theorem IsLiteralText.head_ne {text : String} (h : IsLiteralText text) :
    text.toList.head? ≠ some '\ufeff' := by
  obtain ⟨⟨c, rest, htext, -⟩, -⟩ := IsLiteralText.front h
  rw [htext]
  rintro hhead
  obtain rfl : c = '\ufeff' := Option.some.inj hhead
  rcases h with rfl | ⟨next, hread⟩
  · exact absurd htext (by simp [failedExpansion])
  · rw [htext] at hread
    exact absurd (read_front hread) (by decide)

theorem Piece.Readable.head_ne {piece : Piece} (h : piece.Readable) :
    piece.chars.head? ≠ some '\ufeff' := by
  cases piece with
  | word text =>
    obtain ⟨raw, name, rfl, hword⟩ := h
    obtain ⟨c, rest, htext, -, hc, -⟩ := word_front hword (show stopsWord [] = true from rfl)
    rw [List.append_nil] at htext
    rw [Piece.chars, htext]
    rintro hhead
    obtain rfl : c = '\ufeff' := Option.some.inj hhead
    rw [isIdentStart_mark] at hc
    cases hc
  | literal text => exact IsLiteralText.head_ne h
  | mark c =>
    rintro hhead
    obtain rfl : c = '\ufeff' := Option.some.inj hhead
    exact absurd (show isPunct '\ufeff' = true from h) (by decide)
  | opening d | closing d => cases d <;> decide
  | comment inner text =>
    intro hhead
    obtain heq : '/' = '\ufeff' := Option.some.inj hhead
    exact absurd heq (by decide)

theorem Spread.head_ne {before : Option Piece} {ps : List Piece} {text : List Char}
    (h : Spread before ps text) (hps : ∀ piece ∈ ps, piece.Readable) :
    text.head? ≠ some '\ufeff' := by
  cases h with
  | nil hgap _ =>
    intro hhead
    rcases hgap _ (List.mem_of_mem_head? hhead) with heq | heq <;> exact absurd heq (by decide)
  | @cons _ gap piece ps text hgap _ _ =>
    have hpiece := hps piece List.mem_cons_self
    cases gap with
    | nil =>
      obtain ⟨c, rest, hchars, -⟩ := hpiece.front
      have hhead := hpiece.head_ne
      rw [hchars] at hhead ⊢
      exact hhead
    | cons c gap =>
      rintro hhead
      obtain rfl : c = '\ufeff' := Option.some.inj hhead
      rcases hgap _ List.mem_cons_self with heq | heq <;> exact absurd heq (by decide)

/-- What is written with a mark in front is written for the mark. -/
theorem Piece.Readable.eq_mark {piece : Piece} (h : piece.Readable) {c : Char} {rest : List Char}
    (hchars : piece.chars = c :: rest) (hpunct : isPunct c = true) (htick : c ≠ '\'')
    (hslash : c ≠ '/') : piece = .mark c ∧ rest = [] := by
  cases piece with
  | word text =>
    obtain ⟨raw, name, rfl, hword⟩ := h
    obtain ⟨d, more, htext, -, hd, -⟩ := word_front hword (show stopsWord [] = true from rfl)
    rw [List.append_nil] at htext
    obtain ⟨rfl, rfl⟩ := List.cons.inj (htext.symm.trans hchars)
    have hident := (isPunct_facts hpunct).2.2
    rw [Text.isIdentContinue_of_isIdentStart hd] at hident
    cases hident
  | literal text =>
    obtain ⟨d, more, htext, hd⟩ := IsLiteralText.isPunct_front h
    obtain ⟨rfl, rfl⟩ := List.cons.inj (htext.symm.trans hchars)
    rcases hd with hd | ⟨rfl, -⟩
    · rw [hpunct] at hd
      cases hd
    · exact absurd rfl htick
  | mark d =>
    obtain ⟨rfl, rfl⟩ := List.cons.inj hchars
    exact ⟨rfl, rfl⟩
  | opening d | closing d =>
    cases d with
    | invisible => exact absurd rfl h
    | _ =>
      obtain ⟨rfl, -⟩ := List.cons.inj hchars
      exact absurd hpunct (by decide)
  | comment inner text => exact absurd (List.cons.inj hchars).1.symm hslash

/-- A mark at the front of a text is written for its first piece. -/
theorem Spread.mark {before : Option Piece} {ps : List Piece} {c : Char} {text : List Char}
    (h : Spread before ps (c :: text)) (hps : ∀ piece ∈ ps, piece.Readable)
    (hpunct : isPunct c = true) (htick : c ≠ '\'') (hslash : c ≠ '/') :
    ∃ qs, ps = .mark c :: qs ∧ Spread (some (.mark c)) qs text := by
  have hblank : ¬ (c = ' ' ∨ c = '\n') :=
    not_or.mpr ⟨(isPunct_facts hpunct).1, (isPunct_facts hpunct).2.1⟩
  generalize htext : c :: text = whole at h
  cases h with
  | nil hgap _ => exact absurd (hgap c (htext ▸ List.mem_cons_self)) hblank
  | @cons _ gap piece qs text' hgap _ h =>
    cases gap with
    | cons d gap =>
      obtain ⟨rfl, -⟩ := List.cons.inj htext
      exact absurd (hgap c List.mem_cons_self) hblank
    | nil =>
      have hpiece := hps piece List.mem_cons_self
      obtain ⟨d, rest, hchars, -⟩ := hpiece.front
      rw [List.nil_append, hchars, List.cons_append] at htext
      obtain ⟨rfl, rfl⟩ := List.cons.inj htext
      obtain ⟨rfl, rfl⟩ := hpiece.eq_mark hchars hpunct htick hslash
      exact ⟨qs, rfl, h⟩

/-- A mark at the front of some pieces stands for one at the front of the tokens. -/
theorem Flat.mark {lines : Bool} {ts : List Token} {c : Char} {ps : List Piece}
    (h : Flat lines ts (.mark c :: ps)) (hts : ReadableTokens ts) :
    ∃ s p us, ts = .punct c s p :: us ∧ Flat lines us ps ∧ ReadableTokens us := by
  generalize hqs : Piece.mark c :: ps = qs at h
  cases h with
  | punct h =>
    obtain ⟨hc, rfl⟩ := List.cons.inj hqs
    obtain rfl := Piece.mark.inj hc
    exact ⟨_, _, _, rfl, h, hts.2⟩
  | invisible => exact absurd rfl hts.1.1
  | _ => cases hqs

/-- Blanks before a bracket are skipped. -/
theorem skipBlanks_bracket {gap : List Char} (hgap : ∀ c ∈ gap, c = ' ' ∨ c = '\n')
    (text : List Char) {fuel : Nat} (hfuel : gap.length < fuel) :
    Grammar.skipBlanks fuel (gap ++ '[' :: text) = '[' :: text := by
  obtain ⟨fuel, rfl⟩ := Nat.exists_eq_succ_of_ne_zero (Nat.ne_zero_of_lt hfuel)
  induction gap generalizing fuel with
  | nil =>
    have hbracket : isBlank '[' = false := by decide
    simp [Grammar.skipBlanks, hbracket, passComment_of_ne]
  | cons c gap ih =>
    obtain ⟨hc, hgap⟩ := List.forall_mem_cons.mp hgap
    have hblank : isBlank c = true := by rcases hc with rfl | rfl <;> decide
    obtain ⟨fuel, rfl⟩ := Nat.exists_eq_succ_of_ne_zero
      (Nat.ne_zero_of_lt (Nat.lt_of_succ_lt_succ hfuel))
    rw [List.cons_append, Grammar.skipBlanks]
    simp only [hblank, if_true]
    exact ih hgap fuel (Nat.lt_of_succ_lt_succ hfuel)

/-- What is read of a layout is its pieces, one word after the other. -/
theorem renderFile_pieces {ts : List Token} (hts : ReadableTokens ts) :
    ∃ ps, Flat true ts ps ∧ (∀ piece ∈ ps, piece.Readable) ∧
      Spread none ps (renderFile ts).toList ∧ Writes ps (wholeFile ts) := by
  obtain ⟨ps, hflat, hkeeps, added, hadded, hsets⟩ :=
    (steps_keeps.and steps_puts).runs ts {} { mode := .block, top := true }
  have hreadable := hflat.readable hts
  refine ⟨ps, hflat, hreadable, ?_, ?_⟩
  · rw [renderFile_toList]
    exact hkeeps.spread (fun piece hp => (hreadable piece hp).legible) (by simp)
      fun _ _ _ => ⟨[], rfl⟩
  · have hatoms : fileAtoms ts = added := by simpa [fileAtoms] using hadded
    have hbreak : Writes [] [.breaks 1 0] := .breaks .nil
    have hall := hsets.append hbreak
    rwa [List.append_nil, ← hatoms] at hall

/-- The layout of tokens that a file can have names no interpreter. -/
theorem dropInterpreter_renderFile {ts : List Token} (hts : ReadableTokens ts)
    (hbrackets : ∀ s p s' p' rest, ts = .punct '#' s p :: .punct '!' s' p' :: rest →
      ∃ body q r more, rest = .group .bracket body q r :: more) :
    Grammar.dropInterpreter (renderFile ts).toList = (renderFile ts).toList := by
  obtain ⟨ps, hflat, hreadable, hspread, -⟩ := renderFile_pieces hts
  unfold Grammar.dropInterpreter
  split
  · rename_i rest htext
    rw [htext] at hspread
    obtain ⟨ps, rfl, hbang⟩ := hspread.mark hreadable (by decide) (by decide) (by decide)
    obtain ⟨-, hreadable⟩ := List.forall_mem_cons.mp hreadable
    obtain ⟨ps, rfl, hbracket⟩ := hbang.mark hreadable (by decide) (by decide) (by decide)
    obtain ⟨s, p, us, rfl, hflat, hus⟩ := hflat.mark hts
    obtain ⟨s', p', us, rfl, hflat, hus⟩ := hflat.mark hus
    obtain ⟨body, q, r, more, rfl⟩ := hbrackets _ _ _ _ _ rfl
    obtain _ | _ | _ | _ | ⟨_, _, _⟩ := hflat
    obtain _ | @⟨_, gap, _, _, text, hgap, -, -⟩ := hbracket
    have hrest : gap ++ ((Piece.opening .bracket).chars ++ text) = gap ++ '[' :: text := rfl
    have hfuel : gap.length < (gap ++ '[' :: text).length + 1 := by
      rw [List.length_append]
      omega
    rw [hrest, skipBlanks_bracket hgap text hfuel]
    rfl
  · rfl

/-- The tokens of a file, in their layout, are read back with its spacing. -/
theorem renderFile_tokens {ts : List Token} (hts : ReadableTokens ts)
    (hplain : plainTokens ts = true) (hapart : numbersApart (wholeFile ts) = true) :
    ∃ read, Lexer.tokens (renderFile ts).toList = .ok read ∧
      unplacedTokens (unspacedTokens read) = unplacedTokens (unspacedTokens ts) ∧
      spacingsOf read = spacings (wholeFile ts) := by
  obtain ⟨ps, hflat, hreadable, hspread, hsets⟩ := renderFile_pieces hts
  have hhead := hspread.head_ne hreadable
  have hstands := hsets.stands_follow hreadable hapart
  rw [charsOf_wholeFile, ← List.append_nil ps] at hstands
  rw [← List.append_nil ps] at hspread
  obtain ⟨seen, rest, after, hfollow, hend, hreads⟩ :=
    hflat.readsFront hts hplain hspread (by simp) hstands
  obtain ⟨read, place, hread, hspacings, hgoes⟩ := hreads .start [] []
  cases hend with
  | nil hgap _ =>
    obtain ⟨place', hrest⟩ := goes_gap hgap [] place [] (read.reverse ++ [])
    rw [List.append_nil] at hrest
    refine ⟨read, by simpa using (hgoes.trans hrest).tokens hhead, hread, ?_⟩
    have hseen : seen = follow ps (charsOf (wholeFile ts)) := by
      simpa [charsOf_wholeFile, follow] using hfollow.symm
    rw [hspacings, hseen, hsets.spacings_follow hreadable]

/-- The same, after what is dropped at the front of a source. -/
theorem tokensOf_renderFile {ts : List Token} (hts : ReadableTokens ts)
    (hbrackets : ∀ s p s' p' rest, ts = .punct '#' s p :: .punct '!' s' p' :: rest →
      ∃ body q r more, rest = .group .bracket body q r :: more) :
    Grammar.dropInterpreter (dropMark (renderFile ts).toList) = (renderFile ts).toList := by
  obtain ⟨ps, -, hreadable, hspread, -⟩ := renderFile_pieces hts
  rw [dropMark_of_head (hspread.head_ne hreadable), dropInterpreter_renderFile hts hbrackets]

end Layout

end Observable
