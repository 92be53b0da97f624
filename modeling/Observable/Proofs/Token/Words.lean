import Observable.Proofs.Grammar.Frugal.Item
import Observable.Proofs.Token.Spelling
/-! The identifiers of a text are words: their spelling consists of the characters of identifiers,
in the tokens of the text and in its syntax tree. -/
namespace Observable

open Weighed

theorem Lexer.isName_takeWhile {c : Char} {rest : List Char} (hc : Text.isIdentStart c = true) :
    isName (String.ofList (c :: rest.takeWhile Text.isIdentContinue)).toList = true := by
  simp [isName, hc]

/-- A cursor that has come to a place in a text. -/
def Lexer.Cursor.Within (c : Cursor) (text : List Char) : Prop :=
  ∃ front, text = front ++ c.rest ∧ c.place = Position.start.after front

theorem Lexer.Cursor.Within.skip {c : Cursor} {text : List Char} (h : c.Within text) (n : Nat) :
    (c.skip n).Within text := by
  obtain ⟨front, htext, hplace⟩ := h
  refine ⟨front ++ c.rest.take n, ?_, ?_⟩
  · rw [List.append_assoc, Cursor.skip, List.take_append_drop, htext]
  · rw [Position.after_append, Cursor.skip, hplace]

/-- A bound for what the rest of a text weighs, from each place in it on: a word is paid for where
it is read. -/
structure Weight.Covers (w : Weight) (text : List Char) (left : Lexer.Cursor → Nat) : Prop where
  skip : ∀ c n, left (c.skip n) ≤ left c
  doc : ∀ place, w.of (some .bracket) false "doc" place = 0
  word : ∀ {c raw name rest} around, c.Within text → c.rest.head?.any Lexer.isBlank = false →
    Lexer.readIdent c.rest = some (raw, name, rest) →
    w.of around raw name c.place + left (c.skip (Token.identText raw name).length) ≤ left c

theorem Weight.Covers.inside {w : Weight} {text : List Char} {left : Lexer.Cursor → Nat}
    (h : w.Covers text left) (d : Delimiter) : (w.inside d).Covers text left :=
  ⟨h.skip, h.doc, h.word⟩

/-- The weight of what is read inside some open groups. -/
def Weight.within (w : Weight) : List Lexer.OpenGroup → Weight
  | [] => w
  | g :: _ => w.inside g.delimiter

theorem Weight.Covers.within {w : Weight} {text : List Char} {left : Lexer.Cursor → Nat}
    (h : w.Covers text left) (groups : List Lexer.OpenGroup) :
    (w.within groups).Covers text left := by
  cases groups with
  | nil => exact h
  | cons g _ => exact h.inside g.delimiter

namespace Lexer

variable {w : Weight} {text : List Char} {left : Cursor → Nat}

/-- What was read weighs: the tokens in the innermost open group, and those before each group. -/
def openWeight (w : Weight) : List OpenGroup → List Token → Nat
  | [], done => weigh w done
  | g :: outer, done => weigh (w.inside g.delimiter) done + openWeight w outer g.before

theorem openWeight_append (groups : List OpenGroup) (more done : List Token) :
    openWeight w groups (more ++ done)
      = weigh (w.within groups) more + openWeight w groups done := by
  cases groups with
  | nil => exact weigh_append more done
  | cons g outer => rw [openWeight, weigh_append, openWeight, Weight.within, Nat.add_assoc]

/-- A group that is closed weighs what it weighed while it was open. -/
theorem openWeight_close (d : Delimiter) (place close : Position) (outer : List OpenGroup)
    (before done : List Token) :
    openWeight w outer (.group d done.reverse place close :: before)
      = openWeight w (⟨d, place, before⟩ :: outer) done := by
  have hgroup : weigh (w.within outer) (Token.group d done.reverse place close)
      = weigh (w.inside d) done := by
    rw [weigh_group, weigh_reverse]
    cases outer <;> rfl
  rw [← List.singleton_append, openWeight_append, weigh_cons, weigh_nil, hgroup]
  rfl

/-- A token that is no group is an identifier in its spelling, or it weighs nothing. -/
theorem readLeaf_cases {c c' : Cursor} {t : Token} (h : readLeaf c = some (t, c')) :
    ∃ n, c' = c.skip n ∧ (((∀ raw name p, t ≠ .ident raw name p) ∧ ∀ w, weigh w t = 0) ∨
      ∃ raw name rest, readIdent c.rest = some (raw, name, rest) ∧ t = .ident raw name c.place ∧
        n = (Token.identText raw name).length) := by
  unfold readLeaf at h
  split at h
  · cases h
    exact ⟨_, rfl, .inl ⟨by simp, fun _ => rfl⟩⟩
  · split at h
    · cases h
    · split at h
      · split at h
        · cases h
          exact ⟨_, rfl, .inl ⟨by simp, fun _ => rfl⟩⟩
        · cases h
      · split at h
        · cases h
          exact ⟨_, rfl, .inl ⟨by simp, fun _ => rfl⟩⟩
        · split at h
          · cases h
            exact ⟨_, rfl, .inl ⟨by simp, fun _ => rfl⟩⟩
          · split at h
            · cases h
            · obtain ⟨⟨raw, name, rest⟩, hread, ht⟩ := Option.map_eq_some_iff.mp h
              cases ht
              exact ⟨_, rfl, .inr ⟨raw, name, rest, hread, rfl, rfl⟩⟩

theorem weigh_of_readLeaf (hw : w.Covers text left) {c c' : Cursor} {t : Token}
    (hc : c.Within text) (hblank : c.rest.head?.any isBlank = false)
    (h : readLeaf c = some (t, c')) : weigh w t + left c' ≤ left c := by
  obtain ⟨n, rfl, ⟨-, hnone⟩ | ⟨raw, name, rest, hread, rfl, rfl⟩⟩ := readLeaf_cases h
  · rw [hnone, Nat.zero_add]
    exact hw.skip c n
  · exact hw.word w.around hc hblank hread

theorem weigh_docComment (hw : w.Covers text left) (d : DocComment) (place : Position) :
    weigh w (d.tokens place) = 0 := by
  have hdoc : (w.inside .bracket).of (some .bracket) false "doc" place = 0 := hw.doc place
  unfold DocComment.tokens
  split <;> simp [Weight.inside] at hdoc ⊢ <;> exact hdoc

/-- What is read weighs no more than what was read before and the bound for the rest. -/
theorem weigh_of_run (hw : w.Covers text left) {fuel : Nat} {c : Cursor} {groups : List OpenGroup}
    {done ts : List Token} (hc : c.Within text) (h : run fuel c groups done = .ok ts) :
    weigh w ts ≤ openWeight w groups done + left c := by
  induction fuel generalizing c groups done with
  | zero => cases h
  | succ fuel ih =>
    have hskip (n : Nat) {groups : List OpenGroup} {done : List Token}
        (h : run fuel (c.skip n) groups done = .ok ts) :
        weigh w ts ≤ openWeight w groups done + left c :=
      Nat.le_trans (ih (hc.skip n) h) (Nat.add_le_add_left (hw.skip c n) _)
    unfold run at h
    split at h
    · split at h
      · cases h
        rw [weigh_reverse]
        exact Nat.le_add_right _ _
      · cases h
    · rename_i ch rest hrest
      split at h
      · exact hskip _ h
      rename_i hblank
      split at h
      · exact hskip _ h
      split at h
      · have hbound := hskip _ h
        rwa [openWeight_append, weigh_reverse, weigh_docComment (hw.within groups),
          Nat.zero_add] at hbound
      split at h
      · simpa [openWeight] using hskip _ h
      · split at h
        · cases h
        · rename_i g outer
          split at h
          · rename_i hd
            subst hd
            have hbound := hskip _ h
            rwa [openWeight_close] at hbound
          · cases h
      · split at h
        · rename_i t c' hleaf
          have hweight := weigh_of_readLeaf (hw.within groups) hc
            (by simpa [hrest] using hblank) hleaf
          obtain ⟨n, rfl, -⟩ := readLeaf_cases hleaf
          have hbound := ih (hc.skip n) h
          rw [← List.singleton_append, openWeight_append, weigh_cons, weigh_nil] at hbound
          omega
        · cases h

theorem weigh_tokens (hw : w.Covers text left) {ts : List Token} (h : tokens text = .ok ts) :
    weigh w ts ≤ left ⟨text, .start⟩ := by
  have hstart : Cursor.Within ⟨text, .start⟩ text := ⟨[], rfl, rfl⟩
  have hbound := weigh_of_run hw (hstart.skip _) h
  refine Nat.le_trans hbound ?_
  rw [openWeight, weigh_nil, Nat.zero_add]
  exact hw.skip _ _

/-- An identifier is read as it is spelled, up to its end. -/
theorem eq_append_of_readIdent {text rest : List Char} {raw : Bool} {name : String}
    (h : readIdent text = some (raw, name, rest)) :
    text = (Token.identText raw name).toList ++ rest ∧
      rest.head?.any Text.isIdentContinue = false := by
  unfold readIdent at h
  dsimp only at h
  split at h
  · rename_i c body hbody
    split at h
    · split at h
      · cases h
      · cases h
        have hname : (String.ofList (c :: body.takeWhile Text.isIdentContinue)).toList
            ++ body.dropWhile Text.isIdentContinue = c :: body := by
          rw [String.toList_ofList, List.cons_append, List.takeWhile_append_dropWhile]
        refine ⟨?_, ?_⟩
        · split at hbody
          · rename_i hraw
            obtain ⟨more, rfl⟩ := List.isPrefixOf_iff_prefix.mp hraw
            rw [hraw, Token.identText, if_pos rfl, String.toList_append, List.append_assoc, hname,
              ← hbody]
            rfl
          · rename_i hraw
            rw [Bool.eq_false_iff.mpr hraw, Token.identText, if_neg Bool.false_ne_true,
              hname, hbody]
        · cases hdrop : body.dropWhile Text.isIdentContinue with
          | nil => rfl
          | cons d rest =>
            have hd := List.head?_dropWhile_not Text.isIdentContinue body
            rw [hdrop] at hd
            simpa using hd
    · cases h
  · cases h

theorem isName_of_readIdent {text rest : List Char} {raw : Bool} {name : String}
    (h : readIdent text = some (raw, name, rest)) : isName name.toList = true := by
  unfold readIdent at h
  dsimp only at h
  split at h
  · rename_i c body _
    split at h
    · rename_i hc
      split at h
      · cases h
      · cases h
        exact isName_takeWhile hc
    · cases h
  · cases h

end Lexer

/-- Counts the identifiers that are no words. -/
def Weight.unworded : Weight where
  of _ _ name _ := if Lexer.isName name.toList then 0 else 1
  of_unnamed _ := by decide

theorem Weight.unworded_eq_zero {around : Option Delimiter} {raw : Bool} {name : String}
    {place : Position} : Weight.unworded.of around raw name place = 0 ↔
      Lexer.isName name.toList = true := by
  simp [unworded]

theorem Weight.uniform_unworded : Weight.unworded.Uniform := fun _ _ _ _ _ => rfl

theorem Weight.covers_unworded (text : List Char) : Weight.unworded.Covers text fun _ => 0 where
  skip _ _ := Nat.le_refl _
  doc _ := unworded_eq_zero.mpr (by decide)
  word _ _ _ h := by simp [unworded, Lexer.isName_of_readIdent h]

namespace Grammar

/-- A source file weighs no more than its text, if types count nothing. -/
theorem weigh_readSource_le {w : Weight} {text : List Char} {left : Lexer.Cursor → Nat}
    (hw : w.Covers (dropInterpreter (Lexer.dropMark text)) left) (hdeclared : w.declared = 0)
    {file : File} (h : readSource text = .ok file) :
    weigh w file ≤ left ⟨dropInterpreter (Lexer.dropMark text), .start⟩ := by
  unfold readSource read tokensOf at h
  split at h
  · rename_i ts hts
    have hfile := weigh_le_of_readAll (w := w) (fun _ h => Frugal.file h hdeclared) h
    exact Nat.le_trans hfile (Lexer.weigh_tokens hw hts)
  · cases h

theorem weigh_readSource {text : List Char} {file : File} (h : readSource text = .ok file) :
    weigh .unworded file = 0 :=
  Nat.le_zero.mp (weigh_readSource_le (Weight.covers_unworded _) rfl h)

end Grammar

end Observable
