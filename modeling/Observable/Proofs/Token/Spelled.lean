import Observable.Proofs.Property.Identifier
import Observable.Proofs.Token.Spelling
import Observable.Proofs.Token.Words
/-! What is read as an identifier can be spelled as one. -/
namespace Observable

open Weighed

/-- Counts the identifiers that cannot be spelled. -/
def Weight.unspelled : Weight where
  of _ raw name _ := if Lexer.isWord raw name then 0 else 1
  of_unnamed _ := by decide

theorem Weight.unspelled_eq_zero {around : Option Delimiter} {raw : Bool} {name : String}
    {place : Position} : Weight.unspelled.of around raw name place = 0 ↔
      Lexer.isWord raw name = true := by
  simp [unspelled]

namespace Lexer

theorem spelled_of_readIdent {text rest : List Char} {raw : Bool} {name : String}
    (hblank : text.head?.any isBlank = false) (h : readIdent text = some (raw, name, rest)) :
    isWord raw name = true := by
  unfold readIdent at h
  dsimp only at h
  split at h
  · rename_i c body hbody
    split at h
    · rename_i hc
      split at h
      · cases h
      · rename_i hraw
        cases h
        have hname : isName (c :: body.takeWhile Text.isIdentContinue) = true := by
          simp [isName, hc]
        simp only [isWord, String.toList_ofList, hname, Bool.true_and]
        split
        · rename_i hr
          simpa [hr] using hraw
        · rename_i hr
          rw [if_neg hr] at hbody
          simpa [hbody] using hblank
    · cases h
  · cases h

theorem covers_unspelled (text : List Char) : Weight.unspelled.Covers text fun _ => 0 where
  skip _ _ := Nat.le_refl _
  doc _ := Weight.unspelled_eq_zero.mpr (by decide)
  word _ _ hblank h := by simp [Weight.unspelled, spelled_of_readIdent hblank h]

end Lexer

/-- An identifier can be spelled. -/
theorem Property.isWord_of_identifier? {text : String} {raw : Bool} {name : String} {p : Position}
    (h : identifier? text = some (.ident raw name p)) : Lexer.isWord raw name = true := by
  obtain ⟨raw, name, q, ht, -, htokens⟩ := identifier?_eq_some h
  cases ht
  have hweight := Nat.le_zero.mp (Lexer.weigh_tokens (Lexer.covers_unspelled _) htokens)
  rw [weigh_cons, weigh_ident, Nat.add_eq_zero_iff] at hweight
  exact Weight.unspelled_eq_zero.mp hweight.1

end Observable
