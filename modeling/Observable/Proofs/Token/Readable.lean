import Observable.Proofs.Token.Boundary
import Observable.Proofs.Token.Compact
/-! Tokens that can be read: each of them is what some text is read as. -/
namespace Observable

open Lexer

/-- Whether a text is that of a literal, which some text goes on with. -/
def IsLiteralText (text : String) : Prop :=
  text = failedExpansion ∨ ∃ next, Literal.read (text.toList ++ next) = some next

mutual
/-- A token that can be read from a text: its name, its mark or its text is one that a text has, and
groups have delimiters. -/
def Token.Readable : Token → Prop
  | .ident raw name _ => isWord raw name = true
  | .punct c _ _ => isPunct c = true
  | .literal text _ => IsLiteralText text
  | .group d body _ _ => d ≠ .invisible ∧ ReadableTokens body

def ReadableTokens : List Token → Prop
  | [] => True
  | t :: ts => t.Readable ∧ ReadableTokens ts
end

theorem readableTokens_iff {ts : List Token} : ReadableTokens ts ↔ ∀ t ∈ ts, t.Readable := by
  induction ts with
  | nil => simp [ReadableTokens]
  | cons t ts ih => rw [ReadableTokens, ih, List.forall_mem_cons]

namespace Lexer

/-- The name that is read is spelled as it is, and a raw one is none that cannot be raw. -/
theorem isWord_of_readIdent {text rest : List Char} {raw : Bool} {name : String}
    (hblank : text.head?.any isBlank = false) (h : readIdent text = some (raw, name, rest)) :
    isWord raw name = true := by
  rw [isWord, isName_of_readIdent h, Bool.true_and]
  unfold readIdent at h
  dsimp only at h
  split at h
  · rename_i c body hbody
    split at h
    · split at h
      · cases h
      · rename_i hunraw
        cases h
        cases hraw : startsWith "r#" text with
        | true => simpa [hraw] using hunraw
        | false =>
          rw [if_neg (by simp [hraw])] at hbody
          simpa [hbody] using hblank
    · cases h
  · cases h

theorem readable_of_readLeaf {c c' : Cursor} {ch : Char} {rest : List Char} {t : Token}
    (hrest : c.rest = ch :: rest) (hblank : isBlank ch = false)
    (h : readLeaf c = some (t, c')) : t.Readable := by
  unfold readLeaf at h
  split at h
  · rename_i tail hread
    cases h
    refine .inr ⟨tail, ?_⟩
    obtain ⟨front, hfront⟩ := (Literal.read_reads hread).suffix
    rw [String.toList_ofList, Cursor.upTo, ← hfront, List.length_append, Nat.add_sub_cancel,
      List.take_left, hfront, hread]
  · split at h
    · cases h
    · rename_i ch' tail heq
      split at h
      · split at h
        · rename_i htick _
          cases h
          exact show isPunct ch' = true from htick ▸ by decide
        · cases h
      · split at h
        · rename_i hahead
          cases h
          rw [punctAhead, heq, Bool.and_eq_true] at hahead
          exact show isPunct ch' = true by simpa using hahead.2
        · split at h
          · cases h
            exact .inl rfl
          · split at h
            · cases h
            · obtain ⟨⟨raw, name, after⟩, hread, ht⟩ := Option.map_eq_some_iff.mp h
              cases ht
              exact isWord_of_readIdent (by simpa [hrest] using hblank) hread

theorem isLiteralText_quoted (value : List Char) :
    IsLiteralText (String.ofList (Text.quoted value)) := by
  refine .inr ⟨[], ?_⟩
  rw [String.toList_ofList]
  exact Literal.read_quoted value rfl

theorem readable_docComment (d : DocComment) (place : Position) :
    ReadableTokens (d.tokens place) := by
  have hmark : ∀ c ∈ ['#', '!', '='], isPunct c = true :=
    forall_mem_of_all (by decide)
  have hname : isWord false "doc" = true := by decide
  have hbody : ReadableTokens [.ident false "doc" place, .punct '=' .alone place,
      .literal (String.ofList (Text.quoted d.text)) place] :=
    ⟨hname, hmark '=' (by decide), isLiteralText_quoted d.text, trivial⟩
  have hgroup : ReadableTokens [.group .bracket [.ident false "doc" place, .punct '=' .alone place,
      .literal (String.ofList (Text.quoted d.text)) place] place place] :=
    ⟨⟨by decide, hbody⟩, trivial⟩
  unfold DocComment.tokens
  dsimp only
  split
  · exact ⟨hmark '#' (by decide), hmark '!' (by decide), hgroup⟩
  · exact ⟨hmark '#' (by decide), hgroup⟩

theorem isLexical_readable : IsLexical Token.Readable where
  leaf := readable_of_readLeaf
  doc d place := readableTokens_iff.mp (readable_docComment d place)
  group hd hbody := ⟨hd, readableTokens_iff.mpr hbody⟩

/-- The tokens of a text can be read. -/
theorem readable_of_tokens {text : List Char} {ts : List Token} (h : tokens text = .ok ts) :
    ReadableTokens ts := readableTokens_iff.mpr (isLexical_readable.tokens h)

end Lexer

end Observable
