import Observable.Proofs.Evaluation
import Observable.Proofs.Grammar.Blurred.Spacing
import Observable.Proofs.Layout.Whole
import Observable.Proofs.Output.Canonical
import Observable.Token.Spaced
/-! Which sources say the same in their canonical text: where the layout writes punctuation with the
spacing that the source gives to it, and no number runs into a point. -/
namespace Observable

mutual
theorem Token.readable_unspaced (t : Token) : t.unspaced.Readable ↔ t.Readable := by
  cases t with
  | group d body p q => exact and_congr_right fun _ => readableTokens_unspaced body
  | _ => rfl

theorem readableTokens_unspaced (ts : List Token) :
    ReadableTokens (unspacedTokens ts) ↔ ReadableTokens ts := by
  cases ts with
  | nil => rfl
  | cons t ts => exact and_congr (Token.readable_unspaced t) (readableTokens_unspaced ts)
end

theorem Token.punct_of_unspaced {t : Token} {c : Char} {p : Position}
    (h : t.unspaced = .punct c .alone p) : ∃ s, t = .punct c s p := by
  cases t with
  | punct c' s' p' =>
    obtain ⟨rfl, -, rfl⟩ := Token.punct.inj h
    exact ⟨s', rfl⟩
  | _ => cases h

namespace Output

open Blurs

/-- What of a source and of the file that is read of it makes the layout of the file have the tokens
of the source, but for places and spacing. -/
structure Kept (source read : List Token) : Prop where
  /-- The file has all tokens of the source, in their order. -/
  whole : unspacedTokens read = unspacedTokens source
  /-- A name follows each mark of a lifetime, and documentation is spelled as that of comments
  is. -/
  plain : plainTokens read = true
  /-- No number is written right before a point that it would be read with. -/
  numbers : Layout.numbersApart (Layout.wholeFile read) = true

/-- What makes the layout of a file say the same as the source that the file is read of. -/
structure Steady (source read : List Token) : Prop extends Kept source read where
  /-- Punctuation that an operator can join with the next token is written with the spacing that it
  has in the source: what is joint there stands together, and what stands alone is kept apart. -/
  spacing : blur (.settling source)
    (respacedTokens (Layout.spacings (Layout.wholeFile read)) source)
    = blur (.settling source) source

instance (source read : List Token) : Decidable (Kept source read) :=
  decidable_of_iff
    (unspacedTokens read = unspacedTokens source ∧ plainTokens read = true ∧
      Layout.numbersApart (Layout.wholeFile read) = true)
    ⟨fun ⟨hwhole, hplain, hnumbers⟩ => ⟨hwhole, hplain, hnumbers⟩,
      fun ⟨hwhole, hplain, hnumbers⟩ => ⟨hwhole, hplain, hnumbers⟩⟩

instance (source read : List Token) : Decidable (Steady source read) :=
  decidable_of_iff
    (Kept source read ∧
      blur (.settling source) (respacedTokens (Layout.spacings (Layout.wholeFile read)) source)
        = blur (.settling source) source)
    ⟨fun ⟨hkept, hspacing⟩ => ⟨hkept, hspacing⟩, fun ⟨hkept, hspacing⟩ => ⟨hkept, hspacing⟩⟩

/-- The tokens of a source, after its mark of byte order and the line that names an interpreter. -/
def sourceTokens (raw : String) : Except Grammar.SyntaxError (List Token) :=
  Grammar.tokensOf (Grammar.dropInterpreter (Lexer.dropMark raw.toList))

theorem readUnit_eq_readAll {key raw : String} {source : List Token} {file : Grammar.File}
    (hsource : sourceTokens raw = .ok source) :
    readUnit key raw = .ok file ↔ Grammar.readAll source Grammar.file = .ok file := by
  have hread : Grammar.readSource raw.toList = Grammar.readAll source Grammar.file := by
    rw [Grammar.readSource, Grammar.read, ← sourceTokens, hsource]
    rfl
  rw [readUnit_eq_ok, hread]

theorem tokens_of_sourceTokens {raw : String} {source : List Token}
    (h : sourceTokens raw = .ok source) :
    Lexer.tokens (Grammar.dropInterpreter (Lexer.dropMark raw.toList)) = .ok source := by
  unfold sourceTokens Grammar.tokensOf at h
  split at h
  · rename_i tokens htokens
    rw [htokens, Except.ok.inj h]
  · cases h

/-- Two marks at the top of a file that has all its tokens are those of an attribute. -/
theorem brackets_of_unspaced {source ts : List Token} {file : Grammar.File}
    (hread : Grammar.readAll source Grammar.file = .ok file)
    (h : unspacedTokens ts = unspacedTokens source) {s s' : Spacing} {p p' : Position}
    {rest : List Token} (hts : ts = .punct '#' s p :: .punct '!' s' p' :: rest) :
    ∃ body q r more, rest = .group .bracket body q r :: more := by
  subst hts
  obtain ⟨t, u, us, rfl, ht, hu, hrest⟩ : ∃ t u us, source = t :: u :: us ∧
      t.unspaced = .punct '#' .alone p ∧ u.unspaced = .punct '!' .alone p' ∧
      unspacedTokens rest = unspacedTokens us := by
    rcases source with _ | ⟨t, _ | ⟨u, us⟩⟩ <;> simp [unspacedTokens, Token.unspaced] at h
    exact ⟨t, u, us, rfl, h.1.symm, h.2.1.symm, h.2.2⟩
  obtain ⟨s₁, rfl⟩ := Token.punct_of_unspaced ht
  obtain ⟨s₂, rfl⟩ := Token.punct_of_unspaced hu
  obtain ⟨body, q, r, more, rfl⟩ := Grammar.brackets_of_file hread
  rcases rest with _ | ⟨_ | _ | _ | ⟨d, body', q', r'⟩, rest⟩ <;>
    simp [unspacedTokens, Token.unspaced] at hrest
  obtain ⟨⟨rfl, -⟩, -⟩ := hrest
  exact ⟨body', q', r', rest, rfl⟩

/-- The layout of a file that keeps its source has the tokens of the source, with the spacing that
the layout gives to them. -/
theorem sourceTokens_layout {source : List Token} {raw : String} {file : Grammar.File}
    (hsource : sourceTokens raw = .ok source)
    (hread : Grammar.readAll source Grammar.file = .ok file)
    (h : Kept source file.tokens) :
    ∃ read, sourceTokens (layout file) = .ok read ∧
      unplacedTokens (unspacedTokens read) = unplacedTokens (unspacedTokens source) ∧
      spacingsOf read = Layout.spacings (Layout.wholeFile file.tokens) := by
  have hreadable : ReadableTokens file.tokens := by
    rw [← readableTokens_unspaced, h.whole, readableTokens_unspaced]
    exact Lexer.readable_of_tokens (tokens_of_sourceTokens hsource)
  obtain ⟨read, htokens, hsame, hspacings⟩ :=
    Layout.renderFile_tokens hreadable h.plain h.numbers
  have hfront := Layout.tokensOf_renderFile hreadable fun _ _ _ _ _ =>
    brackets_of_unspaced hread h.whole
  rw [h.whole] at hsame
  exact ⟨read, by rw [sourceTokens, layout, hfront, Grammar.tokensOf, htokens], hsame, hspacings⟩

/-- The canonical text of a source that is kept has the tokens of the source. -/
theorem sourceTokens_canonical {key raw text : String} {source : List Token} {file : Grammar.File}
    (hsource : sourceTokens raw = .ok source) (hread : readUnit key raw = .ok file)
    (h : Kept source file.tokens) (htext : canonical key raw false = .ok text) :
    ∃ read, sourceTokens text = .ok read ∧
      unplacedTokens (unspacedTokens read) = unplacedTokens (unspacedTokens source) := by
  obtain ⟨rfl, -⟩ := (canonical_eq_ok hread).mp htext
  rw [readUnit_eq_readAll hsource] at hread
  obtain ⟨read, htokens, hsame, -⟩ := sourceTokens_layout hsource hread h
  exact ⟨read, htokens, hsame⟩

/-- The plain text of some tokens is read as them, and as a file that keeps them. -/
def KeepsTokens (ts : List Token) : Prop :=
  ∃ source file, sourceTokens (spacedTokens ts) = .ok source ∧
    unplacedTokens (unspacedTokens source) = unplacedTokens (unspacedTokens ts) ∧
    Grammar.readAll source Grammar.file = .ok file ∧ Kept source file.tokens

theorem KeepsTokens.sourceTokens_canonical {key text : String} {ts : List Token}
    (h : KeepsTokens ts)
    (htext : canonical key (spacedTokens ts) false = .ok text) :
    ∃ read, sourceTokens text = .ok read ∧
      unplacedTokens (unspacedTokens read) = unplacedTokens (unspacedTokens ts) := by
  obtain ⟨source, file, hsource, hsame, hread, hkept⟩ := h
  obtain ⟨read, htokens, hread⟩ :=
    Output.sourceTokens_canonical hsource ((readUnit_eq_readAll hsource).mpr hread) hkept htext
  exact ⟨read, htokens, hread.trans hsame⟩

/-- The layout of a steady source is read as the file that it was made of, but for places and for
spacing that does not matter. -/
theorem readUnit_layout {key raw : String} {source : List Token} {file : Grammar.File}
    (hsource : sourceTokens raw = .ok source) (hread : readUnit key raw = .ok file)
    (h : Steady source file.tokens) :
    ∃ again, readUnit key (layout file) = .ok again ∧
      settledTokens again.tokens = settledTokens file.tokens := by
  rw [readUnit_eq_readAll hsource] at hread
  obtain ⟨read, hlayout, hsame, hspacings⟩ := sourceTokens_layout hsource hread h.toKept
  obtain ⟨hunplaced, -⟩ := unplacedTokens_respaced [] hsame
  rw [List.append_nil, hspacings] at hunplaced
  obtain ⟨again, hagain, hsettled⟩ :=
    Grammar.readAll_settled hread h.whole h.spacing hunplaced.symm
  exact ⟨again, (readUnit_eq_readAll hlayout).mpr hagain, hsettled⟩

end Output

end Observable
