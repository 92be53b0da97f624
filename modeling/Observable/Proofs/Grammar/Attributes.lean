import Observable.Proofs.Grammar.Statements
/-! Reading attributes and visibilities. -/
namespace Observable

mutual
/-- Whether no soft punctuation in a token has other punctuation after it; a flag tells whether
some follows the token. -/
def Token.isFirm (followed : Bool) : Token → Bool
  | .punct c _ _ => !(followed && isSoft c)
  | .group _ body _ _ => isFirm body
  | _ => true

/-- Whether no soft punctuation in a row has other punctuation after it. -/
def isFirm : List Token → Bool
  | [] => true
  | t :: ts => t.isFirm (!noPunctAhead ts) && isFirm ts
end

mutual
theorem Token.eased_of_isFirm {followed : Bool} {t : Token}
    (h : (t.eased followed).isFirm followed = true) : t.eased followed = t.unplaced := by
  cases t with
  | punct c s p =>
    have hsoft : (followed && isSoft c) = false := (Bool.not_eq_true' _).mp h
    simp [Token.eased, Token.unplaced, hsoft]
  | group d body p q =>
    rw [Token.eased, Token.isFirm] at h
    rw [Token.eased, Token.unplaced, easedTokens_of_isFirm h]
  | _ => rfl

/-- A firm row has one spacing. -/
theorem easedTokens_of_isFirm {ts : List Token} (h : isFirm (easedTokens ts) = true) :
    easedTokens ts = unplacedTokens ts := by
  cases ts with
  | nil => rfl
  | cons t ts =>
    rw [easedTokens, isFirm, noPunctAhead_easedTokens, Bool.and_eq_true] at h
    rw [easedTokens, unplacedTokens, Token.eased_of_isFirm h.1, easedTokens_of_isFirm h.2]
end

namespace Grammar

variable {rules : Rules} {us vs : List Token} {name : String}

/-- What stands in the brackets of an attribute that can be read. -/
def IsMeta (rules : Rules) (body : List Token) : Prop :=
  Reads (metaItem rules) body [] (·.unplaced = body)

theorem reads_outerAttribute {body : List Token} (h : IsMeta rules body) :
    Reads (outerAttribute rules) (Quote.attr body ++ vs) vs (·.unplaced = Quote.attr body) := by
  have hinside : Reads (do return [← metaItem rules]) body [] (unplacedTrees · = body) := by
    refine h.bind fun item hitem => .pure ?_
    simpa using hitem
  unfold outerAttribute
  refine .bind (.op rfl rfl) fun pound hpound =>
    .bind (.within hinside) fun group hgroup => .pure ?_
  simp [hpound, hgroup]
  rfl

/-- The attributes in front of something else. -/
theorem reads_outerAttributes {bodies : List (List Token)} (h : ∀ body ∈ bodies, IsMeta rules body)
    (hvs : spelledAhead ['#'] vs = false) :
    Reads (outerAttributes rules) (bodies.flatMap Quote.attr ++ vs) vs
      (unplacedTrees · = bodies.flatMap Quote.attr) := by
  have hrows : ∀ row ∈ bodies.map Quote.attr, row ≠ [] ∧ ∀ vs, Sees (Look.op "#") (row ++ vs) true ∧
      Reads (outerAttribute rules) (row ++ vs) vs (·.unplaced = row) := by
    intro row hrow
    obtain ⟨body, hbody, rfl⟩ := List.mem_map.mp hrow
    exact ⟨List.cons_ne_nil _ _, fun vs => ⟨.op rfl rfl, reads_outerAttribute (h body hbody)⟩⟩
  rw [List.flatMap_def]
  exact .whileAhead (.noOp hvs) hrows

/-- A line of documentation. -/
theorem isMeta_doc (line : String) :
    IsMeta rules ([Quote.word "doc"] ++ Quote.op "=" ++ [Quote.text line]) := by
  unfold IsMeta metaItem metaPath
  refine .bind (.skip (.word rfl) (reads_plainPath rfl (.noOp rfl))) fun path hpath => ?_
  unfold metaRest anyDelimiter
  refine .skip (.or (.or (.group rfl) (.group rfl)) (.group rfl)) (.take (.op rfl rfl) ?_)
  have hvalue : Reads (metaValue rules) [Quote.text line] [] (·.unplaced = [Quote.text line]) := by
    unfold metaValue
    refine .bind (.attempt (.bind .literal fun value hvalue =>
      .take (.atEnd rfl) (.pure hvalue))) ?_
    rintro _ ⟨value, rfl, hvalue⟩
    refine .pure ?_
    simpa [Quote.text, Quote.nowhere] using hvalue
  refine .bind (.op rfl rfl) fun equals hequals => .bind hvalue fun value hvalue => .pure ?_
  simp [hpath, hequals, hvalue]
  exact ⟨rfl, rfl⟩

/-- A word alone. -/
theorem isMeta_word (h : isIdentifier false name = true) : IsMeta rules [Quote.word name] := by
  unfold IsMeta metaItem metaPath
  refine .bind (.skip (.word (word_of_isIdentifier h (by decide) _ _))
    (reads_plainPath (by simp [Look.ident, h]) (.noOp rfl))) fun path hpath => ?_
  unfold metaRest anyDelimiter
  refine .skip (.or (.or (.group rfl) (.group rfl)) (.group rfl)) (.skip (.noOp rfl) (.pure ?_))
  simpa [Quote.word, Quote.nowhere] using hpath

/-- A word with arguments, which are kept as they are. -/
theorem isMeta_list {body : List Token} (h : isIdentifier false name = true)
    (hbody : isFirm body = true) : IsMeta rules [Quote.word name, Quote.parens body] := by
  unfold IsMeta metaItem metaPath
  refine .bind (.skip (.word (word_of_isIdentifier h (by decide) _ _))
    (reads_plainPath (by simp [Look.ident, h]) (.noOp rfl))) fun path hpath => ?_
  unfold metaRest anyDelimiter
  refine .take (.or_left (.or_left (.group rfl))) (.bind (.anyGroup (by decide) ?_)
    fun group hgroup => .pure ?_)
  · rintro ts rfl
    exact (easedTokens_of_isFirm hbody).symm
  · simp [hpath, hgroup]
    exact ⟨rfl, rfl⟩

/-- The mark of what everyone can see, in front of a word. -/
theorem reads_visibility_pub (h : Look.anyWord vs = true) :
    Reads visibility (Quote.word "pub" :: vs) vs fun vis =>
      vis.unplaced = [Quote.word "pub"] ∧ vis.isInherited = false := by
  have hopen : Sees restricts vs false := by
    rintro ts rfl
    rw [Steady.anyWord] at h
    rcases ts with _ | ⟨_ | _ | _ | _, ts⟩ <;> first | rfl | cases h
  unfold visibility
  refine .take (.word rfl) (.bind .word fun pub hpub => .skip hopen (.pure ⟨?_, rfl⟩))
  simpa [Quote.word, Quote.nowhere] using hpub

theorem reads_visibility_none (h : Look.word "pub" us = false) :
    Reads visibility us us (· = .node .visibility []) :=
  .skip (.word h) (.pure rfl)

end Grammar

end Observable
