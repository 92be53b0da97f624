import Observable.Proofs.Token.Eased
/-! Tokens with the spacing of their punctuation taken out and put in again. -/
namespace Observable

mutual
/-- The spacings of the punctuation in a token, in order. -/
def Token.spacings : Token → List Spacing
  | .punct _ s _ => [s]
  | .group _ body _ _ => spacingsOf body
  | _ => []

def spacingsOf : List Token → List Spacing
  | [] => []
  | t :: ts => t.spacings ++ spacingsOf ts
end

mutual
/-- A token whose punctuation stands alone. -/
def Token.unspaced : Token → Token
  | .punct c _ p => .punct c .alone p
  | .group d body p q => .group d (unspacedTokens body) p q
  | t => t

def unspacedTokens : List Token → List Token
  | [] => []
  | t :: ts => t.unspaced :: unspacedTokens ts
end

mutual
/-- A token with the given spacings of its punctuation, as far as they reach. -/
def Token.respaced (spacings : List Spacing) : Token → Token
  | .punct c s p => .punct c (spacings.headD s) p
  | .group d body p q => .group d (respacedTokens spacings body) p q
  | t => t

def respacedTokens (spacings : List Spacing) : List Token → List Token
  | [] => []
  | t :: ts => t.respaced spacings :: respacedTokens (spacings.drop t.spacings.length) ts
end

theorem spacingsOf_append (ts us : List Token) :
    spacingsOf (ts ++ us) = spacingsOf ts ++ spacingsOf us := by
  induction ts with
  | nil => rfl
  | cons t ts ih => rw [List.cons_append, spacingsOf, spacingsOf, ih, List.append_assoc]

theorem unspacedTokens_append (ts us : List Token) :
    unspacedTokens (ts ++ us) = unspacedTokens ts ++ unspacedTokens us := by
  induction ts with
  | nil => rfl
  | cons t ts ih => rw [List.cons_append, unspacedTokens, unspacedTokens, ih, List.cons_append]

mutual
theorem Token.unspaced_eased (followed : Bool) (t : Token) :
    (t.eased followed).unspaced = t.unspaced.unplaced := by
  cases t with
  | group d body p q =>
    simp only [Token.eased, Token.unspaced, Token.unplaced, unspacedTokens_eased body]
  | _ => rfl

theorem unspacedTokens_eased (ts : List Token) :
    unspacedTokens (easedTokens ts) = unplacedTokens (unspacedTokens ts) := by
  cases ts with
  | nil => rfl
  | cons t ts =>
    rw [easedTokens, unspacedTokens, unspacedTokens, unplacedTokens, Token.unspaced_eased,
      unspacedTokens_eased ts]
end

mutual
theorem Token.unplaced_respaced {t u : Token} (more : List Spacing)
    (h : t.unspaced.unplaced = u.unspaced.unplaced) :
    (u.respaced (t.spacings ++ more)).unplaced = t.unplaced ∧
      u.spacings.length = t.spacings.length := by
  cases t with
  | ident raw name p => cases u <;> simp_all [Token.unspaced, Token.unplaced, Token.respaced,
      Token.spacings]
  | literal text p => cases u <;> simp_all [Token.unspaced, Token.unplaced, Token.respaced,
      Token.spacings]
  | punct c s p => cases u <;> simp_all [Token.unspaced, Token.unplaced, Token.respaced,
      Token.spacings]
  | group d body p q =>
    cases u with
    | group d' body' p' q' =>
      obtain ⟨rfl, hbody⟩ : d = d' ∧ unplacedTokens (unspacedTokens body)
          = unplacedTokens (unspacedTokens body') := by
        simpa [Token.unspaced, Token.unplaced] using h
      obtain ⟨hrespaced, hlength⟩ := unplacedTokens_respaced more hbody
      exact ⟨by simp only [Token.respaced, Token.spacings, Token.unplaced, hrespaced], hlength⟩
    | _ => simp [Token.unspaced, Token.unplaced] at h

/-- Two rows that differ only in their places and their spacing differ only in their places when one
gets the spacing of the other. -/
theorem unplacedTokens_respaced {ts us : List Token} (more : List Spacing)
    (h : unplacedTokens (unspacedTokens ts) = unplacedTokens (unspacedTokens us)) :
    unplacedTokens (respacedTokens (spacingsOf ts ++ more) us) = unplacedTokens ts ∧
      (spacingsOf us).length = (spacingsOf ts).length := by
  cases ts with
  | nil =>
    cases us with
    | nil => exact ⟨rfl, rfl⟩
    | cons u us => cases h
  | cons t ts =>
    cases us with
    | nil => cases h
    | cons u us =>
      obtain ⟨hfirst, hrest⟩ := List.cons.inj h
      obtain ⟨ht, htLength⟩ := Token.unplaced_respaced (spacingsOf ts ++ more) hfirst
      obtain ⟨hts, htsLength⟩ := unplacedTokens_respaced more hrest
      simp only [spacingsOf, respacedTokens, unplacedTokens, List.append_assoc, ht,
        List.length_append, htLength, htsLength, List.drop_left, and_true]
      rw [hts]
end

end Observable
