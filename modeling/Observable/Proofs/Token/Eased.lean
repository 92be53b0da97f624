import Observable.Proofs.Layout.Places
/-! Tokens up to their places and to the spacing that a layout may change. -/
namespace Observable

def Token.isPunct : Token → Bool
  | .punct .. => true
  | _ => false

/-- Whether no punctuation stands at the front of a row. -/
def noPunctAhead (ts : List Token) : Bool := !ts.head?.any Token.isPunct

/-- Punctuation that a layout may join with what follows it. -/
def isSoft (c : Char) : Bool := c = '&' || c = '<' || c = '>' || c = ','

mutual
/-- A token that stands nowhere; the spacing of soft punctuation that other punctuation follows is
dropped. -/
def Token.eased (followed : Bool) : Token → Token
  | .ident raw name _ => .ident raw name .start
  | .punct c s _ => .punct c (if followed && isSoft c then .alone else s) .start
  | .literal text _ => .literal text .start
  | .group d body _ _ => .group d (easedTokens body) .start .start

/-- Tokens that stand nowhere, without the spacing of soft punctuation that other punctuation
follows. -/
def easedTokens : List Token → List Token
  | [] => []
  | t :: ts => t.eased (!noPunctAhead ts) :: easedTokens ts
end

theorem noPunctAhead_unplacedTokens (ts : List Token) :
    noPunctAhead (unplacedTokens ts) = noPunctAhead ts := by
  rcases ts with _ | ⟨_ | _ | _ | _, ts⟩ <;> rfl

theorem noPunctAhead_easedTokens (ts : List Token) :
    noPunctAhead (easedTokens ts) = noPunctAhead ts := by
  rcases ts with _ | ⟨_ | _ | _ | _, ts⟩ <;> rfl

mutual
theorem Token.eased_unplaced (followed : Bool) (t : Token) :
    t.unplaced.eased followed = t.eased followed := by
  cases t with
  | group d body p q => simp only [Token.unplaced, Token.eased, easedTokens_unplacedTokens body]
  | _ => rfl

theorem easedTokens_unplacedTokens (ts : List Token) :
    easedTokens (unplacedTokens ts) = easedTokens ts := by
  cases ts with
  | nil => rfl
  | cons t ts =>
    simp only [unplacedTokens, easedTokens, Token.eased_unplaced _ t, noPunctAhead_unplacedTokens,
      easedTokens_unplacedTokens ts]
end

end Observable
