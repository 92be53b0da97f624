import Observable.Layout.Class
import Observable.Token.Basic
/-! Tokens up to their places and to the spacing of punctuation that no operator joins with what
follows it. -/
namespace Observable

/-- Whether two characters stand side by side in an operator. -/
def joins (c d : Char) : Bool :=
  Layout.operators.any fun o => (o.toList.zip o.toList.tail).contains (c, d)

/-- Whether the characters of a text that stand side by side do so in an operator. -/
def isJoined : List Char → Bool
  | c :: d :: rest => joins c d && isJoined (d :: rest)
  | _ => true

/-- Whether a token is punctuation that some punctuation in front of it can be joined with. -/
def Token.joinsAfter (c : Char) : Token → Bool
  | .punct d _ _ => joins c d
  | _ => false

/-- Whether it matters for punctuation in front of a token that it is joint with it: it is the mark
of a lifetime, or an operator can go on with that token. -/
def bindsTo (c : Char) (next : Option Token) : Bool := c = '\'' || next.any (·.joinsAfter c)

mutual
/-- A token that stands nowhere, with a spacing only where it matters. -/
def Token.settled (next : Option Token) : Token → Token
  | .ident raw name _ => .ident raw name .start
  | .punct c spacing _ => .punct c (if bindsTo c next then spacing else .alone) .start
  | .literal text _ => .literal text .start
  | .group d body _ _ => .group d (settledTokens body) .start .start

def settledTokens : List Token → List Token
  | [] => []
  | t :: ts => t.settled ts.head? :: settledTokens ts
end

theorem bindsTo_unplaced (c : Char) (ts : List Token) :
    bindsTo c (unplacedTokens ts).head? = bindsTo c ts.head? := by
  rcases ts with _ | ⟨_ | _ | _ | _, ts⟩ <;> rfl

mutual
theorem settled_unplaced (t : Token) (ts : List Token) :
    t.unplaced.settled (unplacedTokens ts).head? = t.settled ts.head? := by
  cases t with
  | punct c s p => simp only [Token.unplaced, Token.settled, bindsTo_unplaced]
  | group d body p q => simp only [Token.unplaced, Token.settled, settledTokens_unplaced body]
  | _ => rfl

theorem settledTokens_unplaced (ts : List Token) :
    settledTokens (unplacedTokens ts) = settledTokens ts := by
  cases ts with
  | nil => rfl
  | cons t ts =>
    rw [unplacedTokens, settledTokens, settledTokens, settled_unplaced t ts,
      settledTokens_unplaced ts]
end

end Observable
