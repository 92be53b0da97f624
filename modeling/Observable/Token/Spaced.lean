import Observable.Token.Basic
/-! The plain text of tokens: one space between two tokens, none after a joint punctuation. -/
namespace Observable

mutual
def Token.spaced : Token → String
  | .ident raw name _ => Token.identText raw name
  | .punct c _ _ => String.singleton c
  | .literal text _ => text
  | .group .brace [] _ _ => "\x7b \x7d"
  | .group .brace body _ _ => "\x7b " ++ spacedTokens body ++ " \x7d"
  | .group d body _ _ => d.opening ++ spacedTokens body ++ d.closing

/-- The plain text of a row of tokens. -/
def spacedTokens : List Token → String
  | [] => ""
  | [t] => t.spaced
  | .punct c .joint _ :: t :: ts => String.singleton c ++ spacedTokens (t :: ts)
  | t :: u :: ts => t.spaced ++ " " ++ spacedTokens (u :: ts)
end

end Observable
