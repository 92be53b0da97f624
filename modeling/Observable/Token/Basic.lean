import Observable.Text.Position
/-! Tokens of Rust source text, with delimited groups as trees. -/
namespace Observable

/-- Whether a punctuation character is directly followed by another one. -/
inductive Spacing where
  | alone
  | joint
deriving DecidableEq, Repr, Inhabited

/-- The delimiters of a group; an invisible group has none in the text. -/
inductive Delimiter where
  | parenthesis
  | bracket
  | brace
  | invisible
deriving DecidableEq, Repr, Inhabited

namespace Delimiter

def opening : Delimiter → String
  | parenthesis => "("
  | bracket => "["
  | brace => "\x7b"
  | invisible => ""

def closing : Delimiter → String
  | parenthesis => ")"
  | bracket => "]"
  | brace => "\x7d"
  | invisible => ""

end Delimiter

/-- One token, placed where it begins; a group also knows where it closes. -/
inductive Token where
  | ident (raw : Bool) (name : String) (place : Position)
  | punct (char : Char) (spacing : Spacing) (place : Position)
  | literal (text : String) (place : Position)
  | group (delimiter : Delimiter) (body : List Token) (place close : Position)
deriving Repr, Inhabited

namespace Token

def place : Token → Position
  | ident _ _ p => p
  | punct _ _ p => p
  | literal _ p => p
  | group _ _ p _ => p

/-- The spelling of an identifier, with the mark of a raw one. -/
def identText (raw : Bool) (name : String) : String := if raw then "r#" ++ name else name

/-- The characters of an operator as tokens: each is joint with the next one. -/
def operator (chars : List Char) (place : Position) : List Token :=
  match chars with
  | [] => []
  | [c] => [punct c .alone place]
  | c :: rest => punct c .joint place :: operator rest place

/-- The tokens of a literal: a leading minus sign is a token of its own. -/
def ofLiteral (text : String) (place : Position) : List Token :=
  match text.toList with
  | '-' :: rest => [punct '-' .alone place, literal (String.ofList rest) place]
  | _ => [literal text place]

end Token

mutual
/-- Whether two tokens are spelled alike, wherever they stand. -/
def Token.sameAs : Token → Token → Bool
  | .ident r n _, .ident r' n' _ => r == r' && n == n'
  | .punct c s _, .punct c' s' _ => c == c' && s == s'
  | .literal t _, .literal t' _ => t == t'
  | .group d b _ _, .group d' b' _ _ => d == d' && sameTokens b b'
  | _, _ => false

/-- Whether two rows of tokens are spelled alike. -/
def sameTokens : List Token → List Token → Bool
  | [], [] => true
  | t :: ts, u :: us => t.sameAs u && sameTokens ts us
  | _, _ => false
end

mutual
/-- A token that stands nowhere. -/
def Token.unplaced : Token → Token
  | .ident raw name _ => .ident raw name .start
  | .punct c spacing _ => .punct c spacing .start
  | .literal text _ => .literal text .start
  | .group d body _ _ => .group d (unplacedTokens body) .start .start

/-- Tokens that stand nowhere. -/
def unplacedTokens : List Token → List Token
  | [] => []
  | t :: ts => t.unplaced :: unplacedTokens ts
end

mutual
/-- The number of tokens in a token, itself included. -/
def Token.count : Token → Nat
  | .group _ body _ _ => countTokens body + 2
  | _ => 1

/-- The number of tokens in a row, those inside groups included. -/
def countTokens : List Token → Nat
  | [] => 0
  | t :: ts => t.count + countTokens ts
end

end Observable
