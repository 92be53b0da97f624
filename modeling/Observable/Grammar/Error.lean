import Observable.Token.Basic
/-! Why a text is refused, and where. -/
namespace Observable.Grammar

/-- What could have stood where something else was found. -/
inductive Expectation where
  | spelled (text : String)
  | identifier
  | lifetime
  | literal
  | stringLiteral
  | integerLiteral
  | parentheses
  | squareBrackets
  | curlyBraces
deriving DecidableEq, Repr

/-- The name of an expectation in a message; spelled words stand between back quotes. -/
def Expectation.text : Expectation → String
  | spelled t => "`" ++ t ++ "`"
  | identifier => "identifier"
  | lifetime => "lifetime"
  | literal => "literal"
  | stringLiteral => "string literal"
  | integerLiteral => "integer literal"
  | parentheses => "parentheses"
  | squareBrackets => "square brackets"
  | curlyBraces => "curly braces"

/-- What is wrong with a text. -/
inductive Complaint where
  | unreadable
  | expected (alternatives : List Expectation)
  | leftover (closing : Delimiter)
  | foundKeyword (name : String)
  | noWord
  | noExpression
  | noMember
  | noSemicolon
  | noDelimiter
  | noPathSegment
  | noWordAfterColons
  | noUnderscore
  | noLoop
  | noRangeEnd
  | noCommaOrSemicolon
  | noPath
  | noNestedAttribute
  | literalInAttribute
  | tokenInAttribute
  | noIdentifierOrLiteral
  | suffixedInteger
  | integerTooLarge
  | integerMalformed
  | chainedComparison
  | castFollowedBy (what : String)
  | labelNeedsParentheses
  | attributeOnRange
  | attributeInAttribute
  | openRangeInSlice
  | noTrait
  | noTraitInObject
  | captureNotAllowed
  | constNotAllowed
  | maybeConstNotAllowed
  | binderWithMaybe
  | unexpectedReceiver
  | secondReceiver
  | tooDeep
  | custom (text : String)
deriving DecidableEq, Repr

def Expectation.choice : List Expectation → String
  | [] => "unexpected token"
  | [a] => "expected " ++ a.text
  | [a, b] => "expected " ++ a.text ++ " or " ++ b.text
  | many => "expected one of: " ++ String.intercalate ", " (many.map text)

def Complaint.text : Complaint → String
  | unreadable => "cannot parse string into token stream"
  | expected alternatives => Expectation.choice alternatives
  | leftover .parenthesis => "unexpected token, expected `)`"
  | leftover .bracket => "unexpected token, expected `]`"
  | leftover .brace => "unexpected token, expected `\x7d`"
  | leftover .invisible => "unexpected token"
  | foundKeyword name => "expected identifier, found keyword `" ++ name ++ "`"
  | noWord => "expected ident"
  | noExpression => "expected an expression"
  | noMember => "expected identifier or integer"
  | noSemicolon => "unexpected token, expected `;`"
  | noDelimiter => "expected delimiter"
  | noPathSegment => "expected path segment after `::`"
  | noWordAfterColons => "expected path segment"
  | noUnderscore => "expected identifier or underscore"
  | noLoop => "expected loop or block expression"
  | noRangeEnd => "expected range upper bound"
  | noCommaOrSemicolon => "expected `,` or `;`"
  | noPath => "expected path"
  | noNestedAttribute => "expected nested attribute"
  | literalInAttribute => "unexpected literal in nested attribute, expected ident"
  | tokenInAttribute => "unexpected token in nested attribute, expected ident"
  | noIdentifierOrLiteral => "expected identifier or literal"
  | suffixedInteger => "expected unsuffixed integer"
  | integerTooLarge => "number too large to fit in target type"
  | integerMalformed => "invalid digit found in string"
  | chainedComparison => "comparison operators cannot be chained"
  | castFollowedBy what => "casts cannot be followed by " ++ what
  | labelNeedsParentheses => "parentheses required"
  | attributeOnRange => "attributes are not allowed on range expressions starting with `..`"
  | attributeInAttribute => "unexpected attribute inside of attribute"
  | openRangeInSlice => "range pattern is not allowed unparenthesized inside slice pattern"
  | noTrait => "at least one trait must be specified"
  | noTraitInObject => "at least one trait is required for an object type"
  | captureNotAllowed => "`use<...>` precise capturing syntax is not allowed here"
  | constNotAllowed => "`const` is not allowed here"
  | maybeConstNotAllowed => "`[const]` is not allowed here"
  | binderWithMaybe => "`for<...>` binder not allowed with `?` trait polarity modifier"
  | unexpectedReceiver => "unexpected method receiver"
  | secondReceiver => "unexpected second method receiver"
  | tooDeep => "nesting is too deep"
  | custom t => t

/-- A refusal: the complaint, its place, and whether the text ended there. -/
structure SyntaxError where
  place : Position
  complaint : Complaint
  atEnd : Bool := false
deriving DecidableEq, Repr

def SyntaxError.message (e : SyntaxError) : String :=
  if e.atEnd then "unexpected end of input, " ++ e.complaint.text else e.complaint.text

end Observable.Grammar
