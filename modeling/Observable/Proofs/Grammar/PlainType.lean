import Observable.Output.Quote
import Observable.Proofs.Grammar.Listing
import Observable.Proofs.Property.Identifier
import Observable.Proofs.Token.Tame
/-! Types that are built from plain names. -/
namespace Observable

/-- A name that is read as an identifier without a mark. -/
structure PlainName where
  text : String
  reads : ∃ p, Property.identifier? text = some (.ident false text p)

theorem PlainName.isIdentifier (n : PlainName) : Grammar.isIdentifier false n.text = true := by
  obtain ⟨p, hp⟩ := n.reads
  obtain ⟨raw, name, q, ht, hfree, -⟩ := Property.identifier?_eq_some hp
  cases ht
  exact hfree

def PlainName.token (n : PlainName) : Token := Quote.word n.text

/-- The name of a lifetime; a keyword can be one. -/
structure LifetimeName where
  text : String
  isWord : Lexer.isWord false text = true

def LifetimeName.tokens (l : LifetimeName) : List Token :=
  [.punct '\'' .joint Quote.nowhere, Quote.word l.text]

/-- The length of an array. -/
structure DecimalText where
  text : String
  isDecimal : isDecimal text.toList = true

open Grammar (separated)
open Quote

mutual
/-- A type of names, references, pointers, tuples, slices and arrays. -/
inductive PlainType where
  | path (first : PathPart) (rest : List PathPart)
  | reference (lifetime : Option LifetimeName) (mutable : Bool) (target : PlainType)
  | pointer (mutable : Bool) (target : PlainType)
  | tuple (parts : List PlainType) (trailing : Bool)
  | slice (element : PlainType)
  | array (element : PlainType) (length : DecimalText)

/-- A name in a path, bare or with arguments. -/
inductive PathPart where
  | bare (name : PlainName)
  | generic (name : PlainName) (lifetimes : List LifetimeName) (types : List PlainType)
    (trailing : Bool)
end

mutual
/-- The tokens of a type, as a type that was read holds them: the lifetimes come first among
arguments. -/
def PlainType.tokens : PlainType → List Token
  | .path first rest => separated (op "::") false (first.tokens :: pathRows rest)
  | .reference lifetime mutable target =>
    op "&" ++ lifetime.elim [] LifetimeName.tokens ++ (if mutable then [word "mut"] else [])
      ++ target.tokens
  | .pointer mutable target =>
    op "*" ++ [word (if mutable then "mut" else "const")] ++ target.tokens
  | .tuple parts trailing =>
    [parens (separated (op ",") (trailing || parts.length = 1) (typeRows parts))]
  | .slice element => [brackets element.tokens]
  | .array element length =>
    [brackets (element.tokens ++ op ";" ++ [.literal length.text nowhere])]

def PathPart.tokens : PathPart → List Token
  | .bare name => [name.token]
  | .generic name lifetimes types trailing =>
    [name.token] ++ op "<"
      ++ separated (op ",") trailing (lifetimes.map LifetimeName.tokens ++ typeRows types)
      ++ op ">"

def pathRows : List PathPart → List (List Token)
  | [] => []
  | part :: rest => part.tokens :: pathRows rest

def typeRows : List PlainType → List (List Token)
  | [] => []
  | type :: rest => type.tokens :: typeRows rest
end

theorem typeRows_eq (types : List PlainType) : typeRows types = types.map PlainType.tokens := by
  induction types with
  | nil => rfl
  | cons type types ih => rw [typeRows, ih, List.map_cons]

end Observable
