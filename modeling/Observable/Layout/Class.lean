/-! Classes of written tokens, which decide the spacing before the next one. -/
namespace Observable.Layout

/-- The class of the last token written. -/
inductive Class where
  | start
  | word (keyword generic gluesParen : Bool)
  | literal
  | tick
  | lifetime
  | unary
  | pathSep
  | range
  | genericOpen
  | genericClose
  | closureOpen
  | colon
  | comma
  | semi
  | bang
  | hash
  | dollar
  | dot
  | question
  | punct
  | group
  | block
  | attr
deriving DecidableEq, Repr, Inhabited

namespace Class

def glues : Class → Bool
  | start | tick | unary | pathSep | range | genericOpen | closureOpen | dot | hash | dollar => true
  | _ => false

def expectsOperand : Class → Bool
  | start | punct | comma | colon | semi | block | attr | unary | genericOpen | closureOpen
  | range => true
  | word keyword _ _ => keyword
  | _ => false

/-- Tokens that end an operand, so that a dot or a question mark can follow. -/
def endsOperand : Class → Bool
  | word .. | literal | group | genericClose | question | block => true
  | _ => false

def isPlainWord : Class → Bool
  | word keyword _ _ => !keyword
  | _ => false

def isWord : Class → Bool
  | word .. => true
  | _ => false

end Class

def operators : List String :=
  ["<<=", ">>=", "...", "..=", "::", "->", "=>", "==", "!=", "<=", ">=", "&&", "||", "+=", "-=",
   "*=", "/=", "%=", "^=", "&=", "|=", "<<", ">>", ".."]

/-- Words after which an operand, not an operator, is expected. -/
def keywords : List String :=
  ["as", "async", "break", "const", "continue", "dyn", "else", "enum", "extern", "fn", "for", "if",
   "impl", "in", "let", "loop", "match", "mod", "move", "mut", "pub", "ref", "return", "static",
   "struct", "trait", "type", "unsafe", "use", "where", "while", "yield"]

/-- Words whose next identifier names a declaration that may take generics. -/
def declarations : List String := ["enum", "fn", "struct", "trait", "type", "union"]

/-- Words that open an item; a block that ends before one gets a blank line. -/
def itemStarts : List String :=
  ["pub", "fn", "const", "static", "struct", "enum", "union", "trait", "impl", "type", "mod", "use",
   "extern", "macro_rules"]

end Observable.Layout
