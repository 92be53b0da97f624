import Observable.Token.Basic
import Observable.Token.Literal
/-! What stands at the front of a row of tokens. -/
namespace Observable.Grammar

/-- Words that are not identifiers unless they are raw. -/
def reservedWords : List String :=
  ["_", "abstract", "as", "async", "await", "become", "box", "break", "const", "continue", "crate",
   "do", "dyn", "else", "enum", "extern", "false", "final", "fn", "for", "if", "impl", "in", "let",
   "loop", "macro", "match", "mod", "move", "mut", "override", "priv", "pub", "ref", "return",
   "Self", "self", "static", "struct", "super", "trait", "true", "try", "type", "typeof", "unsafe",
   "unsized", "use", "virtual", "where", "while", "yield"]

def isIdentifier (raw : Bool) (name : String) : Bool := raw || !reservedWords.contains name

namespace Look

/-- The given punctuation, all but the last character joint with the next. -/
def spells : List Char → List Token → Bool
  | [], _ => true
  | [c], .punct d _ _ :: _ => c = d
  | c :: cs, .punct d s _ :: rest => c = d && s = .joint && spells cs rest
  | _, _ => false

def op (text : String) (ts : List Token) : Bool := spells text.toList ts

def word (name : String) : List Token → Bool
  | .ident false n _ :: _ => n = name
  | _ => false

def anyOf (names : List String) (ts : List Token) : Bool := names.any (word · ts)

def ident : List Token → Bool
  | .ident raw name _ :: _ => isIdentifier raw name
  | _ => false

def anyWord : List Token → Bool
  | .ident .. :: _ => true
  | _ => false

def group (d : Delimiter) : List Token → Bool
  | .group d' _ _ _ :: _ => d = d'
  | _ => false

def paren : List Token → Bool := group .parenthesis

def bracket : List Token → Bool := group .bracket

def brace : List Token → Bool := group .brace

def lifetime : List Token → Bool
  | .punct '\'' .joint _ :: .ident .. :: _ => true
  | _ => false

/-- The text of the literal ahead, with its sign; only numbers take one. -/
def literalText? : List Token → Option String
  | .literal text _ :: _ => some text
  | .ident false name _ :: _ => if name = "true" || name = "false" then some name else none
  | .punct '-' _ _ :: .literal text _ :: _ =>
    match Literal.form text.toList with
    | .integer .. | .decimal => some ("-" ++ text)
    | _ => none
  | _ => none

def literal (ts : List Token) : Bool := (literalText? ts).isSome

def literalForm? (ts : List Token) : Option Literal.Form :=
  (literalText? ts).map fun text => Literal.form text.toList

def string (ts : List Token) : Bool :=
  match literalForm? ts with
  | some (.string _) => true
  | _ => false

def integer (ts : List Token) : Bool :=
  match literalForm? ts with
  | some (.integer ..) => true
  | _ => false

/-- The tokens after the first one; a lifetime counts as one. -/
def skip : List Token → List Token
  | .punct '\'' .joint _ :: .ident .. :: rest => rest
  | _ :: rest => rest
  | [] => []

def second (look : List Token → Bool) (ts : List Token) : Bool :=
  !ts.isEmpty && look (skip ts)

def third (look : List Token → Bool) (ts : List Token) : Bool :=
  !ts.isEmpty && second look (skip ts)

end Look

end Observable.Grammar
