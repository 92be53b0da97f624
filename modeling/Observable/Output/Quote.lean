import Observable.Text.Printable
import Observable.Token.Basic
/-! Tokens of generated text, which stand nowhere. -/
namespace Observable.Quote

/-- The place of a token that was not read. -/
def nowhere : Position := .start

def word (name : String) : Token := .ident false name nowhere

def words (names : List String) : List Token := names.map word

def op (text : String) : List Token := Token.operator text.toList nowhere

def text (value : String) : Token := .literal (String.ofList (Text.quoted value.toList)) nowhere

def parens (body : List Token) : Token := .group .parenthesis body nowhere nowhere

def brackets (body : List Token) : Token := .group .bracket body nowhere nowhere

def braces (body : List Token) : Token := .group .brace body nowhere nowhere

def attr (body : List Token) : List Token := op "#" ++ [brackets body]

def doc (line : String) : List Token := attr ([word "doc"] ++ op "=" ++ [text line])

/-- A path from the root of all libraries. -/
def libraryPath (names : List String) : List Token :=
  names.flatMap fun name => op "::" ++ [word name]

end Observable.Quote
