import Observable.Grammar.Item
import Observable.Token.Lexer
/-! Reading whole texts: the rules of the grammar tied together, and what can be read with them. -/
namespace Observable.Grammar

namespace Rules

def exhausted : Rules where
  type _ := refuse .tooDeep
  expression _ := refuse .tooDeep
  unary _ := refuse .tooDeep
  climb _ _ _ := refuse .tooDeep
  early := refuse .tooDeep
  pattern := refuse .tooDeep
  statements := refuse .tooDeep
  item := refuse .tooDeep
  bound _ _ := refuse .tooDeep
  namedField := refuse .tooDeep
  useTree _ := refuse .tooDeep

/-- The rules of the grammar for texts nested up to some depth. -/
def upTo : Nat → Rules
  | 0 => exhausted
  | n + 1 =>
    { type := fun plus s => typeTree (upTo n) plus s
      expression := fun struct s => expressionTree (upTo n) struct s
      unary := fun struct s => unaryTree (upTo n) struct s
      climb := fun struct left base s => Grammar.climb (upTo n) struct left base s
      early := fun s => earlyExpression (upTo n) s
      pattern := fun s => patternTree (upTo n) s
      statements := fun s => Grammar.statements (upTo n) s
      item := fun s => itemTree (upTo n) s
      bound := fun capturing constant s => Grammar.bound (upTo n) capturing constant s
      namedField := fun s => Grammar.namedField (upTo n) s
      useTree := fun rooted s => Grammar.useTree (upTo n) rooted s }

/-- Rules that suffice for some tokens: one token takes a bounded number of them. -/
def enough (tokens : List Token) : Rules := upTo (16 * (countTokens tokens + 1))

end Rules

/-- Reads all of some tokens that end at a place; the first one left over is refused. -/
def readUpTo {α : Type} (tokens : List Token) (close : Position) (p : Rules → Parser α) :
    Except SyntaxError α :=
  match p (Rules.enough tokens) { rest := tokens, close, delimiter := .invisible } with
  | .ok (a, s) =>
    match s.settled with
    | some (place, delimiter) => .error { place, complaint := .leftover delimiter }
    | none => .ok a
  | .error e => .error e

/-- Reads all of some tokens; a text ends where it starts. -/
def readAll {α : Type} (tokens : List Token) (p : Rules → Parser α) : Except SyntaxError α :=
  readUpTo tokens .start p

def tokensOf (text : List Char) : Except SyntaxError (List Token) :=
  match Lexer.tokens text with
  | .ok tokens => .ok tokens
  | .error place => .error { place, complaint := .unreadable }

def read {α : Type} (text : List Char) (p : Rules → Parser α) : Except SyntaxError α := do
  readAll (← tokensOf text) p

def readType (text : List Char) : Except SyntaxError Tree := read text fun rules => rules.type true

def readVisibility (text : List Char) : Except SyntaxError Tree := read text fun _ => visibility

def readPath (text : List Char) : Except SyntaxError Tree := read text fun rules => path rules false

def readIdentifier (text : List Char) : Except SyntaxError Tree := read text fun _ => ident

def readAttributes (text : List Char) : Except SyntaxError (List Tree) :=
  read text outerAttributes

/-- A source file: the attributes at its top and its items. -/
structure File where
  attributes : List Tree
  items : List Tree
deriving Repr, Inhabited

def File.tokens (file : File) : List Token := treesTokens (file.attributes ++ file.items)

/-- Reads the attributes and items of a file. -/
def file (rules : Rules) : Parser File := do
  return { attributes := ← innerAttributes rules, items := ← allItems rules.item }

def skipBlanks : Nat → List Char → List Char
  | 0, text => text
  | fuel + 1, text =>
    match text with
    | [] => []
    | c :: rest =>
      if Lexer.isBlank c then skipBlanks fuel rest
      else
        match Lexer.passComment text with
        | some tail => skipBlanks fuel tail
        | none => text

/-- Drops the first line when it names an interpreter; its line break stays, and what begins an
attribute is no such line. -/
def dropInterpreter (text : List Char) : List Char :=
  match text with
  | '#' :: '!' :: rest =>
    if (skipBlanks (rest.length + 1) rest).head? = some '[' then text
    else text.dropWhile (· ≠ '\n')
  | _ => text

def readSource (text : List Char) : Except SyntaxError File :=
  read (dropInterpreter (Lexer.dropMark text)) file

end Observable.Grammar
