import Observable.Token.Basic
/-! Syntax trees of source text. The tokens at the leaves, in order, are the text that the tree
stands for. -/
namespace Observable.Grammar

/-- How tightly an operator binds, the loosest first. -/
inductive Precedence where
  | jump
  | assign
  | range
  | or
  | and
  | condition
  | compare
  | bitOr
  | bitXor
  | bitAnd
  | shift
  | sum
  | product
  | cast
deriving DecidableEq, Repr, Inhabited

def Precedence.rank (p : Precedence) : Nat := p.ctorIdx

/-- The forms of expressions. -/
inductive ExprForm where
  | array
  | assign
  | asyncBlock
  | await
  | binary (precedence : Precedence)
  | block
  | breaking
  | call
  | cast
  | closure
  | constBlock
  | continuing
  | field
  | forLoop
  | ifElse
  | index
  | infer
  | letCondition
  | literal
  | loop
  | macroCall (braces : Bool)
  | matching
  | methodCall
  | paren
  | path
  | range
  | rawAddress
  | reference
  | repetition
  | returning
  | structLiteral
  | trying
  | tryBlock
  | tuple
  | unary
  | unsafeBlock
  | verbatim
  | whileLoop
  | yielding
deriving DecidableEq, Repr, Inhabited

/-- The forms of types that the grammar tells apart. -/
inductive TypeForm where
  | path
  | bareBound
  | other
deriving DecidableEq, Repr, Inhabited

/-- The forms of patterns that the grammar tells apart. -/
inductive PatternForm where
  | rest
  | openRange
  | verbatim
  | other
deriving DecidableEq, Repr, Inhabited

/-- The forms of an attribute's contents. -/
inductive MetaForm where
  | path
  | list
  | nameValue
deriving DecidableEq, Repr, Inhabited

/-- The forms of items. -/
inductive ItemForm where
  | const
  | enumeration
  | externCrate
  | function
  | foreignMod
  | implementation
  | macroCall
  | module
  | static
  | struct
  | trait
  | traitAlias
  | typeAlias
  | union
  | use
  | verbatim
  | member
deriving DecidableEq, Repr, Inhabited

/-- The forms of import trees. -/
inductive UseForm where
  | path
  | name
  | rename
  | glob
  | group
deriving DecidableEq, Repr, Inhabited

/-- What a node of a syntax tree is. -/
inductive Kind where
  | sequence
  | name
  | path
  | segment
  | lifetime
  | bound (isTrait : Bool)
  | genericArgument
  | lifetimeArgument
  | genericParameter
  | lifetimeParameter
  | generics
  | whereClause
  | type (form : TypeForm)
  | pattern (form : PatternForm)
  | expression (form : ExprForm)
  | block
  | statement
  | attributes
  | attr (inner : Bool)
  | metaItem (form : MetaForm)
  | visibility
  | field
  | namedFields
  | tupleFields
  | unitFields
  | variant
  | useTree (form : UseForm)
  | receiver
  | item (form : ItemForm)
deriving DecidableEq, Repr, Inhabited

/-- A syntax tree: a token, a delimited group, or a node with its parts. -/
inductive Tree where
  | token (t : Token)
  | group (delimiter : Delimiter) (place close : Position) (parts : List Tree)
  | node (kind : Kind) (parts : List Tree)
deriving Repr, Inhabited

namespace Tree

def absent : Tree := .node .sequence []

def sequence (parts : List Tree) : Tree := .node .sequence parts

def ofTokens (tokens : List Token) : Tree := .node .sequence (tokens.map .token)

def isPresent : Tree → Bool
  | .node .sequence [] => false
  | _ => true

end Tree

mutual
def Tree.tokens : Tree → List Token
  | .token t => [t]
  | .group d place close parts => [.group d (treesTokens parts) place close]
  | .node _ parts => treesTokens parts

def treesTokens : List Tree → List Token
  | [] => []
  | t :: ts => t.tokens ++ treesTokens ts
end

theorem treesTokens_append (a b : List Tree) :
    treesTokens (a ++ b) = treesTokens a ++ treesTokens b := by
  induction a with
  | nil => rfl
  | cons t ts ih => simp [treesTokens, ih]

namespace Tree

def exprForm : Tree → ExprForm
  | .node (.expression f) _ => f
  | _ => .verbatim

def typeForm : Tree → TypeForm
  | .node (.type f) _ => f
  | _ => .other

/-- Puts attributes in front of an expression or an item. -/
def withAttributes (attributes : List Tree) : Tree → Tree
  | .node kind parts => .node kind (attributes ++ parts)
  | t => t

/-- The identifiers of a path and whether it begins with `::`. -/
def pathIdents : Tree → List (Bool × String)
  | .node .path parts => parts.filterMap fun
    | .node .segment (.token (.ident raw name _) :: _) => some (raw, name)
    | _ => none
  | _ => []

/-- The words of a path as they are spelled. -/
def pathWords (path : Tree) : List String :=
  path.pathIdents.map fun (raw, name) => Token.identText raw name

/-- Whether a path begins with `::`. -/
def pathIsGlobal : Tree → Bool
  | .node .path (leading :: _) => leading.isPresent
  | _ => false

/-- Whether no segment of a path has arguments. -/
def pathIsPlain : Tree → Bool
  | .node .path parts => parts.all fun
    | .node .segment [_, args] => !args.isPresent
    | _ => true
  | _ => false

def pathSegments : Tree → List Tree
  | .node .path parts => parts.filter fun
    | .node .segment _ => true
    | _ => false
  | _ => []

end Tree

end Observable.Grammar
