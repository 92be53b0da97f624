import Observable.Layout.Atom
import Observable.Layout.Class
import Observable.Text.Case
import Observable.Token.Basic
import Observable.Token.Literal
/-! The one canonical layout of a row of tokens. -/
namespace Observable.Layout

/-- Blocks put items and statements on lines of their own; inline text stays on one line. -/
inductive Mode where
  | block
  | inline
deriving DecidableEq, Repr

/-- What is known about the enclosing delimiter. -/
structure Frame where
  mode : Mode
  top : Bool := false
  generics : Nat := 0
  closure : Bool := false
deriving Repr

/-- A layout in progress: the pieces written, the last one first, and what the next one needs. -/
structure Printer where
  out : List Atom := []
  indent : Nat := 0
  pending : Nat := 0
  last : Class := .start
  declaration : Bool := false
deriving Repr

namespace Printer

/-- Whether the next word would begin a line. -/
def atLineStart (p : Printer) : Bool := p.pending > 0 || endsLine p.out

/-- Writes a word, after the pending line breaks or after one space when asked for. -/
def write (p : Printer) (text : String) (space : Bool) : Printer :=
  if p.pending > 0 then
    let lines := if writesNothing p.out then 0 else p.pending
    { p with out := .word text :: .breaks lines p.indent :: p.out, pending := 0 }
  else if space && !p.atLineStart then
    { p with out := .word text :: .space :: p.out }
  else
    { p with out := .word text :: p.out }

/-- Asks for at least so many line breaks before the next word. -/
def newline (p : Printer) (lines : Nat) : Printer := { p with pending := max p.pending lines }

def word (p : Printer) (text : String) : Printer :=
  let p' := p.write text (!p.last.glues)
  if p.last = .tick then
    { p' with last := .lifetime, declaration := false }
  else
    let keyword := keywords.contains text
    let generic := p.declaration || text.toList.head?.any Text.isUppercase
      || text = "impl" || text = "for"
    { p' with
      last := .word keyword generic (!keyword || text = "pub" || text = "fn")
      declaration := declarations.contains text }

def literal (p : Printer) (text : String) : Printer :=
  { p.write text (!p.last.glues) with last := .literal, declaration := false }

/-- Whether `<` can open generic arguments: after a word that names a type or after `::`, or where
an operand is expected and it can only open a qualified path. -/
def opensGeneric (p : Printer) : Bool :=
  match p.last with
  | .word _ true _ => true
  | .pathSep => true
  | c => c.expectsOperand

end Printer

/-- Whether an operator begins with the given characters. -/
def beginsOperator (chars : List Char) : Bool :=
  operators.any fun o => chars.isPrefixOf o.toList

/-- The longest operator that joint punctuation at the front spells, after some characters. -/
def gather (chars : List Char) : List Token → List Char
  | .punct c spacing _ :: rest =>
    let candidate := chars ++ [c]
    if !chars.isEmpty && !beginsOperator candidate then chars
    else if spacing = .alone then candidate
    else gather candidate rest
  | _ => chars

/-- The operator at the front of a row of tokens; angle brackets of generics stand alone. -/
def operatorAt (p : Printer) (frame : Frame) (tokens : List Token) : String :=
  let chars := gather [] tokens
  let split :=
    match chars with
    | '<' :: _ => p.opensGeneric && chars ≠ ['<', '=']
    | '>' :: _ => frame.generics > 0
    | _ => false
  String.ofList (if split then chars.take 1 else chars)

/-- Whether a space goes before an operator, and the class it leaves. -/
def operatorStyle (p : Printer) (frame : Frame) (op : String) : Bool × Class :=
  let glued := p.last.glues
  let operand := p.last.expectsOperand
  if op = "'" then (!glued, .tick)
  else if op = "," then (false, .comma)
  else if op = ";" then (false, .semi)
  else if op = ":" then (false, .colon)
  else if op = "." then (!glued && !p.last.endsOperand, .dot)
  else if op = ".." || op = "..." || op = "..=" then
    (!glued && !(p.last.isPlainWord || p.last = .literal || p.last = .group
      || p.last = .genericClose || p.last = .block), .range)
  else if op = "::" then
    (!glued && !(p.last.isPlainWord || p.last = .group || p.last = .genericClose), .pathSep)
  else if op = "?" && operand then (!glued, .unary)
  else if op = "?" then (!glued && !p.last.endsOperand, .question)
  else if op = "#" then (!glued, .hash)
  else if op = "$" then (!glued, .dollar)
  else if op = "!" && p.last.isPlainWord then (false, .bang)
  else if op = "<" && p.opensGeneric then (operand && !glued && !p.last.isWord, .genericOpen)
  else if op = ">" && frame.generics > 0 then (false, .genericClose)
  else if op = "|" && frame.closure then (false, .punct)
  else if op = "|" && operand then (!glued, .closureOpen)
  else if (op = "&" || op = "&&" || op = "*" || op = "-" || op = "!") && operand then
    (!glued, .unary)
  else (!glued, .punct)

/-- What an operator changes about the enclosing delimiter. -/
def Frame.afterOperator (frame : Frame) (op : String) (style : Class) : Frame :=
  if style = .genericOpen then { frame with generics := frame.generics + 1 }
  else if style = .genericClose then { frame with generics := frame.generics - 1 }
  else if style = .closureOpen then { frame with closure := true }
  else if op = "|" && frame.closure then { frame with closure := false }
  else frame

/-- Writes an operator; in a block a comma or a semicolon ends the line. -/
def Printer.operator (p : Printer) (frame : Frame) (op : String) : Printer × Frame :=
  let (space, style) := operatorStyle p frame op
  let frame' := frame.afterOperator op style
  let p' := { p.write op space with last := style, declaration := false }
  if frame.mode = .block then
    if op = "," && frame'.generics = 0 && !frame'.closure then (p'.newline 1, frame')
    else if op = ";" then (p'.newline (if frame'.top then 2 else 1), frame')
    else (p', frame')
  else (p', frame')

/-- The comment line that a documentation attribute stands for, when its text is one line and would
be read back as it is. -/
def docLine (inner : Bool) (body : List Token) : Option String :=
  match body with
  | [.ident false name _, .punct eq _ _, .literal value _] =>
    if name = "doc" && eq = '=' then
      match Literal.stringValue? value.toList with
      | some text =>
        if text.any (fun c => c = '\n' || c = '\r') || (!inner && text.head? = some '/') then none
        else some ((if inner then "//!" else "///") ++ String.ofList text)
      | none => none
    else none
  | _ => none

/-- An attribute at the front of a row of tokens: whether it is an inner one, and its contents. -/
def attributeAt : List Token → Option (Bool × List Token)
  | .punct c _ _ :: .punct d _ _ :: .group .bracket body _ _ :: _ =>
    if c = '#' && d = '!' then some (true, body) else none
  | .punct c _ _ :: .group .bracket body _ _ :: _ => if c = '#' then some (false, body) else none
  | _ => none

/-- How the tokens ahead are to be handled: some were written with an earlier one, and the brackets
of an attribute follow its mark. -/
structure Plan where
  skip : Nat := 0
  brackets : Bool := false

/-- Ends the line after a closing brace, unless the next token continues the expression. -/
def Printer.afterBlock (p : Printer) (frame : Frame) (next : Option Token) : Printer :=
  if frame.mode ≠ .block then p
  else
    let lines (item : Bool) := p.newline (if frame.top || item then 2 else 1)
    match next with
    | none => p
    | some (.punct c _ _) =>
      if c = '#' then lines true
      else if c = '\'' || c = '$' then lines false
      else p
    | some (.ident raw name _) =>
      let text := Token.identText raw name
      if text = "else" || text = "as" then p else lines (itemStarts.contains text)
    | some _ => lines false

def Printer.spaceBeforeParen (p : Printer) : Bool :=
  !p.last.glues &&
    match p.last with
    | .word _ _ true => false
    | .bang | .group | .genericClose => false
    | _ => true

def Printer.spaceBeforeBracket (p : Printer) : Bool :=
  !p.last.glues && !p.last.isPlainWord &&
    !(p.last = .bang || p.last = .group || p.last = .literal)

/-- Starts an attribute: a documentation comment on a line of its own, or the mark before the
brackets. -/
def Printer.startAttribute (p : Printer) (frame : Frame) (inner : Bool) (body : List Token) :
    Printer × Plan :=
  let line := if frame.mode = .block && p.atLineStart then docLine inner body else none
  match line with
  | some line =>
    let p := { p.write line false with last := .attr, declaration := false }
    (p.newline 1, { skip := if inner then 2 else 1 })
  | none =>
    let p := { p.write (if inner then "#!" else "#") (!p.last.glues) with last := .hash }
    (p, { skip := if inner then 1 else 0, brackets := true })

def Printer.endAttribute (p : Printer) (frame : Frame) : Printer :=
  let p := { p with last := .attr, declaration := false }
  if frame.mode = .block then p.newline 1 else p

def Printer.enter (p : Printer) (opening : String) (space : Bool) : Printer :=
  { p.write opening space with last := .start }

/-- Closes a group that stays on the line. -/
def Printer.leave (p : Printer) (closing : String) (space : Bool) : Printer :=
  { p.write closing space with last := .group }

/-- Opens a block: its tokens begin on the next line, one level deeper. -/
def Printer.enterBlock (p : Printer) : Printer :=
  let p := p.enter "\x7b" true
  { p.newline 1 with indent := p.indent + 1 }

/-- Closes a block on a line of its own. -/
def Printer.leaveBlock (p : Printer) : Printer :=
  { { p with indent := p.indent - 1, pending := 1 }.write "\x7d" false with last := .block }

/-- How the tokens between braces are set. -/
inductive BraceStyle where
  | empty
  | tight
  | spaced
  | block
deriving DecidableEq

/-- The style of a pair of braces: imports after a path are tight, and constants among generic
arguments and braces nested in other delimiters stay on the line. -/
def braceStyle (p : Printer) (frame : Frame) (body : List Token) : BraceStyle :=
  if body.isEmpty then .empty
  else if p.last = .pathSep then .tight
  else if frame.mode = .inline
      || (frame.generics > 0 && (p.last = .genericOpen || p.last = .comma)) then .spaced
  else .block

mutual
/-- Writes one token, given the tokens after it. -/
def writeToken (p : Printer) (frame : Frame) (plan : Plan) (rest : List Token) :
    Token → Printer × Frame × Plan
  | .ident raw name _ => (p.word (Token.identText raw name), frame, {})
  | .literal text _ => (p.literal text, frame, {})
  | .punct c spacing place =>
    match attributeAt (.punct c spacing place :: rest) with
    | some (inner, body) =>
      let (p, plan) := p.startAttribute frame inner body
      (p, frame, plan)
    | none =>
      let op := operatorAt p frame (.punct c spacing place :: rest)
      let (p, frame) := p.operator frame op
      (p, frame, { skip := op.length - 1 })
  | .group delimiter body _ _ =>
    let inline (p : Printer) := writeTokens p { mode := .inline } {} body
    if plan.brackets then
      (((inline (p.enter "[" false)).leave "]" false).endAttribute frame, frame, {})
    else
      let p := { p with declaration := false }
      match delimiter with
      | .invisible => (inline p, frame, {})
      | .parenthesis => ((inline (p.enter "(" p.spaceBeforeParen)).leave ")" false, frame, {})
      | .bracket => ((inline (p.enter "[" p.spaceBeforeBracket)).leave "]" false, frame, {})
      | .brace =>
        match braceStyle p frame body with
        | .empty =>
          let p := { p.write "\x7b\x7d" (!p.last.glues) with last := .group }
          (p.afterBlock frame rest.head?, frame, {})
        | .tight => ((inline (p.enter "\x7b" false)).leave "\x7d" false, frame, {})
        | .spaced =>
          let p := p.enter "\x7b" (!p.last.glues)
          ((inline { p with out := .space :: p.out }).leave "\x7d" true, frame, {})
        | .block =>
          let p := (writeTokens p.enterBlock { mode := .block } {} body).leaveBlock
          (p.afterBlock frame rest.head?, frame, {})

def writeTokens (p : Printer) (frame : Frame) (plan : Plan) : List Token → Printer
  | [] => p
  | t :: rest =>
    if plan.skip > 0 then writeTokens p frame { plan with skip := plan.skip - 1 } rest
    else
      let (p, frame, plan) := writeToken p frame plan rest t
      writeTokens p frame plan rest
end

/-- The pieces of a whole file: items separated by blank lines. -/
def fileAtoms (tokens : List Token) : List Atom :=
  (writeTokens {} { mode := .block, top := true } {} tokens).out.reverse

def inlineAtoms (tokens : List Token) : List Atom :=
  (writeTokens {} { mode := .inline } {} tokens).out.reverse

/-- A whole file, ending in a line break. -/
def renderFile (tokens : List Token) : String := textOf (fileAtoms tokens) ++ "\n"

/-- Tokens on a single line where they allow it. -/
def renderInline (tokens : List Token) : String := textOf (inlineAtoms tokens)

end Observable.Layout
