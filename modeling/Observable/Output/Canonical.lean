import Observable.Grammar.Source
import Observable.Layout.Printer
/-! The canonical text of a unit: what is read as a source file, laid out again. -/
namespace Observable.Output

/-- Why a unit has no canonical text. -/
inductive CanonicalError where
  | syntaxError (key : String) (error : Grammar.SyntaxError)
  | cancelled
deriving DecidableEq, Repr

def CanonicalError.message : CanonicalError → String
  | syntaxError key e =>
    "syntax error in unit '" ++ key ++ "' at " ++ toString e.place.line ++ ":"
      ++ toString e.place.column ++ ": " ++ e.message
  | cancelled => "normalization cancelled"

def layout (file : Grammar.File) : String := Layout.renderFile file.tokens

/-- Reads the text of a unit as a source file. -/
def readUnit (key text : String) : Except CanonicalError Grammar.File :=
  (Grammar.readSource text.toList).mapError (.syntaxError key)

/-- The canonical text of a unit, which can be read again. Whether the pass is cancelled is asked
before the text is read, before it is laid out, and at the end. -/
def canonicalUnless {m : Type → Type} [Monad m] (isCancelled : m Bool) (key text : String) :
    m (Except CanonicalError String) := do
  if ← isCancelled then return .error .cancelled
  match readUnit key text with
  | .error e => return .error e
  | .ok file =>
    if ← isCancelled then return .error .cancelled
    let result := layout file
    match readUnit key result with
    | .error e => return .error e
    | .ok _ =>
      if ← isCancelled then return .error .cancelled
      return .ok result

/-- The canonical text of a unit, unless the pass is cancelled. -/
def canonical (key text : String) (cancelled : Bool) : Except CanonicalError String :=
  (canonicalUnless (m := Id) (pure cancelled) key text).run

end Observable.Output
