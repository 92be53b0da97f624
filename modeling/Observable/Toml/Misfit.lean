import Observable.Number.Shortest
import Observable.Text.Printable
import Observable.Toml.Value
/-! Values that are not what a setting wants. -/
namespace Observable.Toml

/-- Why a value does not fit. -/
inductive Misfit where
  | unknownField (name : String) (known : List String)
  | wrongType (found expected : String)
  | integerTooLarge
  | floatTooLarge
deriving DecidableEq, Repr

/-- Why a value does not fit, with its place. -/
abbrev Fault := Located Misfit

def inCode (text : String) : String := "`" ++ text ++ "`"

def Misfit.message : Misfit → String
  | unknownField name known =>
    "unknown field " ++ inCode name ++ ", expected " ++ " or ".intercalate (known.map inCode)
  | wrongType found expected => "invalid type: " ++ found ++ ", expected " ++ expected
  | integerTooLarge => "integer number overflowed"
  | floatTooLarge => "floating-point number overflowed"

def signed (negative : Bool) (text : List Char) : List Char :=
  if negative then '-' :: text else text

namespace FloatValue

/-- A number as it is shown; one that is too large to be told from the infinite has no form. -/
def text? : FloatValue → Option (List Char)
  | finite negative digits exponent =>
    (Number.Binary.ofDecimal? digits exponent).map fun b => signed negative b.text
  | infinite negative => some (signed negative "inf".toList)
  | undefined => some "NaN".toList

end FloatValue

/-- Whether an integer is at least minus two to the power of `low` and below two to the power of
`high`. -/
def fits (low high : Nat) (n : Int) : Bool := -(Number.twos low : Int) ≤ n && n < Number.twos high

/-- How an integer is shown: its width is named if it has more than 64 bits, and beyond 128 bits it
has no form. -/
def integerText? (n : Int) : Option String :=
  let shown := "integer " ++ inCode (toString n)
  if fits 63 64 n then some shown
  else if fits 127 127 n then some (shown ++ " as i128")
  else if fits 0 128 n then some (shown ++ " as u128")
  else none

/-- The misfit of a value where another type is expected. -/
def Value.misfit (v : Value) (expected : String) : Misfit :=
  match v with
  | .string text => .wrongType ("string " ++ String.ofList (Text.quoted text.toList)) expected
  | .integer n => ((integerText? n).map (.wrongType · expected)).getD .integerTooLarge
  | .float f =>
    (f.text?.map fun text =>
      Misfit.wrongType ("floating point " ++ inCode (String.ofList text)) expected).getD
      .floatTooLarge
  | .boolean b => .wrongType ("boolean " ++ inCode (toString b)) expected
  | .array .. => .wrongType "sequence" expected
  | .dateTime | .table .. => .wrongType "map" expected

namespace Located

/-- The fault of a value where another type is expected. -/
def fault {α : Type} (v : Located Value) (expected : String) : Except Fault α :=
  .error ⟨v.span, v.content.misfit expected⟩

/-- A value as a text, which is called by a name. -/
def asText (expected : String) (v : Located Value) : Except Fault String :=
  match v.content with
  | .string text => .ok text
  | _ => v.fault expected

def asBoolean (v : Located Value) : Except Fault Bool :=
  match v.content with
  | .boolean b => .ok b
  | _ => v.fault "a boolean"

end Located

end Observable.Toml
