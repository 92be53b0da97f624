import Observable.Toml.Value
/-! The values that are written without quotes or brackets. -/
namespace Observable.Toml

namespace Scalar

def isDigit (c : Char) : Bool := '0' ≤ c && c ≤ '9'

/-- The value of a digit of a base up to sixteen. -/
def digit? (base : Nat) (c : Char) : Option Nat :=
  let value :=
    if isDigit c then c.toNat - '0'.toNat
    else if 'a' ≤ c && c ≤ 'f' then c.toNat - 'a'.toNat + 10
    else if 'A' ≤ c && c ≤ 'F' then c.toNat - 'A'.toNat + 10
    else 16
  if value < base then some value else none

def number? (base : Nat) (text : List Char) : Option Nat :=
  text.foldlM (fun n c => (digit? base c).map (n * base + ·)) 0

/-- The digits of a text in which single underscores may stand between digits. -/
def ungrouped? (text : List Char) : Option (List Char) :=
  let groups := text.splitOn '_'
  if groups.any (·.isEmpty) then none else some groups.flatten

/-- The number that digits spell, with underscores between them. -/
def grouped? (base : Nat) (text : List Char) : Option Nat := ungrouped? text >>= number? base

/-- Whether a number begins with a digit that says nothing. -/
def padded (text : List Char) : Bool := text.head? = some '0' && text.length ≠ 1

/-- Whether a text begins with a minus sign, and the text without its sign. -/
def unsigned (text : List Char) : Bool × List Char :=
  match text with
  | '+' :: rest => (false, rest)
  | '-' :: rest => (true, rest)
  | _ => (false, text)

def integer? (text : List Char) : Option Int :=
  match text with
  | '0' :: 'x' :: rest => (grouped? 16 rest).map Int.ofNat
  | '0' :: 'o' :: rest => (grouped? 8 rest).map Int.ofNat
  | '0' :: 'b' :: rest => (grouped? 2 rest).map Int.ofNat
  | _ =>
    let (negative, rest) := unsigned text
    if padded rest then none
    else (grouped? 10 rest).map fun n => if negative then -(n : Int) else n

/-- The exponent behind the mark of a number. -/
def exponent? (text : List Char) : Option Int :=
  match text with
  | [] => some 0
  | _ :: digits =>
    let (negative, rest) := unsigned digits
    (grouped? 10 rest).map fun n => if negative then -(n : Int) else n

/-- The digits behind the point of a number. -/
def fraction? (text : List Char) : Option (List Char) :=
  match text with
  | [] => some []
  | _ :: digits => ungrouped? digits

/-- A number with a fraction or an exponent. -/
def float? (text : List Char) : Option FloatValue :=
  let (negative, rest) := unsigned text
  if rest = "inf".toList then some (.infinite negative)
  else if rest = "nan".toList then some .undefined
  else do
    let beforeMark := rest.takeWhile fun c => c ≠ 'e' && c ≠ 'E'
    let whole := beforeMark.takeWhile (· ≠ '.')
    if padded whole then none
    let fraction ← fraction? (beforeMark.drop whole.length)
    let digits ← number? 10 ((← ungrouped? whole) ++ fraction)
    let exponent ← exponent? (rest.drop beforeMark.length)
    return .finite negative digits (exponent - fraction.length)

/-- A number of some digits between bounds, and what follows it. -/
def field? (size lower upper : Nat) (text : List Char) : Option (Nat × List Char) := do
  let digits := text.take size
  let n ← number? 10 digits
  if digits.length = size && lower ≤ n && n ≤ upper then some (n, text.drop size) else none

def past? (c : Char) (text : List Char) : Option (List Char) :=
  if text.head? = some c then some text.tail else none

def daysIn (year month : Nat) : Nat :=
  if month = 2 then
    if year % 4 = 0 && (year % 100 ≠ 0 || year % 400 = 0) then 29 else 28
  else if month ∈ [4, 6, 9, 11] then 30 else 31

def pastDate? (text : List Char) : Option (List Char) := do
  let (year, rest) ← field? 4 0 9999 text
  let (month, rest) ← field? 2 1 12 (← past? '-' rest)
  let (_, rest) ← field? 2 1 (daysIn year month) (← past? '-' rest)
  return rest

def pastFraction? (text : List Char) : Option (List Char) :=
  match text with
  | '.' :: rest =>
    if (rest.takeWhile isDigit).isEmpty then none else some (rest.dropWhile isDigit)
  | _ => some text

/-- What follows the time of a day; the seconds may be left out. -/
def pastTime? (text : List Char) : Option (List Char) := do
  let (_, rest) ← field? 2 0 23 text
  let (_, rest) ← field? 2 0 59 (← past? ':' rest)
  match rest with
  | ':' :: rest => pastFraction? (← field? 2 0 60 rest).2
  | _ => return rest

/-- What follows the distance of a time from the universal one. -/
def pastZone? (text : List Char) : Option (List Char) :=
  match text with
  | 'Z' :: rest | 'z' :: rest => some rest
  | '+' :: rest | '-' :: rest => do
    let (_, rest) ← field? 2 0 23 rest
    let (_, rest) ← field? 2 0 59 (← past? ':' rest)
    return rest
  | _ => some text

/-- Whether a text is a date, a time, or both. -/
def isDateTime (text : List Char) : Bool :=
  match pastDate? text with
  | some [] => true
  | some (c :: rest) =>
    (c = 'T' || c = 't' || c = ' ') && (pastTime? rest >>= pastZone?) = some []
  | none => pastTime? text = some []

/-- The value that a text without quotes stands for. -/
def value? (text : List Char) : Option Value :=
  if text = "true".toList then some (.boolean true)
  else if text = "false".toList then some (.boolean false)
  else
    match integer? text, float? text with
    | some n, _ => some (.integer n)
    | none, some f => some (.float f)
    | none, none => if isDateTime text then some .dateTime else none

/-- Whether a character belongs to a value without quotes. -/
def isPart (c : Char) : Bool := c.isAlphanum || c ∈ ['+', '-', '.', ':', '_']

/-- Takes the text of a value from the front; a space may stand between a date and a time. -/
def split (text : List Char) : List Char × List Char :=
  let word := text.takeWhile isPart
  let rest := text.dropWhile isPart
  match rest with
  | ' ' :: d :: _ =>
    if isDigit d && pastDate? word = some [] then
      (word ++ ' ' :: rest.tail.takeWhile isPart, rest.tail.dropWhile isPart)
    else (word, rest)
  | _ => (word, rest)

end Scalar

end Observable.Toml
