/-! Sets of code points, written as ranges of hexadecimal numbers. -/
namespace Observable.Text

/-- The code points `low`, `low + step`, and so on up to `high`. -/
structure CodeRange where
  low : Nat
  high : Nat
  step : Nat
deriving DecidableEq, Repr

namespace CodeRange

def contains (r : CodeRange) (n : Nat) : Bool :=
  r.low ≤ n && n ≤ r.high && (n - r.low) % r.step == 0

end CodeRange

/-- The value of a hexadecimal digit; anything else counts as zero. -/
def hexDigitValue (c : Char) : Nat :=
  if '0' ≤ c && c ≤ '9' then c.toNat - '0'.toNat
  else if 'a' ≤ c && c ≤ 'f' then c.toNat - 'a'.toNat + 10
  else if 'A' ≤ c && c ≤ 'F' then c.toNat - 'A'.toNat + 10
  else 0

def hexValue (digits : List Char) : Nat :=
  digits.foldl (fun n c => 16 * n + hexDigitValue c) 0

/-- The part before a mark and the part after it, which is empty when the mark is absent. -/
def cutAt (mark : Char) (text : List Char) : List Char × List Char :=
  (text.takeWhile (· != mark), (text.dropWhile (· != mark)).drop 1)

/-- Reads `A`, `A-B` or `A-B/S`. -/
def CodeRange.read (text : List Char) : CodeRange :=
  let (bounds, step) := cutAt '/' text
  let (low, high) := cutAt '-' bounds
  { low := hexValue low
    high := if high.isEmpty then hexValue low else hexValue high
    step := if step.isEmpty then 1 else hexValue step }

def words (lines : List String) : List (List Char) :=
  lines.flatMap fun line => line.toList.splitOn ' '

/-- A set of code points given by lines of ranges. -/
def codeRanges (lines : List String) : List CodeRange :=
  (words lines).map CodeRange.read

/-- Membership of a character in a set of ranges. -/
def inRanges (ranges : List CodeRange) (c : Char) : Bool :=
  ranges.any (·.contains c.toNat)

end Observable.Text
