import Observable.Number.Binary
/-! The shortest decimal that names a binary magnitude. -/
namespace Observable.Number

/-- A magnitude with the bounds of the numbers that are rounded to it, in quarters of its unit. -/
structure Interval where
  lower : Nat
  middle : Nat
  upper : Nat
  closed : Bool
deriving Repr

/-- The interval of a magnitude; below a power of two the numbers lie closer. -/
def Binary.interval (b : Binary) : Interval where
  lower := 4 * b.mantissa
    - (if b.mantissa = twos (precision - 1) ∧ minExponent < b.exponent then 1 else 2)
  middle := 4 * b.mantissa
  upper := 4 * b.mantissa + 2
  closed := b.mantissa % 2 = 0

/-- The numerator and denominator of ten to the power of `tens` over a quarter of a unit. -/
def Binary.step (b : Binary) (power : Int) : Nat × Nat :=
  let quarter := b.exponent - 2
  (tens power.toNat * twos (-quarter).toNat, twos quarter.toNat * tens (-power).toNat)

/-- Whether a multiple of a step is rounded to the magnitude of an interval. -/
def Interval.holds (i : Interval) (num den digits : Nat) : Bool :=
  if i.closed then i.lower * den ≤ digits * num && digits * num ≤ i.upper * den
  else i.lower * den < digits * num && digits * num < i.upper * den

/-- The nearer of the two multiples of a step beside a magnitude that name it, the upper one if
both are equally near. -/
def Binary.nearest? (b : Binary) (power : Int) : Option Nat :=
  let (num, den) := b.step power
  let i := b.interval
  let below := i.middle * den / num
  let above := below + 1
  match i.holds num den below, i.holds num den above with
  | true, true =>
    if above * num - i.middle * den ≤ i.middle * den - below * num then some above else some below
  | true, false => some below
  | false, true => some above
  | false, false => none

/-- Tries the powers of ten from `power` downward. -/
def Binary.search (b : Binary) (power : Int) : Nat → Nat × Int
  | 0 => (0, power)
  | n + 1 =>
    match b.nearest? power with
    | some digits => (digits, power)
    | none => search b (power - 1) n

/-- The fewest digits that name a magnitude, with the power of ten of the last one. -/
def Binary.shortest (b : Binary) : Nat × Int :=
  if b.mantissa = 0 then (0, 0) else b.search 309 640

/-- Digits times a power of ten, written with a point. -/
def positional (digits : Nat) (power : Int) : List Char :=
  let text := Nat.toDigits 10 digits
  if 0 ≤ power then text ++ List.replicate power.toNat '0' ++ ['.', '0']
  else
    let places := (-power).toNat
    let padded := List.replicate (places + 1 - text.length) '0' ++ text
    padded.take (padded.length - places) ++ '.' :: padded.drop (padded.length - places)

/-- A magnitude in the fewest digits, with a point. -/
def Binary.text (b : Binary) : List Char :=
  let (digits, power) := b.shortest
  positional digits power

end Observable.Number
