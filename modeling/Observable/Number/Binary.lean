/-! Magnitudes with 53 significant bits, and the one nearest to a decimal. -/
namespace Observable.Number

/-- The nearest number to a quotient, the even one of two that are equally near. -/
def roundEven (num den : Nat) : Nat :=
  let q := num / den
  let r := num % den
  if 2 * r < den then q else if den < 2 * r then q + 1 else q + q % 2

def twos (n : Nat) : Nat := Nat.pow 2 n

def tens (n : Nat) : Nat := Nat.pow 10 n

/-- A binary magnitude, `mantissa` times two to the power of `exponent`. -/
structure Binary where
  mantissa : Nat
  exponent : Int
deriving DecidableEq, Repr, Inhabited

namespace Binary

def precision : Nat := 53

def minExponent : Int := -1074

def maxExponent : Int := 971

def zero : Binary := ⟨0, minExponent⟩

/-- A quotient divided by a power of two. -/
def scaled (num den : Nat) (exponent : Int) : Nat × Nat :=
  (num * twos (-exponent).toNat, den * twos exponent.toNat)

/-- The exponent at which a quotient has its first significant bits, or the smallest one. -/
def exponentOf (num den : Nat) : Int :=
  let guess : Int := num.log2 - den.log2 - precision
  let (n, d) := scaled num den guess
  max (if n / d < twos precision then guess else guess + 1) minExponent

/-- The nearest magnitude to a positive quotient, unless it is too large. -/
def ofQuotient? (num den : Nat) : Option Binary :=
  let exponent := exponentOf num den
  let (n, d) := scaled num den exponent
  let mantissa := roundEven n d
  let found : Binary :=
    if mantissa = twos precision then ⟨twos (precision - 1), exponent + 1⟩ else ⟨mantissa, exponent⟩
  if found.exponent ≤ maxExponent then some found else none

/-- The nearest magnitude to `digits` times ten to the power of `exponent`, unless it is too
large. -/
def ofDecimal? (digits : Nat) (exponent : Int) : Option Binary :=
  let size := exponent + (Nat.toDigits 10 digits).length
  if digits = 0 || size < -330 then some zero
  else if 310 < size then none
  else ofQuotient? (digits * tens exponent.toNat) (tens (-exponent).toNat)

end Binary

end Observable.Number
