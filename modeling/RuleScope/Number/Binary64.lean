namespace RuleScope.Number

/-- A non-negative double: `mantissa * 2 ^ exponent`, or infinity. -/
inductive Magnitude where
  | finite (mantissa : Nat) (exponent : Int)
  | infinite
  deriving DecidableEq, Repr

/-- A double with its sign; the sign of zero is kept. -/
structure Binary64 where
  negative : Bool
  magnitude : Magnitude
  deriving DecidableEq, Repr

/-- A power of two. -/
def twoTo (n : Nat) : Nat := Nat.pow 2 n

/-- A power of ten. -/
def tenTo (n : Nat) : Nat := Nat.pow 10 n

/-- The quotient rounded to the nearest natural, a half to the even one. -/
def roundDiv (num den : Nat) : Nat :=
  let q := num / den
  let twice := 2 * (num % den)
  if twice < den then q
  else if den < twice then q + 1
  else if q % 2 = 0 then q else q + 1

namespace Magnitude

def zero : Magnitude := finite 0 (-1074)

def leastExponent : Int := -1074

def greatestExponent : Int := 971

/-- `num / (den * 2 ^ e)`, rounded. -/
def scaled (num den : Nat) (e : Int) : Nat :=
  if 0 ≤ e then roundDiv num (den * twoTo e.toNat) else roundDiv (num * twoTo (-e).toNat) den

/-- The exponent at which the quotient has a mantissa of 53 bits, not below the least one. The
estimate from the lengths in bits is at most one too small. -/
def exponentFor (num den : Nat) : Int :=
  let estimate : Int := (num.log2 : Int) - (den.log2 : Int) - 53
  let fits : Bool :=
    if 0 ≤ estimate then num < den * twoTo estimate.toNat * twoTo 53
    else num * twoTo (-estimate).toNat < den * twoTo 53
  max leastExponent (if fits then estimate else estimate + 1)

/-- The magnitude nearest to `num / den`. -/
def ofRatio (num den : Nat) : Magnitude :=
  if num = 0 then zero
  else
    let e := exponentFor num den
    let m := scaled num den e
    let (m, e) := if m = twoTo 53 then (twoTo 52, e + 1) else (m, e)
    if greatestExponent < e then infinite else finite m e

def ofNat (n : Nat) : Magnitude := ofRatio n 1

/-- `m * 2 ^ e` as a quotient of naturals. -/
def ratio (m : Nat) (e : Int) : Nat × Nat :=
  if 0 ≤ e then (m * twoTo e.toNat, 1) else (m, twoTo (-e).toNat)

/-- `digits * 10 ^ exponent`, rounded once. Exponents far outside the range are settled first:
`digits` has at most as many decimal places as bits, so the value is below `10 ^ -400`, which
rounds to zero, or at least `10 ^ 400`. -/
def ofDecimal (digits : Nat) (exponent : Int) : Magnitude :=
  if digits = 0 then zero
  else if 400 < exponent then infinite
  else if exponent < -(401 + digits.log2 : Int) then zero
  else if 0 ≤ exponent then ofRatio (digits * tenTo exponent.toNat) 1
  else ofRatio digits (tenTo (-exponent).toNat)

def isZero : Magnitude → Bool
  | finite m _ => m == 0
  | infinite => false

def isInfinite : Magnitude → Bool
  | infinite => true
  | finite _ _ => false

def mul : Magnitude → Magnitude → Magnitude
  | finite m e, finite n f =>
    let (a, b) := ratio m e
    let (c, d) := ratio n f
    ofRatio (a * c) (b * d)
  | _, _ => infinite

/-- Division by a magnitude that is neither zero nor infinite. -/
def div : Magnitude → Magnitude → Magnitude
  | finite m e, finite n f =>
    let (a, b) := ratio m e
    let (c, d) := ratio n f
    ofRatio (a * d) (b * c)
  | _, _ => infinite

end Magnitude

end RuleScope.Number
