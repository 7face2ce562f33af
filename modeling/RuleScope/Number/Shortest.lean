import RuleScope.Number.Binary64

namespace RuleScope.Number

/-- `digits * 10 ^ exponent`. -/
structure DecimalFloat where
  digits : Nat
  exponent : Int
  deriving DecidableEq, Repr

/-- A quotient of naturals compared by cross multiplication. -/
def ratioLe (a b : Nat × Nat) : Bool := a.1 * b.2 ≤ b.1 * a.2

def ratioLt (a b : Nat × Nat) : Bool := a.1 * b.2 < b.1 * a.2

/-- The interval of reals that round to `m * 2 ^ e`, as two quotients. -/
def readBackInterval (m : Nat) (e : Int) : (Nat × Nat) × (Nat × Nat) :=
  let lower :=
    if m = twoTo 52 ∧ Magnitude.leastExponent < e then Magnitude.ratio (4 * m - 1) (e - 2)
    else Magnitude.ratio (2 * m - 1) (e - 1)
  (lower, Magnitude.ratio (2 * m + 1) (e - 1))

def readsBack (m : Nat) (e : Int) (x : Nat × Nat) : Bool :=
  let (lo, hi) := readBackInterval m e
  if m % 2 = 0 then ratioLe lo x && ratioLe x hi else ratioLt lo x && ratioLt x hi

/-- `d * 10 ^ k` as a quotient. -/
def decimalRatio (d : Nat) (k : Int) : Nat × Nat :=
  if 0 ≤ k then (d * tenTo k.toNat, 1) else (d, tenTo (-k).toNat)

/-- The greatest `d` with `d * 10 ^ k` at most the quotient. -/
def gridFloor (x : Nat × Nat) (k : Int) : Nat :=
  if 0 ≤ k then x.1 / (x.2 * tenTo k.toNat) else x.1 * tenTo (-k).toNat / x.2

/-- The better of the two grid points around the double, when one reads back. -/
def gridHit (m : Nat) (e : Int) (k : Int) : Option DecimalFloat :=
  let x := Magnitude.ratio m e
  let d := gridFloor x k
  let low := d ≠ 0 && readsBack m e (decimalRatio d k)
  let high := readsBack m e (decimalRatio (d + 1) k)
  if low && high then
    -- nearer of the two; a tie goes to the even digit
    let lowRatio := decimalRatio (2 * d + 1) k
    let twice := (2 * x.1, x.2)
    if ratioLt twice lowRatio then some ⟨d, k⟩
    else if ratioLt lowRatio twice then some ⟨d + 1, k⟩
    else some ⟨if d % 2 = 0 then d else d + 1, k⟩
  else if low then some ⟨d, k⟩
  else if high then some ⟨d + 1, k⟩
  else none

/-- Searches ever finer grids, starting at `10 ^ k`. -/
def searchGrids (m : Nat) (e : Int) : Nat → Int → DecimalFloat
  | 0, k => ⟨gridFloor (Magnitude.ratio m e) k, k⟩
  | fuel + 1, k =>
    match gridHit m e k with
    | some d => d
    | none => searchGrids m e fuel (k - 1)

/-- An exponent of ten above the double `m * 2 ^ e`: a bit is less than 0.302 decimal digits. -/
def topExponent (m : Nat) (e : Int) : Int :=
  ((m.log2 : Int) + 1 + e) * 30103 / 100000 + 2

/-- Removes trailing zeros. -/
def dropZeros : Nat → DecimalFloat → DecimalFloat
  | 0, d => d
  | fuel + 1, d =>
    if d.digits ≠ 0 ∧ d.digits % 10 = 0 then dropZeros fuel ⟨d.digits / 10, d.exponent + 1⟩ else d

/-- The shortest decimal of a positive double. -/
def shortest (m : Nat) (e : Int) : DecimalFloat :=
  dropZeros 20 (searchGrids m e 24 (topExponent m e))

end RuleScope.Number
