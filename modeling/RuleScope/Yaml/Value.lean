import RuleScope.Schema
import RuleScope.Yaml.Tag

namespace RuleScope.Yaml

inductive Numeral where
  | integer (i : Int)
  | float (x : Number.Binary64)
  | nan
  deriving DecidableEq, Repr

/-- A value; looking through a tag of its own gives the value beneath. -/
inductive Value where
  | null
  | boolean (b : Bool)
  | number (n : Numeral)
  | string (s : String)
  | sequence (items : List Value)
  | mapping (fields : List (Value × Value))
  | tagged (tag : String) (value : Value)
  deriving Repr, Inhabited

/-- The text of a number. -/
def Numeral.text : Numeral → String
  | integer i => Text.intText i
  | float x => Number.floatText .bare x
  | nan => ".nan"

/-- Numbers are the same key when they are of one kind and equal; the zeros are equal. -/
def Numeral.same : Numeral → Numeral → Bool
  | integer i, integer j => i == j
  | float x, float y => x == y || (x.magnitude.isZero && y.magnitude.isZero)
  | nan, nan => true
  | _, _ => false

def Numeral.found : Numeral → Schema.Found
  | integer i => .integer i
  | float x => .float x
  | nan => .nan

namespace Value

mutual
/-- Equality of keys. The order of a mapping's fields does not matter. -/
def same : Value → Value → Bool
  | null, null => true
  | boolean a, boolean b => a == b
  | number a, number b => a.same b
  | string a, string b => a == b
  | sequence as, sequence bs => sameItems as bs
  | mapping as, mapping bs => as.length == bs.length && sameFields as bs
  | tagged s a, tagged t b => Tag.bare s == Tag.bare t && a.same b
  | _, _ => false

def sameItems : List Value → List Value → Bool
  | [], [] => true
  | a :: as, b :: bs => a.same b && sameItems as bs
  | _, _ => false

/-- Every field on the left is on the right. -/
def sameFields : List (Value × Value) → List (Value × Value) → Bool
  | [], _ => true
  | (k, v) :: rest, bs => bs.any (fun (l, w) => k.same l && v.same w) && sameFields rest bs
end

mutual
/-- How deep values nest. -/
def height : Value → Nat
  | sequence items => 1 + heightItems items
  | mapping fields => 1 + heightFields fields
  | tagged _ v => 1 + v.height
  | _ => 1

def heightItems : List Value → Nat
  | [] => 0
  | v :: rest => max v.height (heightItems rest)

def heightFields : List (Value × Value) → Nat
  | [] => 0
  | (k, v) :: rest => max (max k.height v.height) (heightFields rest)
end

/-- The value beneath its tags. -/
def untag : Value → Value
  | tagged _ v => v.untag
  | v => v

/-- A value as an error about it names it. -/
def found : Value → Schema.Found
  | null => .null
  | boolean b => .boolean b
  | number n => n.found
  | string s => .string s
  | sequence _ => .sequence
  | mapping _ => .map
  | tagged _ _ => .enumeration

def asMapping? (v : Value) : Option (List (Value × Value)) :=
  match v.untag with
  | mapping fields => some fields
  | _ => none

def asSequence? (v : Value) : Option (List Value) :=
  match v.untag with
  | sequence items => some items
  | _ => none

def asString? (v : Value) : Option String :=
  match v.untag with
  | string s => some s
  | _ => none

def asInteger? (v : Value) : Option Int :=
  match v.untag with
  | number (.integer i) => some i
  | _ => none

def isNull (v : Value) : Bool :=
  match v.untag with
  | null => true
  | _ => false

/-- The value of the field whose key is this string. -/
def lookup (key : String) : List (Value × Value) → Option Value
  | [] => none
  | (string s, v) :: rest => if s = key then some v else lookup key rest
  | _ :: rest => lookup key rest

/-- The field of a mapping. -/
def get? (v : Value) (key : String) : Option Value := v.asMapping?.bind (lookup key)

end Value

/-- Digits of a base. -/
def radixDigits? (base : Nat) (cs : List Char) : Option Nat :=
  if cs.isEmpty then none
  else cs.foldlM (fun n c => do
    let d ← Text.hexValue? c
    if d < base then some (base * n + d) else none) 0

/-- Several digits of which the first is zero. -/
def isPaddedZero (cs : List Char) : Bool :=
  let cs :=
    match cs with
    | '-' :: r => r
    | '+' :: r => r
    | r => r
  match cs with
  | '0' :: d :: r => (d :: r).all Text.isDigit
  | _ => false

/-- Digits with a mark for their base in front, or decimal digits. -/
def unsigned? (cs : List Char) : Option Nat :=
  match cs with
  | '0' :: 'x' :: r => radixDigits? 16 r
  | '0' :: 'o' :: r => radixDigits? 8 r
  | '0' :: 'b' :: r => radixDigits? 2 r
  | r => if isPaddedZero r then none else radixDigits? 10 r

/-- The integer that a scalar is written as, of any size. -/
def integer? : List Char → Option Int
  | '+' :: r => (unsigned? r).map fun n => (n : Int)
  | '-' :: r => (unsigned? r).map fun n => -(n : Int)
  | r => (unsigned? r).map fun n => (n : Int)

/-- The exponent of a float, if it has one. -/
def exponent? : List Char → Option Int
  | [] => some 0
  | c :: r =>
    if c = 'e' ∨ c = 'E' then
      let (negative, digits) :=
        match r with
        | '-' :: r => (true, r)
        | '+' :: r => (false, r)
        | r => (false, r)
      (radixDigits? 10 digits).map fun n => if negative then -(n : Int) else n
    else none

/-- A float in digits: at least one around an optional point, and an optional exponent. -/
def decimal? (cs : List Char) : Option Number.Magnitude := do
  let whole := cs.takeWhile Text.isDigit
  let rest := cs.dropWhile Text.isDigit
  let (places, rest) :=
    match rest with
    | '.' :: r => (r.takeWhile Text.isDigit, r.dropWhile Text.isDigit)
    | r => ([], r)
  if whole.isEmpty && places.isEmpty then none
  let e ← exponent? rest
  return .ofDecimal (Text.decimalValue (whole ++ places)) (e - places.length)

/-- The float that a scalar is written as. Words for infinity begin with a point. -/
def float? (cs : List Char) : Option Numeral :=
  let infinite (w : List Char) : Bool := [".inf", ".Inf", ".INF"].contains (String.ofList w)
  let (negative, plain, magnitude) :=
    match cs with
    | '+' :: r => (false, true, r)
    | '-' :: r => (true, true, r)
    | r => (false, false, r)
  if !plain && [".nan", ".NaN", ".NAN"].contains (String.ofList cs) then some .nan
  else if infinite magnitude then some (.float ⟨negative, .infinite⟩)
  else
    match decimal? magnitude with
    | some m => if m.isInfinite then none else some (.float ⟨negative, m⟩)
    | none => none

def nullOf? (s : String) : Option Value :=
  if ["null", "Null", "NULL", "~"].contains s then some .null else none

def booleanOf? (s : String) : Option Value :=
  if ["true", "True", "TRUE"].contains s then some (.boolean true)
  else if ["false", "False", "FALSE"].contains s then some (.boolean false)
  else none

/-- The largest signed integer of 128 bits. -/
def maxInt128 : Nat := 170141183460469231731687303715884105727

/-- The largest unsigned integer of 128 bits. -/
def maxNat128 : Nat := 340282366920938463463374607431768211455

/-- An integer in a scalar. One that needs more than 64 bits but not more than 128 is refused; one
beyond that is not an integer. -/
inductive IntegerReading where
  | none
  | refused
  | value (i : Int)

def integerReading (s : String) : IntegerReading :=
  match integer? s.toList with
  | some i =>
    if -(Text.maxInt64 : Int) - 1 ≤ i ∧ i ≤ Text.maxNat64 then .value i
    else if -(maxInt128 : Int) - 1 ≤ i ∧ i ≤ maxNat128 then .refused
    else .none
  | none => .none

/-- The value of a plain scalar without a tag. -/
def resolvePlain (s : String) : Option Value :=
  if s = "" then some .null
  else
    match nullOf? s, booleanOf? s, integerReading s with
    | some v, _, _ => some v
    | none, some v, _ => some v
    | none, none, .value i => some (.number (.integer i))
    | none, none, .refused => none
    | none, none, .none =>
      if isPaddedZero s.toList then some (.string s)
      else
        match float? s.toList with
        | some n => some (.number n)
        | none => some (.string s)

/-- The value of a scalar whose tag does not begin with an exclamation mark. -/
def resolveTagged (tag : Tag) (s : String) : Option Value :=
  if tag = .core "bool" then booleanOf? s
  else if tag = .core "int" then
    match integerReading s with
    | .value i => some (.number (.integer i))
    | _ => none
  else if tag = .core "float" then (float? s.toList).map .number
  else if tag = .core "null" then nullOf? s
  else some (.string s)

end RuleScope.Yaml
