import RuleScope.Json.Cursor

namespace RuleScope.Json

namespace Reader

/-- The value of four hexadecimal digits. -/
def hexFour? (a b c d : Char) : Option Nat := do
  let a ← Text.hexValue? a
  let b ← Text.hexValue? b
  let c ← Text.hexValue? c
  let d ← Text.hexValue? d
  return 4096 * a + 256 * b + 16 * c + d

/-- Characters written with a backslash and one letter. -/
def shortEscape? (c : Char) : Option Char :=
  if c = '"' then some '"'
  else if c = '\\' then some '\\'
  else if c = '/' then some '/'
  else if c = 'b' then some '\x08'
  else if c = 'f' then some '\x0c'
  else if c = 'n' then some '\n'
  else if c = 'r' then some '\r'
  else if c = 't' then some '\t'
  else none

def utf8Length (cs : List Char) : Nat := cs.foldl (fun n c => n + c.utf8Size) 0

/-- The error for a hexadecimal escape that is none: four bytes are taken before it is judged. -/
def badHex {α : Type} (line column depth : Nat) (rest : List Char) :
    EStateM.Result ReadError Cursor α :=
  let fault := if utf8Length rest < 4 then SyntaxFault.eofString else .invalidEscape
  .error (.malformed fault (positionAfter line column rest 4)) ⟨rest, line, column, depth⟩

/-- The characters up to the closing quotation mark, after the characters `seen` in reverse.
`line`, `column` and `depth` are those of the cursor. -/
def stringFrom (line depth : Nat) :
    Nat → List Char → List Char → EStateM.Result ReadError Cursor String
  | column, _, [] => .error (.malformed .eofString ⟨line, column⟩) ⟨[], line, column, depth⟩
  | column, seen, '"' :: r => .ok (String.ofList seen.reverse) ⟨r, line, column + 1, depth⟩
  | column, _, ['\\'] =>
    .error (.malformed .eofString ⟨line, column + 1⟩) ⟨[], line, column + 1, depth⟩
  | column, seen, '\\' :: 'u' :: a :: b :: c :: d :: r =>
    match hexFour? a b c d with
    | none => badHex line (column + 2) depth (a :: b :: c :: d :: r)
    | some n =>
      let fail (fault : SyntaxFault) (place : Position) : EStateM.Result ReadError Cursor String :=
        .error (.malformed fault place) ⟨r, line, column + 6, depth⟩
      if 0xDC00 ≤ n ∧ n ≤ 0xDFFF then fail .loneSurrogate ⟨line, column + 6⟩
      else if n < 0xD800 ∨ 0xDBFF < n then stringFrom line depth (column + 6) (Char.ofNat n :: seen) r
      else
        match r with
        | '\\' :: 'u' :: e :: f :: g :: h :: r =>
          match hexFour? e f g h with
          | none => badHex line (column + 8) depth (e :: f :: g :: h :: r)
          | some m =>
            if m < 0xDC00 ∨ 0xDFFF < m then fail .loneSurrogate ⟨line, column + 12⟩
            else
              let code := 0x10000 + (n - 0xD800) * 0x400 + (m - 0xDC00)
              stringFrom line depth (column + 12) (Char.ofNat code :: seen) r
        | '\\' :: 'u' :: r => badHex line (column + 8) depth r
        | '\\' :: [] => fail .eofString ⟨line, column + 7⟩
        | '\\' :: r => fail .unexpectedHexEnd (positionAfter line (column + 7) r 1)
        | [] => fail .eofString ⟨line, column + 6⟩
        | r => fail .unexpectedHexEnd (positionAfter line (column + 6) r 1)
  | column, _, '\\' :: 'u' :: r => badHex line (column + 2) depth r
  | column, seen, '\\' :: c :: r =>
    match shortEscape? c with
    | some x => stringFrom line depth (column + 2) (x :: seen) r
    | none =>
      .error (.malformed .invalidEscape (positionAfter line (column + 1) (c :: r) 1))
        ⟨c :: r, line, column + 1, depth⟩
  | column, seen, c :: r =>
    if c.toNat < 32 then
      .error (.malformed .controlCharacter (positionAfter line column (c :: r) 1))
        ⟨c :: r, line, column, depth⟩
    else stringFrom line depth (column + c.utf8Size) (c :: seen) r

/-- A quotation mark ends the string. -/
theorem stringFrom_quote (line depth column : Nat) (seen r : List Char) :
    stringFrom line depth column seen ('"' :: r) =
      .ok (String.ofList seen.reverse) ⟨r, line, column + 1, depth⟩ := by
  rw [stringFrom]

/-- The string after its opening quotation mark. -/
def stringBody : Reader String := fun c => stringFrom c.line c.depth c.column [] c.rest

/-- Steps over a string, checking no more than where it ends: surrogates may be unpaired. -/
def skipStringFrom (line depth : Nat) : Nat → List Char → EStateM.Result ReadError Cursor Unit
  | column, [] => .error (.malformed .eofString ⟨line, column⟩) ⟨[], line, column, depth⟩
  | column, '"' :: r => .ok () ⟨r, line, column + 1, depth⟩
  | column, ['\\'] =>
    .error (.malformed .eofString ⟨line, column + 1⟩) ⟨[], line, column + 1, depth⟩
  | column, '\\' :: 'u' :: a :: b :: c :: d :: r =>
    match hexFour? a b c d with
    | none => badHex line (column + 2) depth (a :: b :: c :: d :: r)
    | some _ => skipStringFrom line depth (column + 6) r
  | column, '\\' :: 'u' :: r => badHex line (column + 2) depth r
  | column, '\\' :: c :: r =>
    match shortEscape? c with
    | some _ => skipStringFrom line depth (column + 2) r
    | none =>
      .error (.malformed .invalidEscape (positionAfter line (column + 1) (c :: r) 1))
        ⟨c :: r, line, column + 1, depth⟩
  | column, c :: r =>
    if c.toNat < 32 then
      .error (.malformed .controlCharacter ⟨line, column⟩) ⟨c :: r, line, column, depth⟩
    else skipStringFrom line depth (column + c.utf8Size) r

def skipStringBody : Reader Unit := fun c => skipStringFrom c.line c.depth c.column c.rest

end Reader

/-- A number as written. -/
inductive Numeral where
  | natural (n : Nat)
  | negative (i : Int)
  | float (x : Number.Binary64)
  deriving DecidableEq, Repr

def Numeral.found : Numeral → Schema.Found
  | natural n => .integer n
  | negative i => .integer i
  | float x => .float x

/-- The integer between bounds. One outside is a wrong value, a double is a wrong type. -/
def Numeral.toIntWithin (low high : Int) (expected : String) (n : Numeral) :
    Except Schema.Mismatch Int :=
  match n with
  | natural k => if (k : Int) ≤ high then .ok k else .error (.wrongValue (.integer k) expected)
  | negative i => if low ≤ i then .ok i else .error (.wrongValue (.integer i) expected)
  | float x => .error (.wrongType (.float x) expected)

namespace Reader

open RuleScope.Number (Magnitude Binary64)

/-- Digits read into `acc` while the value is at most `bound`, and how many were read. -/
def digitsWithin (bound : Nat) : Nat → Nat → List Char → Nat × Nat × List Char
  | acc, count, [] => (acc, count, [])
  | acc, count, c :: r =>
    if Text.isDigit c ∧ 10 * acc + Text.digitValue c ≤ bound then
      digitsWithin bound (10 * acc + Text.digitValue c) (count + 1) r
    else (acc, count, c :: r)

/-- Reads digits into `acc` while the value is at most `bound`; gives the value and the number of
digits. -/
def boundedDigits (bound acc : Nat) : Reader (Nat × Nat) := fun c =>
  let (value, count, rest) := digitsWithin bound acc 0 c.rest
  .ok (value, count) { c with rest := rest, column := c.column + count }

/-- Steps over digits; gives their number. -/
def skipDigits : Reader Nat := fun c =>
  let digits := c.rest.takeWhile Text.isDigit
  .ok digits.length
    { c with rest := c.rest.dropWhile Text.isDigit, column := c.column + digits.length }

def peekIsDigit : Reader Bool := do
  match ← peek? with
  | some c => return Text.isDigit c
  | none => return false

/-- The largest exponent that is computed with. -/
def maxExponent : Nat := Text.maxInt32

/-- An exponent within 32 bits. -/
def clampExponent (e : Int) : Int := max (-(maxExponent : Int) - 1) (min e maxExponent)

/-- Divides by `10 ^ 308` until the exponent is in reach. Nothing is left of a significand of 64
bits after three divisions. -/
def scaleDown : Nat → Magnitude → Nat → Magnitude
  | 0, f, _ => f
  | fuel + 1, f, exponent =>
    if exponent ≤ 308 then f.div (.ofDecimal 1 exponent)
    else if f.isZero then f
    else scaleDown fuel (f.div (.ofDecimal 1 308)) (exponent - 308)

/-- `significand * 10 ^ exponent`, rounded once for the significand and once for each scaling. -/
def floatOf (positive : Bool) (significand : Nat) (exponent : Int) : Reader Binary64 :=
  let f := Magnitude.ofNat significand
  if 0 ≤ exponent then
    if exponent ≤ 308 then
      let scaled := f.mul (.ofDecimal 1 exponent)
      if scaled.isInfinite then failHere .numberOutOfRange
      else pure ⟨!positive, scaled⟩
    else if f.isZero then pure ⟨!positive, f⟩
    else failHere .numberOutOfRange
  else pure ⟨!positive, scaleDown 4 f exponent.natAbs⟩

/-- The part from `e` on. -/
def exponentPart (positive : Bool) (significand : Nat) (exponent : Int) : Reader Binary64 := do
  advance
  let sign ← peek?
  if sign = some '+' ∨ sign = some '-' then advance
  match ← peek? with
  | none => failHere .eofValue
  | some c =>
    if Text.isDigit c then
      let (value, _) ← boundedDigits maxExponent 0
      if ← peekIsDigit then
        if significand ≠ 0 ∧ sign ≠ some '-' then
          advance
          failHere .numberOutOfRange
        else
          let _ ← skipDigits
          pure ⟨!positive, .zero⟩
      else
        let e := if sign = some '-' then exponent - value else exponent + value
        floatOf positive significand (clampExponent e)
    else failAhead .invalidNumber

def isExponentMark (c : Option Char) : Bool := c == some 'e' || c == some 'E'

/-- The part from the decimal point on. -/
def fractionPart (positive : Bool) (value : Nat) (exponent : Int) : Reader Binary64 := do
  advance
  let (value, count) ← boundedDigits Text.maxNat64 value
  let full ← peekIsDigit
  if full then
    let _ ← skipDigits
  else if count = 0 then
    match ← peek? with
    | some _ => failAhead .invalidNumber
    | none => failAhead .eofValue
  let exponent := exponent - count
  if isExponentMark (← peek?) then exponentPart positive value exponent
  else floatOf positive value exponent

/-- What follows the digits before the point, `exponent` of which did not fit the significand. -/
def numberTail (positive : Bool) (value : Nat) : Reader Numeral := do
  let long ← peekIsDigit
  let dropped ← skipDigits
  let c ← peek?
  if c = some '.' then return .float (← fractionPart positive value dropped)
  else if isExponentMark c then return .float (← exponentPart positive value dropped)
  else if long then return .float (← floatOf positive value dropped)
  else if positive then return .natural value
  else if value = 0 ∨ Text.maxInt64 + 1 < value then
    return .float ⟨true, .ofNat value⟩
  else return .negative (-(value : Int))

/-- A number after its sign. -/
def number (positive : Bool) : Reader Numeral := do
  match ← peek? with
  | none => failHere .eofValue
  | some c =>
    if c = '0' then
      advance
      if ← peekIsDigit then failAhead .invalidNumber else numberTail positive 0
    else if Text.isDigit c then
      let (value, _) ← boundedDigits Text.maxNat64 0
      numberTail positive value
    else failAhead .invalidNumber

end Reader

end RuleScope.Json
