namespace RuleScope.Text

/-- The digit of a value below sixteen, in lower case. -/
def digitChar (d : Nat) : Char :=
  if d < 10 then Char.ofNat (48 + d) else Char.ofNat (87 + d)

/-- Digits of `n` in base ten, most significant first. -/
def decimalDigits (n : Nat) : List Nat :=
  if _h : n < 10 then [n] else decimalDigits (n / 10) ++ [n % 10]
termination_by n
decreasing_by omega

def natChars (n : Nat) : List Char := (decimalDigits n).map digitChar

def natText (n : Nat) : String := String.ofList (natChars n)

def intChars : Int → List Char
  | .ofNat n => natChars n
  | .negSucc n => '-' :: natChars (n + 1)

def intText (i : Int) : String := String.ofList (intChars i)

/-- Hexadecimal digits without leading zeros, `0` for zero. -/
def hexChars (n : Nat) : List Char :=
  if _h : n < 16 then [digitChar n] else hexChars (n / 16) ++ [digitChar (n % 16)]
termination_by n
decreasing_by omega

/-- The last `width` hexadecimal digits, zeros in front. -/
def hexFixed : Nat → Nat → List Char
  | 0, _ => []
  | width + 1, n => hexFixed width (n / 16) ++ [digitChar (n % 16)]

def isDigit (c : Char) : Bool := '0' ≤ c && c ≤ '9'

def digitValue (c : Char) : Nat := c.toNat - 48

/-- The value of a text of decimal digits. -/
def decimalValue (cs : List Char) : Nat :=
  cs.foldl (fun n c => 10 * n + digitValue c) 0

def hexValue? (c : Char) : Option Nat :=
  if isDigit c then some (c.toNat - 48)
  else if 'a' ≤ c ∧ c ≤ 'f' then some (c.toNat - 87)
  else if 'A' ≤ c ∧ c ≤ 'F' then some (c.toNat - 55)
  else none

/-- Why a text is not an integer within its bounds. -/
inductive IntegerFault where
  | empty
  | invalidDigit
  | tooLarge
  | tooSmall
  deriving DecidableEq, Repr

def IntegerFault.message : IntegerFault → String
  | empty => "cannot parse integer from empty string"
  | invalidDigit => "invalid digit found in string"
  | tooLarge => "number too large to fit in target type"
  | tooSmall => "number too small to fit in target type"

/-- Reads digits from the left into `acc`; the first fault from the left is the one reported. -/
def readDigits (limit : Nat) (beyond : IntegerFault) : Nat → List Char → Except IntegerFault Nat
  | acc, [] => .ok acc
  | acc, c :: cs =>
    if isDigit c then
      let next := 10 * acc + digitValue c
      if next ≤ limit then readDigits limit beyond next cs else .error beyond
    else .error .invalidDigit

/-- A natural number of at most `limit`, a plus sign allowed. -/
def readNat (limit : Nat) : List Char → Except IntegerFault Nat
  | [] => .error .empty
  | ['+'] => .error .invalidDigit
  | '+' :: cs => readDigits limit .tooLarge 0 cs
  | cs => readDigits limit .tooLarge 0 cs

/-- An integer between `-(limit + 1)` and `limit`, a sign allowed. -/
def readInt (limit : Nat) : List Char → Except IntegerFault Int
  | [] => .error .empty
  | ['+'] | ['-'] => .error .invalidDigit
  | '-' :: cs => (readDigits (limit + 1) .tooSmall 0 cs).map fun n => -(n : Int)
  | '+' :: cs => (readDigits limit .tooLarge 0 cs).map fun n => (n : Int)
  | cs => (readDigits limit .tooLarge 0 cs).map fun n => (n : Int)

/-- The largest signed integer of 32 bits. -/
def maxInt32 : Nat := 2147483647

/-- The largest unsigned integer of 32 bits. -/
def maxNat32 : Nat := 4294967295

/-- The largest signed integer of 64 bits. -/
def maxInt64 : Nat := 9223372036854775807

/-- The largest unsigned integer of 64 bits. -/
def maxNat64 : Nat := 18446744073709551615

end RuleScope.Text
