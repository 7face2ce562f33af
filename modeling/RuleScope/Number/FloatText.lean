import RuleScope.Number.Shortest
import RuleScope.Text.Digits

namespace RuleScope.Number

/-- The decisions of a number format. -/
structure FloatStyle where
  /-- Whether a decimal exponent of the leading digit is written positionally. -/
  positional : Int → Bool
  /-- Text before the digits of a non-negative exponent. -/
  positiveMark : List Char
  /-- Texts of infinity and of not-a-number. -/
  infinity : String

/-- Every double without an exponent. -/
def FloatStyle.plain : FloatStyle where
  positional := fun _ => true
  positiveMark := ['e']
  infinity := "inf"

/-- Positional from 0.00001 to below 10^16; the exponent is bare. -/
def FloatStyle.bare : FloatStyle where
  positional := fun e => -5 ≤ e && e ≤ 15
  positiveMark := ['e']
  infinity := ".inf"

/-- Positional from 0.00001 to below 10^16; the exponent has a sign. -/
def FloatStyle.signed : FloatStyle where
  positional := fun e => -5 ≤ e && e ≤ 15
  positiveMark := ['e', '+']
  infinity := "inf"

def padLeft (width : Nat) (c : Char) (cs : List Char) : List Char :=
  List.replicate (width - cs.length) c ++ cs

/-- Digits around a point that stands after the digit of exponent zero; at least one digit on
either side. -/
def positionalChars (ds : List Char) (exponent : Int) : List Char :=
  if 0 ≤ exponent then ds ++ List.replicate exponent.toNat '0' ++ ['.', '0']
  else
    let places := (-exponent).toNat
    let ds := padLeft (places + 1) '0' ds
    ds.take (ds.length - places) ++ '.' :: ds.drop (ds.length - places)

def exponentChars (style : FloatStyle) (e : Int) : List Char :=
  (if e < 0 then ['e', '-'] else style.positiveMark) ++
    Text.natChars e.natAbs

def magnitudeChars (style : FloatStyle) : Magnitude → List Char
  | .infinite => style.infinity.toList
  | .finite 0 _ => ['0', '.', '0']
  | .finite m e =>
    let d := shortest m e
    let ds := Text.natChars d.digits
    let top := d.exponent + ds.length - 1
    if style.positional top then positionalChars ds d.exponent
    else
      match ds with
      | [] => []
      | [x] => x :: exponentChars style top
      | x :: xs => x :: '.' :: xs ++ exponentChars style top

def floatChars (style : FloatStyle) (x : Binary64) : List Char :=
  (if x.negative then ['-'] else []) ++ magnitudeChars style x.magnitude

def floatText (style : FloatStyle) (x : Binary64) : String :=
  String.ofList (floatChars style x)

end RuleScope.Number
