import RuleScope.Text.Digits

namespace RuleScope.Text

/-- Decimals of thousandths, without trailing zeros. -/
def thousandths (n : Nat) : List Char :=
  let digits := [n / 100 % 10, n / 10 % 10, n % 10]
  ((digits.reverse.dropWhile (· = 0)).reverse).map digitChar

/-- A number of milliseconds. -/
def durationText (ms : Nat) : String :=
  if ms = 0 then "0ns"
  else if ms < 1000 then natText ms ++ "ms"
  else match thousandths (ms % 1000) with
    | [] => natText (ms / 1000) ++ "s"
    | decimals => natText (ms / 1000) ++ "." ++ String.ofList decimals ++ "s"

end RuleScope.Text
