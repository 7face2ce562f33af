import RuleScope.LoggingState

namespace RuleScope.Evaluation

def outcomeText (outcome : Bool) : String := if outcome then "true" else "false"

def termText (term : Bool) : String := if term then "t" else "f"

/-- The line of an evaluation, when a rule in this state shows it. -/
def line? (state : LoggingState) : List Bool → Option String
  | [] => none
  | outcome :: terms =>
    if state.shows outcome then
      some (if terms.isEmpty then outcomeText outcome
        else outcomeText outcome ++ " [" ++ String.intercalate " " (terms.map termText) ++ "]")
    else none

end RuleScope.Evaluation
