import RuleScope.Evaluation
import RuleScope.LogBatch
import RuleScope.RuleModel.Change

namespace RuleScope.RuleModel

/-- Takes over states, telling the observers as it goes. -/
def acceptStates (m : RuleModel) : List Wire.StateMessage → RuleModel × List Notice
  | [] => (m, [])
  | s :: rest =>
    match m.setRuleState s.rule s.state with
    | .ok u =>
      let (m, notices) := u.model.acceptStates rest
      (m, u.notices ++ notices)
    | .error _ => m.acceptStates rest

/-- The lines shown for the evaluations of one rule. -/
def logLines (m : RuleModel) (logs : RuleLogs) : List String :=
  match m.tree.rule? logs.rule with
  | none => []
  | some n =>
    let place := String.intercalate "/" (m.tree.labelPath n)
    (logs.evaluations.filterMap (Evaluation.line? (m.state n))).map fun line =>
      place ++ " #" ++ logs.rule.text ++ ": " ++ line

/-- A model after a batch, what its observers were told, and the lines shown. -/
def report (m : RuleModel) (b : LogBatch) : RuleModel × List Notice × List String :=
  let (m, notices) := m.acceptStates b.states
  (m, notices, b.logs.flatMap m.logLines)

end RuleScope.RuleModel
