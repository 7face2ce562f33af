import RuleScope.RuleTree.Lookup

namespace RuleScope

inductive TargetFault where
  | noRule (id : Int)
  | noNode (target : String)
  deriving DecidableEq, Repr

def TargetFault.message : TargetFault → String
  | noRule id => "No rule with id " ++ Text.intText id
  | noNode target => "No node at '" ++ target ++ "'"

namespace RuleTree

/-- The labels that a target names below the root. -/
def targetLabels (rootLabel target : String) : List String :=
  match (Path.pieces target).filter (· ≠ "") with
  | first :: rest => if first = rootLabel then rest else first :: rest
  | [] => []

/-- The node that a target names. A target that reads as a number of 32 bits is a rule id. -/
def target (t : RuleTree) (target : String) : Except TargetFault Nat :=
  match Text.readInt Text.maxInt32 target.toList with
  | .ok i =>
    match (RuleId.ofInt? i).bind t.rule? with
    | some n => .ok n
    | none => .error (.noRule i)
  | .error _ =>
    match t.at? (targetLabels t.rootLabel target) with
    | some n => .ok n
    | none => .error (.noNode target)

end RuleTree

end RuleScope
