import RuleScope.RuleTree.Basic

namespace RuleScope.RuleTree

/-- Works the stack off, for at most as many steps as `fuel`. A node is flagged when its children have
been put on the stack, and is complete when it comes up again. -/
def unstack (t : RuleTree) : Nat → List (Nat × Bool) → List Nat → List Nat
  | 0, _, out => out
  | _, [], out => out
  | fuel + 1, (n, true) :: stack, out => t.unstack fuel stack (out ++ [n])
  | fuel + 1, (n, false) :: stack, out =>
    t.unstack fuel ((t.children n).map (·, false) ++ (n, true) :: stack) out

/-- The subtree of `n` from its leaves up, siblings in order. -/
def postOrder (t : RuleTree) (n : Nat) : List Nat :=
  if n < t.size then t.unstack (2 * t.size) [(n, false)] [] else []

end RuleScope.RuleTree
