import RuleScope.RuleTree.Basic

namespace RuleScope.RuleTree

/-- The first child with this label. -/
def childNamed? (t : RuleTree) (n : Nat) (label : String) : Option Nat :=
  (t.children n).find? fun c => ((t.node? c).map Node.label) == some label

/-- The node at a label path below `n`. -/
def below? (t : RuleTree) (n : Nat) : List String → Option Nat
  | [] => some n
  | label :: rest => (t.childNamed? n label).bind fun c => t.below? c rest

/-- The node at a label path below the root. -/
def at? (t : RuleTree) (labels : List String) : Option Nat := t.below? root labels

/-- The labels from the root down to a node, both included. -/
def labelPath (t : RuleTree) (n : Nat) : List String :=
  ((t.lineage n).filterMap fun m => (t.node? m).map Node.label).reverse

def rule? (t : RuleTree) (id : RuleId) : Option Nat := Table.get? id t.rules

def ruleCount (t : RuleTree) : Nat := t.rules.length

/-- The rules with their nodes, in the order of their ids. -/
def rulesById (t : RuleTree) : List (RuleId × Nat) := t.rules.mergeSort fun a b => a.1.le b.1

/-- The nodes of all rules, in the order of their ids. -/
def ruleNodes (t : RuleTree) : List Nat := t.rulesById.map Prod.snd

def importAt? (t : RuleTree) (path : AbsPath) : Option Nat := Table.get? path t.imports

/-- The nearest import at or above a node. -/
def enclosingImport? (t : RuleTree) (n : Nat) : Option Nat := (t.lineage n).find? t.isImport

/-- The file in which a node is defined. -/
def sourceFile? (t : RuleTree) (n : Nat) : Option AbsPath :=
  (t.enclosingImport? n).bind fun m => (t.node? m).bind Node.path?

/-- The file and line of a rule. -/
def definition? (t : RuleTree) (id : RuleId) : Option (AbsPath × Nat) := do
  let n ← t.rule? id
  let file ← t.sourceFile? n
  let node ← t.node? n
  pure (file, node.line)

end RuleScope.RuleTree
