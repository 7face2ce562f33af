import RuleScope.LoggingState
import RuleScope.RuleTree.Build
import RuleScope.RuleTree.Lookup

namespace RuleScope

structure ObserverId where
  value : Nat
  deriving DecidableEq, Repr

/-- Who an observer is: a connection to the runtime, by its number, or anyone else. -/
inductive Receiver where
  | connection (number : Nat)
  | listener
  deriving DecidableEq, Repr

/-- An observer is told of the changes of a node. -/
structure Subscription where
  node : Nat
  observer : ObserverId
  deriving DecidableEq, Repr

/-- The observers of a model, what each has subscribed to, and the number of the next one. -/
structure Observers where
  live : List (ObserverId × Receiver)
  subscriptions : List Subscription
  next : Nat
  deriving Repr

/-- A rule tree with the logging state and the expansion of every node, and with those who observe
it. The tree never changes; a new compile gives a new model. -/
structure RuleModel where
  tree : RuleTree
  states : Array LoggingState
  expanded : Array Bool
  observers : Observers
  deriving Repr

namespace LoggingState

/-- The state that nodes with these states have in common, if any of them has rules. -/
def common? (states : List LoggingState) : Option LoggingState :=
  match states.filter (· ≠ ruleLess) with
  | [] => none
  | s :: rest => some (if rest.all (· = s) then s else mixed)

end LoggingState

namespace RuleTree

def stateAt (states : Array LoggingState) (n : Nat) : LoggingState := states.getD n .never

/-- The state that follows for an import from the states of its members. -/
def derived? (t : RuleTree) (states : Array LoggingState) (n : Nat) : Option LoggingState :=
  LoggingState.common? ((t.members n).map (stateAt states))

/-- The first state of a node, given the first states of all later nodes. -/
def seed (t : RuleTree) (states : Array LoggingState) (n : Nat) : Array LoggingState :=
  match t.node? n with
  | some node =>
    if node.isRule then states
    else if node.containsRules then states.setIfInBounds n ((t.derived? states n).getD .never)
    else states.setIfInBounds n .ruleLess
  | none => states

/-- The states with which a model starts: no rule is logged. -/
def initialStates (t : RuleTree) : Array LoggingState :=
  (List.range t.size).reverse.foldl t.seed (Array.replicate t.size .never)

end RuleTree

namespace RuleModel

/-- A model of a new compile: nothing is logged, expanded or observed. -/
def ofTree (t : RuleTree) : RuleModel :=
  ⟨t, t.initialStates, Array.replicate t.size false, ⟨[], [], 0⟩⟩

/-- A model of a location file whose sources lie under `sourceRoot`. -/
def build (resolve : String → AbsPath) (sourceRoot : String) (l : Location) :
    Except RuleTree.BuildFault RuleModel :=
  (RuleTree.build resolve sourceRoot l).map ofTree

def state (m : RuleModel) (n : Nat) : LoggingState := RuleTree.stateAt m.states n

def isExpanded (m : RuleModel) (n : Nat) : Bool := m.expanded.getD n false

def setExpanded (m : RuleModel) (n : Nat) (expanded : Bool) : RuleModel :=
  { m with expanded := m.expanded.setIfInBounds n expanded }

/-- The states of all rules, in the order of their ids. -/
def ruleStates (m : RuleModel) : List (RuleId × LoggingState) :=
  m.tree.rulesById.map fun r => (r.1, m.state r.2)

end RuleModel

end RuleScope
