import RuleScope.RuleModel.Observers
import RuleScope.RuleTree.Order

namespace RuleScope

inductive ChangeFault where
  | derivedState (s : LoggingState)
  | unknownRule (id : RuleId)
  | unknownNode (n : Nat)
  deriving DecidableEq, Repr

def ChangeFault.message : ChangeFault → String
  | derivedState s => s.constructorName ++ " cannot be set directly"
  | unknownRule id => "rule not found: " ++ id.text
  | unknownNode n => "node not found: " ++ Text.natText n

/-- States in the course of a change, and the changes so far. -/
structure Sweep where
  states : Array LoggingState
  changes : List Change
  deriving Repr

namespace Sweep

def state (w : Sweep) (n : Nat) : LoggingState := RuleTree.stateAt w.states n

/-- Gives a node a state; nothing is recorded when it has that state. -/
def write (t : RuleTree) (w : Sweep) (n : Nat) (s : LoggingState) : Sweep :=
  if w.state n = s then w
  else ⟨w.states.setIfInBounds n s, w.changes ++ [⟨n, t.ruleId? n, w.state n, s⟩]⟩

/-- Derives the state of an import anew. -/
def refresh (t : RuleTree) (w : Sweep) (n : Nat) : Sweep :=
  match t.derived? w.states n with
  | some s => w.write t n s
  | none => w

/-- Derives the imports above a changed node, up to the first whose state stays. -/
def climb (t : RuleTree) (w : Sweep) (n : Nat) : Sweep :=
  match t.follower? n with
  | none => w
  | some ⟨p, _⟩ =>
    let next := w.refresh t p
    if next.state p = w.state p then next else next.climb t p
termination_by n

/-- Gives a node a state and lets the imports above follow. -/
def assign (t : RuleTree) (w : Sweep) (n : Nat) (s : LoggingState) : Sweep :=
  if w.state n = s then w else (w.write t n s).climb t n

/-- Gives all rules of a subtree a state, then derives its imports and those above. -/
def assignBelow (t : RuleTree) (w : Sweep) (n : Nat) (s : LoggingState) : Sweep :=
  let order := t.postOrder n
  let written := (order.filter t.isRule).foldl (fun w r => w.write t r s) w
  let derived := (order.filter t.isImport).foldl (refresh t) written
  derived.climb t n

end Sweep

/-- A model after a change, and what has changed. -/
structure Update where
  model : RuleModel
  changes : List Change
  deriving Repr

/-- What the observers of the model are told. -/
def Update.notices (u : Update) : List Notice := u.model.observers.notices u.changes

namespace RuleModel

def sweep (m : RuleModel) : Sweep := ⟨m.states, []⟩

def finish (m : RuleModel) (w : Sweep) : Update := ⟨{ m with states := w.states }, w.changes⟩

/-- Sets every rule below a node. A rule stands for itself alone, even when rules lie below it. -/
def setAllBelow (m : RuleModel) (n : Nat) (s : LoggingState) : Except ChangeFault Update :=
  if s.isDerived then .error (.derivedState s)
  else match m.tree.node? n with
    | none => .error (.unknownNode n)
    | some node =>
      .ok (m.finish
        (if node.isRule then m.sweep.assign m.tree n s else m.sweep.assignBelow m.tree n s))

/-- Sets one node; an import stands for all rules below it. -/
def setState (m : RuleModel) (n : Nat) (s : LoggingState) : Except ChangeFault Update :=
  m.setAllBelow n s

def setRuleState (m : RuleModel) (id : RuleId) (s : LoggingState) : Except ChangeFault Update :=
  match m.tree.rule? id with
  | some n => m.setState n s
  | none => .error (.unknownRule id)

end RuleModel

end RuleScope
