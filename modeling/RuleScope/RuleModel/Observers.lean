import RuleScope.RuleModel.Basic

namespace RuleScope

/-- A node whose state has changed, with its rule id if it is a rule. -/
structure Change where
  node : Nat
  rule : Option RuleId
  old : LoggingState
  new : LoggingState
  deriving DecidableEq, Repr

/-- A change as told to one observer. -/
structure Notice where
  observer : ObserverId
  change : Change
  deriving DecidableEq, Repr

namespace Observers

def subscribe (o : Observers) (receiver : Receiver) (nodes : List Nat) : Observers × ObserverId :=
  let id : ObserverId := ⟨o.next⟩
  (⟨o.live ++ [(id, receiver)], o.subscriptions ++ nodes.map (⟨·, id⟩), o.next + 1⟩, id)

/-- Removes an observer and tells how many subscriptions it had. -/
def unsubscribe (o : Observers) (id : ObserverId) : Observers × Nat :=
  (⟨o.live.filter (·.1 ≠ id), o.subscriptions.filter (·.observer ≠ id), o.next⟩,
    o.subscriptions.countP (·.observer = id))

/-- Who a live observer is. -/
def receiver? (o : Observers) (id : ObserverId) : Option Receiver := Table.get? id o.live

/-- Who is told of a change of a node, in the order of subscription. -/
def watchers (o : Observers) (n : Nat) : List ObserverId :=
  (o.subscriptions.filter (·.node = n)).map Subscription.observer

/-- What the observers are told of some changes, in the order of the changes. -/
def notices (o : Observers) (changes : List Change) : List Notice :=
  changes.flatMap fun c => (o.watchers c.node).map (⟨·, c⟩)

end Observers

namespace RuleModel

def subscribe (m : RuleModel) (receiver : Receiver) (nodes : List Nat) : RuleModel × ObserverId :=
  let (observers, id) := m.observers.subscribe receiver nodes
  ({ m with observers }, id)

/-- Subscribes a new observer to every rule. -/
def subscribeRules (m : RuleModel) (receiver : Receiver) : RuleModel × ObserverId :=
  m.subscribe receiver m.tree.ruleNodes

def unsubscribe (m : RuleModel) (id : ObserverId) : RuleModel × Nat :=
  let (observers, removed) := m.observers.unsubscribe id
  ({ m with observers }, removed)

def observerCount (m : RuleModel) : Nat := m.observers.live.length

def observerSubscriptionCount (m : RuleModel) : Nat := m.observers.subscriptions.length

/-- The dependencies on one node and its subscriptions. -/
def subscriptionCount (m : RuleModel) (n : Nat) : Nat :=
  m.tree.dependencies.countP (·.child = n) + m.observers.subscriptions.countP (·.node = n)

/-- The nodes with dependencies or subscriptions, each once. -/
def subscribedNodes (m : RuleModel) : List Nat :=
  (m.tree.dependencies.map Dependency.child ++ m.observers.subscriptions.map Subscription.node).eraseDups

/-- What is shown of the subscriptions of a model. -/
def subscriptionSummary (m : RuleModel) : String :=
  "Subscriptions \x7b nodes: " ++ Text.natText m.subscribedNodes.length ++ ", observers: "
    ++ Text.natText m.observerCount ++ " \x7d"

end RuleModel

def ObserverId.text (id : ObserverId) : String := "ObserverId(" ++ Text.natText id.value ++ ")"

end RuleScope
