import RuleScope.RuleModel.Change
import RuleScope.Snapshot.Basic

namespace RuleScope.Snapshot

/-- Gives the entry at a label path new values, with the entries below it kept. -/
def Entry.setAt (expanded : Bool) (state : LoggingState) (isImport : Bool) :
    Entry → List String → Entry
  | e, [] => ⟨expanded, state, isImport, e.children⟩
  | e, label :: rest =>
    let child := (find? label e.children).getD (.leaf state isImport)
    { e with children := insert label (child.setAt expanded state isImport rest) e.children }

end RuleScope.Snapshot

namespace RuleScope.RuleModel

/-- The labels of a node below the root. -/
def labelsBelow (m : RuleModel) (n : Nat) : List String := (m.tree.labelPath n).drop 1

/-- Enters the live values of one node. -/
def recordNode (m : RuleModel) (e : Snapshot.Entry) (n : Nat) : Snapshot.Entry :=
  e.setAt (m.isExpanded n) (m.state n) (m.tree.isImport n) (m.labelsBelow n)

/-- Enters the live values of all nodes. -/
def record (m : RuleModel) (e : Snapshot.Entry) : Snapshot.Entry :=
  (List.range m.tree.size).foldl m.recordNode e

end RuleScope.RuleModel

namespace RuleScope.Snapshot

/-- Takes over the live values of a model. Entries of nodes that the model lacks are kept, unless
the model has another root. -/
def retrieve (s : Snapshot) (m : RuleModel) : Snapshot :=
  let known := if s.rootLabel = some m.tree.rootLabel then s.root else none
  let start := known.getD (.leaf (m.state RuleTree.root) (m.tree.isImport RuleTree.root))
  { s with rootLabel := some m.tree.rootLabel, root := some (m.record start) }

/-- A new snapshot of a model. -/
def capture (m : RuleModel) : Snapshot := empty.retrieve m

/-- What an entry restores on a node: its expansion, and its state if the node is a rule and the
entry is that of a rule in a selectable state. -/
def Entry.restored (e : Entry) (isRule : Bool) : Bool × Option LoggingState :=
  (e.expanded, if isRule && !e.isImport && !e.state.isDerived then some e.state else none)

/-- Restores one node. -/
def restoreNode (e : Entry) (u : Update) (n : Nat) : Update :=
  match e.at? (u.model.labelsBelow n) with
  | none => u
  | some found =>
    let (expanded, state) := found.restored (u.model.tree.isRule n)
    let m := u.model.setExpanded n expanded
    match state with
    | none => ⟨m, u.changes⟩
    | some s =>
      match m.setState n s with
      | .ok v => ⟨v.model, u.changes ++ v.changes⟩
      | .error _ => ⟨m, u.changes⟩

/-- Restores a model and takes its values over. Nothing happens without entries and on a model with
another root. -/
def restore? (s : Snapshot) (m : RuleModel) : Option (Snapshot × Update) :=
  if s.rootLabel = some m.tree.rootLabel then
    s.root.map fun e =>
      let u := (List.range m.tree.size).foldl (restoreNode e) ⟨m, []⟩
      (s.retrieve u.model, u)
  else none

end RuleScope.Snapshot
