import RuleScope.RuleTree.Basic

namespace RuleScope.RuleTree

/-- The root is a rule, or a rule id comes a second time. -/
inductive BuildFault where
  | rootNotImport (label : String)
  | duplicateRuleId (id : RuleId)
  deriving DecidableEq, Repr

def BuildFault.message : BuildFault → String
  | rootNotImport label => "location file root must be an import, found rule " ++ Text.quoted label
  | duplicateRuleId id => "duplicate rule id " ++ id.text ++ " in location file"

/-- A tree without nodes. -/
def bare (sourceRoot : AbsPath) : RuleTree := ⟨sourceRoot, #[], [], [], [], [], [], []⟩

/-- The written path of an import without one is its label with the extension of rule sources. -/
def writtenPath (label : String) (path : Option String) : String :=
  path.getD (label ++ "." ++ Path.ruleExtension)

/-- Enters a diagnostic of the import `n`. -/
def addDiagnostic (n : Nat) (t : RuleTree) (d : Diagnostic) : RuleTree :=
  match d.kind with
  | .error => { t with errors := Table.append n d t.errors }
  | .warning => { t with warnings := Table.append n d t.warnings }
  | .parseFailure => { t with failures := Table.append n d t.failures }

/-- Tells the imports from `n` upwards that a rule lies below them, up to the first that knows. -/
def markRules (nodes : Array Node) (n : Nat) : Array Node :=
  match nodes[n]? with
  | none => nodes
  | some node =>
    if node.containsRules then nodes
    else
      let marked := nodes.setIfInBounds n node.withRules
      match node.parent with
      | some p => if p < n then markRules marked p else marked
      | none => marked
termination_by n

/-- Adds a node without children. A written path is turned into a place by `resolve`, relative to
the source root; a file that is imported twice is found at its last import. -/
def addNode (resolve : String → AbsPath) (t : RuleTree) (parent : Option Nat) (label : String)
    (line : Nat) (kind : LocationKind) : Except BuildFault RuleTree :=
  let n := t.size
  match kind with
  | .imported path diagnostics =>
    let place := resolve (Path.join t.sourceRoot.text (writtenPath label path))
    let t := { t with
      imports := Table.put place n t.imports
      nodes := t.nodes.push ⟨label, line, parent, [], .imported place diagnostics false⟩ }
    .ok (diagnostics.foldl (addDiagnostic n) t)
  | .rule id expression baseTerms =>
    match Table.get? id t.rules with
    | some _ => .error (.duplicateRuleId id)
    | none =>
      let nodes := t.nodes.push ⟨label, line, parent, [], .rule id expression baseTerms⟩
      .ok { t with
        rules := Table.put id n t.rules
        nodes := match parent with
          | some p => markRules nodes p
          | none => nodes }

/-- Enters the children of a complete node. -/
def setChildren (t : RuleTree) (n : Nat) (children : List Nat) : RuleTree :=
  { t with nodes := t.nodes.modify n fun node => { node with children } }

/-- An import depends on a complete child. -/
def addDependency (t : RuleTree) (parent : Option Nat) (child : Nat) : RuleTree :=
  match parent with
  | some p => if t.isImport p then { t with dependencies := t.dependencies ++ [⟨p, child⟩] } else t
  | none => t

mutual
/-- Adds a location with all that lies below it. -/
def add (resolve : String → AbsPath) (parent : Option Nat) :
    Location → RuleTree → Except BuildFault RuleTree
  | ⟨label, line, kind, children⟩, t => do
    let n := t.size
    let t ← addNode resolve t parent label line kind
    let (t, ids) ← addAll resolve n children t
    pure ((t.setChildren n ids).addDependency parent n)

/-- Adds locations below node `n` and gives their numbers. -/
def addAll (resolve : String → AbsPath) (n : Nat) :
    List Location → RuleTree → Except BuildFault (RuleTree × List Nat)
  | [], t => pure (t, [])
  | l :: rest, t => do
    let id := t.size
    let t ← add resolve (some n) l t
    let (t, ids) ← addAll resolve n rest t
    pure (t, id :: ids)
end

/-- The rule tree of a location file whose sources lie under `sourceRoot`. -/
def build (resolve : String → AbsPath) (sourceRoot : String) (l : Location) :
    Except BuildFault RuleTree :=
  if l.isImport then add resolve none l (bare (resolve sourceRoot))
  else .error (.rootNotImport l.label)

end RuleScope.RuleTree
