import RuleScope.Location.Tree
import RuleScope.Path.Absolute
import RuleScope.Table

namespace RuleScope

/-- What a node is besides its label and its place. -/
inductive NodeContent where
  /-- An import knows its source file and whether a rule lies somewhere below it. -/
  | imported (path : AbsPath) (diagnostics : List Diagnostic) (containsRules : Bool)
  | rule (id : RuleId) (expression : String) (baseTerms : List String)
  deriving Repr

structure Node where
  label : String
  line : Nat
  parent : Option Nat
  children : List Nat
  content : NodeContent
  deriving Repr

/-- The state of the import `parent` follows from that of `child`. -/
structure Dependency where
  parent : Nat
  child : Nat
  deriving DecidableEq, Repr

/-- Every node of a location file under its number, and tables of what is looked up. Numbers count
from zero in pre-order, so a node comes before all that lies below it. -/
structure RuleTree where
  sourceRoot : AbsPath
  nodes : Array Node
  dependencies : List Dependency
  imports : List (AbsPath × Nat)
  rules : List (RuleId × Nat)
  errors : List (Nat × List Diagnostic)
  warnings : List (Nat × List Diagnostic)
  failures : List (Nat × List Diagnostic)
  deriving Repr

/-- The overall result of a compile. -/
inductive CompileOutcome where
  /-- There is no location file yet. -/
  | unknown
  | perfect
  | withWarnings
  | withErrors
  | failed
  deriving DecidableEq, Repr

namespace CompileOutcome

def all : List CompileOutcome := [unknown, perfect, withWarnings, withErrors, failed]

/-- The name in files. -/
def key : CompileOutcome → String
  | unknown => "Unknown"
  | perfect => "Perfect"
  | withWarnings => "WithWarnings"
  | withErrors => "WithErrors"
  | failed => "Failed"

/-- The name shown to people. -/
def display : CompileOutcome → String
  | unknown => "unknown"
  | perfect => "perfect"
  | withWarnings => "with warnings"
  | withErrors => "with errors"
  | failed => "failed"

def ofKey? (text : String) : Option CompileOutcome := all.find? (·.key == text)

end CompileOutcome

namespace Node

def isImport (n : Node) : Bool :=
  match n.content with
  | .imported _ _ _ => true
  | .rule _ _ _ => false

def isRule (n : Node) : Bool := !n.isImport

def ruleId? (n : Node) : Option RuleId :=
  match n.content with
  | .imported _ _ _ => none
  | .rule id _ _ => some id

def path? (n : Node) : Option AbsPath :=
  match n.content with
  | .imported path _ _ => some path
  | .rule _ _ _ => none

/-- An import that knows of a rule below it. -/
def containsRules (n : Node) : Bool :=
  match n.content with
  | .imported _ _ contains => contains
  | .rule _ _ _ => false

/-- The same node, with a rule below it if it is an import. -/
def withRules (n : Node) : Node :=
  match n.content with
  | .imported path diagnostics _ => { n with content := .imported path diagnostics true }
  | .rule _ _ _ => n

end Node

namespace RuleTree

/-- The number of the root. -/
def root : Nat := 0

def size (t : RuleTree) : Nat := t.nodes.size

def node? (t : RuleTree) (n : Nat) : Option Node := t.nodes[n]?

def rootLabel (t : RuleTree) : String := ((t.node? root).map Node.label).getD ""

def children (t : RuleTree) (n : Nat) : List Nat := ((t.node? n).map Node.children).getD []

def isImport (t : RuleTree) (n : Nat) : Bool := ((t.node? n).map Node.isImport).getD false

def isRule (t : RuleTree) (n : Nat) : Bool := ((t.node? n).map Node.isRule).getD false

def ruleId? (t : RuleTree) (n : Nat) : Option RuleId := (t.node? n).bind Node.ruleId?

/-- The node above a node. Only a smaller number counts, so going up always ends. -/
def above? (t : RuleTree) (n : Nat) : Option { p : Nat // p < n } :=
  match (t.node? n).bind Node.parent with
  | some p => if h : p < n then some ⟨p, h⟩ else none
  | none => none

/-- The nodes from `n` up to the root. -/
def lineage (t : RuleTree) (n : Nat) : List Nat :=
  match t.above? n with
  | some ⟨p, _⟩ => n :: t.lineage p
  | none => [n]
termination_by n

/-- The import that follows the state of a node, if any; its number is smaller. -/
def follower? (t : RuleTree) (n : Nat) : Option { p : Nat // p < n } :=
  match t.dependencies.find? (·.child = n) with
  | some l => if h : l.parent < n then some ⟨l.parent, h⟩ else none
  | none => none

/-- The nodes whose states an import follows. -/
def members (t : RuleTree) (n : Nat) : List Nat :=
  t.dependencies.filterMap fun l => if l.parent = n then some l.child else none

/-- The worst kind of diagnostic decides. -/
def outcome (t : RuleTree) : CompileOutcome :=
  if !t.failures.isEmpty then .failed
  else if !t.errors.isEmpty then .withErrors
  else if !t.warnings.isEmpty then .withWarnings
  else .perfect

end RuleTree

end RuleScope
