namespace RuleScope

/-- Which evaluations of a rule the runtime reports. `mixed` and `ruleLess` are derived and only
ever held by imports. -/
inductive LoggingState where
  | never
  | ifFalse
  | ifTrue
  | always
  /-- The rules below an import disagree. -/
  | mixed
  /-- An import has no rule below it. -/
  | ruleLess
  deriving DecidableEq, Repr, Inhabited

namespace LoggingState

/-- The states a rule can be given, in menu order. -/
def selectable : List LoggingState := [never, ifFalse, ifTrue, always]

/-- All states, in declaration order. -/
def all : List LoggingState := [never, ifFalse, ifTrue, always, mixed, ruleLess]

/-- A derived state is computed for imports and never set. -/
def isDerived : LoggingState → Bool
  | mixed | ruleLess => true
  | _ => false

def wireCode : LoggingState → Option Int
  | never => some 0
  | ifTrue => some 1
  | ifFalse => some 2
  | always => some 3
  | mixed | ruleLess => none

def ofWireCode? (code : Int) : Option LoggingState :=
  match code with
  | 0 => some never
  | 1 => some ifTrue
  | 2 => some ifFalse
  | 3 => some always
  | _ => none

/-- Whether an evaluation with this outcome is reported. -/
def shows (s : LoggingState) (outcome : Bool) : Bool :=
  match s with
  | always => true
  | ifTrue => outcome
  | ifFalse => !outcome
  | _ => false

def symbol : LoggingState → Char
  | never => ' '
  | ifFalse => 'F'
  | ifTrue => 'T'
  | always => 'A'
  | mixed => '~'
  | ruleLess => '-'

/-- The name shown to people. -/
def display : LoggingState → String
  | never => "never"
  | ifFalse => "if-false"
  | ifTrue => "if-true"
  | always => "always"
  | mixed => "mixed"
  | ruleLess => "rule-less"

/-- The name in files. -/
def key : LoggingState → String
  | never => "NEVER"
  | ifFalse => "IF_FALSE"
  | ifTrue => "IF_TRUE"
  | always => "ALWAYS"
  | mixed => "MIXED"
  | ruleLess => "RULE_LESS"

/-- The name in diagnostics about the state itself. -/
def constructorName : LoggingState → String
  | never => "Never"
  | ifFalse => "IfFalse"
  | ifTrue => "IfTrue"
  | always => "Always"
  | mixed => "Mixed"
  | ruleLess => "RuleLess"

def ofKey? (text : String) : Option LoggingState :=
  all.find? (·.key == text)

/-- Reads a state as typed on a command line, ignoring the case of ASCII letters. Fails with the
text in lower case. -/
def ofName (text : String) : Except String LoggingState :=
  let name := text.map Char.toLower
  if name = "never" ∨ name = "off" then .ok never
  else if name = "if-false" ∨ name = "false" then .ok ifFalse
  else if name = "if-true" ∨ name = "true" then .ok ifTrue
  else if name = "always" ∨ name = "on" then .ok always
  else .error name

/-- What is said about a text that names no selectable state. -/
def unknownNameMessage (name : String) : String :=
  "unknown logging state '" ++ name ++ "' (expected never, if-false, if-true or always)"

theorem isDerived_eq_false_iff (s : LoggingState) : s.isDerived = false ↔ s ∈ selectable := by
  cases s <;> decide

theorem wireCode_isSome_iff (s : LoggingState) : s.wireCode.isSome ↔ s.isDerived = false := by
  cases s <;> decide

theorem ofWireCode?_wireCode {s : LoggingState} {code : Int} (h : s.wireCode = some code) :
    ofWireCode? code = some s := by
  cases s <;> simp [wireCode] at h <;> subst h <;> rfl

theorem ofKey?_key (s : LoggingState) : ofKey? s.key = some s := by
  cases s <;> decide

end LoggingState

end RuleScope
