import RuleScope.Json.Value
import RuleScope.LoggingState
import RuleScope.RuleId

namespace RuleScope.Wire

/-- A rule is to be logged in the given state. -/
structure StateMessage where
  rule : RuleId
  state : LoggingState
  deriving DecidableEq, Repr

/-- A rule has been evaluated. -/
structure LogMessage where
  rule : RuleId
  results : List Bool
  deriving DecidableEq, Repr

def LogMessage.outcome (m : LogMessage) : Option Bool := m.results.head?

/-- The values of the base terms. -/
def LogMessage.terms (m : LogMessage) : List Bool := m.results.tail

inductive Message where
  | state (m : StateMessage)
  | log (m : LogMessage)
  deriving DecidableEq, Repr

def stateMethod : String := "setLoggingState"

def logMethod : String := "logRule"

def envelope (method : String) (params : List Json) : Json :=
  .object [("method", .string method), ("params", .list params)]

/-- The line of a message. A derived state has none and is given back. -/
def Message.encode : Message → Except LoggingState String
  | state m =>
    match m.state.wireCode with
    | some code =>
      .ok (envelope stateMethod [.integer m.rule.value, .integer code]).compact
    | none => .error m.state
  | log m =>
    .ok (envelope logMethod [.integer m.rule.value, .list (m.results.map .boolean)]).compact

end RuleScope.Wire
