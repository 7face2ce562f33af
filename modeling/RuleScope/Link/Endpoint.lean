import RuleScope.Link.Address
import RuleScope.Table
import RuleScope.Wire.Decode

namespace RuleScope

/-- The runtime's end of the link. It serves one debugger at a time and keeps the last state that
was pushed for each rule, over all connections. Reports that come while nobody is connected wait for
the next connection. -/
structure Endpoint where
  addr : Address
  table : List (RuleId × LoggingState)
  /-- The states that were pushed and that nobody has asked for. -/
  received : List Wire.StateMessage
  /-- The reports that wait to be sent. -/
  outbound : List Wire.LogMessage
  connected : Bool
  deriving Repr

namespace Endpoint

def new (addr : Address) : Endpoint := ⟨addr, [], [], [], false⟩

/-- The state last pushed for a rule, `never` if there was none. -/
def state (e : Endpoint) (id : RuleId) : LoggingState := (Table.get? id e.table).getD .never

/-- The number of rules for which a state was pushed. -/
def knownRules (e : Endpoint) : Nat := e.table.length

/-- Reports evaluations whatever the state of the rule. -/
def log (e : Endpoint) (id : RuleId) (results : List Bool) : Endpoint :=
  { e with outbound := e.outbound ++ [⟨id, results⟩] }

/-- Whether an evaluation, its outcome first, is reported. -/
def reports (e : Endpoint) (id : RuleId) (results : List Bool) : Bool :=
  match results with
  | [] => false
  | outcome :: _ => (e.state id).shows outcome

/-- Reports an evaluation if the debugger asked to see it. -/
def evaluated (e : Endpoint) (id : RuleId) (results : List Bool) : Endpoint :=
  if e.reports id results then e.log id results else e

/-- Reads one line; only a pushed state means anything. -/
def read (e : Endpoint) (text : String) : Endpoint :=
  match Wire.decode text with
  | .ok (some (.state m)) =>
    { e with table := Table.put m.rule m.state e.table, received := e.received ++ [m] }
  | _ => e

/-- Sends what waits, if a debugger is there to receive it. -/
def flush (e : Endpoint) : Endpoint × List String :=
  if e.connected then
    ({ e with outbound := [] }, e.outbound.filterMap fun m =>
      match (Wire.Message.log m).encode with
      | .ok line => some line
      | .error _ => none)
  else (e, [])

/-- A debugger connects, unless one is there. -/
def accept? (e : Endpoint) : Option Endpoint :=
  if e.connected then none else some { e with connected := true }

/-- The debugger is gone. -/
def release (e : Endpoint) : Endpoint := { e with connected := false }

/-- Hands out the states that were pushed. -/
def takeReceived (e : Endpoint) : Endpoint × List Wire.StateMessage :=
  ({ e with received := [] }, e.received)

/-- What is shown of an endpoint. -/
def summary (e : Endpoint) : String :=
  "RuntimeServer \x7b local_addr: " ++ e.addr.text ++ ", known_rules: "
    ++ Text.natText e.knownRules ++ " \x7d"

end Endpoint

end RuleScope
