import RuleScope.RuleModel.Target
import RuleScope.Session

namespace RuleScope.Command

inductive Fault where
  | noProject (path : String) (cause : DiskFault)
  | settings (cause : SettingsFault)
  | noModel
  | target (cause : TargetFault)
  | change (cause : ChangeFault)
  | load (locationFile : String) (cause : LoadFault)
  | store (cause : StoreFault)
  | watch (cause : WatchFault)
  deriving DecidableEq, Repr

namespace Fault

/-- What failed, then why, each cause after what it caused. -/
def chain : Fault → List String
  | noProject path cause => ["Project directory " ++ path ++ " not found", cause.message]
  | settings cause => cause.chain
  | noModel => ["No compiled rules; run the rule compiler first"]
  | target cause => [cause.message]
  | change cause => [cause.message]
  | load file cause => cause.chain file
  | store cause => cause.chain
  | watch cause => [cause.message]

/-- The fault on one line. -/
def line (e : Fault) : String := String.intercalate ": " e.chain

/-- A text whose first line stands after `first` and whose other lines stand after `other`. -/
def indented (first other text : String) : String :=
  first ++ String.ofList (text.toList.flatMap fun c =>
    if c = '\n' then '\n' :: other.toList else [c])

/-- A number in a column of five places. -/
def numberColumn (n : Nat) : String :=
  let digits := Text.natText n
  String.ofList (List.replicate (5 - digits.length) ' ') ++ digits ++ ": "

/-- The causes, one below the other; several are numbered. -/
def causeLines : List String → List String
  | [cause] => [indented "    " "    " cause]
  | causes =>
    (causes.zip (List.range causes.length)).map fun c =>
      indented (numberColumn c.2) "       " c.1

/-- The fault as it is reported at the end of a program. -/
def report (e : Fault) : String :=
  match e.chain with
  | [] => "Error: "
  | [top] => "Error: " ++ top
  | top :: causes =>
    "Error: " ++ top ++ "\n\nCaused by:\n" ++ String.intercalate "\n" (causeLines causes)

end Fault

end RuleScope.Command
