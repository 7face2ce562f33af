import RuleScope.Command.Change
import RuleScope.Command.Line
import RuleScope.Watching

namespace RuleScope.Command

/-- How the program ends. -/
structure Exit where
  code : Nat
  lines : List String
  fault : Option Fault

inductive Running where
  | ended (e : Exit)
  | watching (shown : List Shown) (w : Watching)

namespace Running

def success (lines : List String) : Running := .ended ⟨0, lines, none⟩

def failure (lines : List String) (e : Fault) : Running := .ended ⟨1, lines, some e⟩

/-- The program breaks off and reports nothing. -/
def aborted : Running := .ended ⟨101, [], none⟩

def ofOutcome : Except Fault (List String) → Running
  | .ok lines => success lines
  | .error e => failure [] e

end Running

def versionLine : String := "rdb 0.1.0"

def helpLines : List String :=
  ["rdb: rule debugger for rudi dialogue projects",
    "",
    "Usage: rdb [-v] [-q] [-p <dir>] [command]",
    "",
    "  show [--files]             the rule tree, states and compile results (default)",
    "  open <id>                  where a rule is defined",
    "  set <rule or path> <state> the state of a rule or of all rules of an import",
    "  snapshot save <name>       save the current setup",
    "  snapshot apply <name>      restore a saved setup",
    "  snapshot list              the setups saved last",
    "  watch [-c] [--address <a>] follow source edits and recompiles",
    "  config show|init|path      the project configuration"]

/-- What has been shown, faults left out. -/
def printed (shown : List Shown) : List String :=
  shown.filterMap fun
    | .line text => some text
    | .fault _ => none

/-- Writes the effective settings as the file of the project. -/
def initSettings (s : Settings) (d : Disk) (projectDir : String) :
    Disk × Except Fault (List String) :=
  match s.save d projectDir with
  | .ok (d, path) => (d, .ok ["Wrote " ++ path])
  | .error e => (d, .error (.settings e))

/-- Runs a command in a project with these settings. -/
def runIn (d : Disk) (projectDir : String) (settings : Settings) : Action → Disk × Running
  | .tree files => (d, .success (tree (.ofSettings d settings) files))
  | .locate id => (d, .ofOutcome ((locate (.ofSettings d settings) id).map fun l => [l]))
  | .set target state =>
    let done := set (.ofSettings d settings) d target state
    (done.disk, .ofOutcome done.outcome)
  | .save name =>
    let done := saveSnapshot (.ofSettings d settings) d name
    (done.disk, .ofOutcome done.outcome)
  | .apply name =>
    let done := applySnapshot (.ofSettings d settings) d name
    (done.disk, .ofOutcome done.outcome)
  | .list => (d, .ofOutcome (snapshots (.ofSettings d settings) d))
  | .watch connecting address =>
    let settings := { settings with runtimeAddress := address.getD settings.runtimeAddress }
    match Watching.start d settings connecting [] with
    | (shown, .error e) => (d, .failure (printed shown) (.watch e))
    | (shown, .ok w) => (d, .watching shown w)
  | .configShow => (d, .success [settings.toText])
  | .configInit =>
    let (d, outcome) := initSettings settings d projectDir
    (d, .ofOutcome outcome)
  | .configPath => (d, .success [Settings.pathIn projectDir])

/-- Runs a request. -/
def run (d : Disk) (e : Environment) (r : Request) : Disk × Running :=
  match d.find r.project with
  | .error cause => (d, .failure [] (.noProject r.project cause))
  | .ok place =>
    match Settings.load d e place.text with
    | .error (.unsettable _) => (d, .aborted)
    | .error cause => (d, .failure [] (.settings cause))
    | .ok settings => runIn d place.text settings r.action

/-- Runs the program on the words of its command line. -/
def program (d : Disk) (e : Environment) (words : List String) : Disk × Running :=
  match readLine (e.get? "RDB_PROJECT") words with
  | .error .help => (d, .success helpLines)
  | .error .version => (d, .success [versionLine])
  | .error .misuse => (d, .ended ⟨2, [], none⟩)
  | .ok r => run d e r

end RuleScope.Command
