import RuleScope.Command.Fault

namespace RuleScope.Command

/-- One node of the rule tree, with its state, at its depth. -/
def nodeLine (m : RuleModel) (n : Nat) : String :=
  let depth := (m.tree.lineage n).length - 1
  let state := m.state n
  let label := ((m.tree.node? n).map Node.label).getD ""
  String.ofList (List.replicate (2 * depth) ' ') ++ "[" ++ state.symbol.toString ++ "] " ++ label ++
    match m.tree.ruleId? n with
    | some id => " #" ++ id.text ++ " (" ++ state.display ++ ")"
    | none => "/"

/-- One line for each diagnostic of a kind, imports in their order. -/
def diagnosticLines (m : RuleModel) (kind : String) (diagnostics : List (Nat × List Diagnostic)) :
    List String :=
  diagnostics.flatMap fun (n, ds) =>
    let file := match m.tree.sourceFile? n with
      | some path => path.text
      | none => ((m.tree.node? n).map Node.label).getD ""
    ds.map fun e =>
      kind ++ ": " ++ file ++ ":" ++ Text.natText e.line ++ ":" ++ Text.natText e.column ++ ": "
        ++ e.message

def modifiedLines (t : SourceTree) : List String :=
  match t.modifiedFiles with
  | [] => []
  | files => "" :: "Modified since last compile:" :: files.map fun p => "  " ++ p.text

def fileLine (n : SourceNode) : String :=
  "  [" ++ n.usage.symbol ++ "]" ++ (if n.modified then "*" else " ") ++ " " ++ n.path.text

def fileLines (t : SourceTree) : List String :=
  "" :: "Files:" :: ((t.sorted.filter fun n => !n.isFolder).map fileLine)

/-- The rule tree, the outcome of the compile, and on demand the files. -/
def tree (s : Session) (files : Bool) : List String :=
  match s.model with
  | none => ["No compiled rules: " ++ s.locationFile ++ " does not exist"]
  | some m =>
    let t := m.tree
    (List.range t.size).map (nodeLine m) ++
      ["", "Outcome:  " ++ t.outcome.display, "Sources:  " ++ s.sources.status.display] ++
      diagnosticLines m "error" t.errors ++ diagnosticLines m "warning" t.warnings ++
      diagnosticLines m "parse failure" t.failures ++ modifiedLines s.sources ++
      if files then fileLines s.sources else []

/-- The session on one line. -/
def overview (s : Session) : String :=
  "[v" ++ Text.natText s.version ++ "] " ++
    match s.model with
    | some m =>
      m.tree.rootLabel ++ ": " ++ Text.natText m.tree.ruleCount ++ " rules, compile "
        ++ m.tree.outcome.display ++ ", sources " ++ s.sources.status.display
    | none => "no compiled rules at " ++ s.locationFile

/-- The file and line of a rule. -/
def locate (s : Session) (id : RuleId) : Except Fault String :=
  match s.model with
  | none => .error .noModel
  | some m =>
    match m.tree.definition? id with
    | some (file, line) => .ok (file.text ++ ":" ++ Text.natText line)
    | none => .error (.change (.unknownRule id))

/-- A text filled up with blanks to a width. -/
def padded (width : Nat) (text : String) : String :=
  text ++ String.ofList (List.replicate (width - text.length) ' ')

/-- How long ago something was, in its greatest unit. -/
def ageText (seconds : Nat) : String :=
  if seconds < 60 then Text.natText seconds ++ "s ago"
  else if seconds < 3600 then Text.natText (seconds / 60) ++ "m ago"
  else if seconds < 86400 then Text.natText (seconds / 3600) ++ "h ago"
  else Text.natText (seconds / 86400) ++ "d ago"

def storedLine (d : Disk) (s : StoredSnapshot) : String :=
  padded 24 s.name ++ " " ++ ageText ((d.now - s.modified) / Disk.second).toNat

/-- The snapshots changed last. -/
def snapshots (s : Session) (d : Disk) : Except Fault (List String) :=
  match s.store.recent d with
  | .error e => .error (.store e)
  | .ok [] => .ok ["No snapshots in " ++ s.store.dir]
  | .ok recent => .ok (recent.map (storedLine d))

end RuleScope.Command
