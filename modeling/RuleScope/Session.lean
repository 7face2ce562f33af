import RuleScope.Location.Convert
import RuleScope.RuleModel.Report
import RuleScope.Snapshot.Merge
import RuleScope.Snapshot.Model
import RuleScope.Snapshot.Store
import RuleScope.Sources.Tree
import RuleScope.Sources.Watch
import RuleScope.Settings.Basic

namespace RuleScope

/-- The outcome of a rebuild. -/
structure Announcement where
  version : Nat
  /-- Whether there is a model. -/
  present : Bool
  deriving DecidableEq, Repr

/-- A project at work: the model of its last compile, its sources, and the memory of all choices
made. -/
structure Session where
  sourceRoot : String
  locationFile : String
  wrapperFile : Option String
  model : Option RuleModel
  version : Nat
  sources : SourceTree
  store : SnapshotStore
  memory : Snapshot
  /-- In order of time. -/
  announcements : List Announcement
  deriving Repr

/-- Why a location file gives no model. -/
inductive LoadFault where
  | disk (cause : DiskFault)
  | malformed (path : String) (cause : Location.TextFault)
  | build (cause : RuleTree.BuildFault)
  deriving DecidableEq, Repr

def LoadFault.message : LoadFault → String
  | disk cause => "i/o error: " ++ cause.message
  | malformed path cause =>
    "malformed location file " ++ path ++ ": " ++ cause.message?.getD "not a YAML document"
  | build cause => cause.message

/-- What failed, then why. -/
def LoadFault.chain (locationFile : String) (e : LoadFault) : List String :=
  ("Failed to load " ++ locationFile) :: e.message :: match e with
    | disk cause => [cause.message]
    | _ => []

namespace RuleModel

/-- The model of a location file; none without the file. -/
def load (d : Disk) (locationFile sourceRoot : String) : Except LoadFault (Option RuleModel) :=
  if !d.has locationFile then .ok none
  else
    match d.readText locationFile with
    | .error cause => .error (.disk cause)
    | .ok text =>
      match Location.ofText text with
      | .error cause => .error (.malformed locationFile cause)
      | .ok l =>
        match RuleModel.build d.place sourceRoot l with
        | .error cause => .error (.build cause)
        | .ok m => .ok (some m)

end RuleModel

namespace Session

/-- The memory with the choices of the model. -/
def remembered (s : Session) : Snapshot :=
  match s.model with
  | some m => s.memory.retrieve m
  | none => s.memory

/-- Takes the choices of the model into the memory. -/
def remember (s : Session) : Session := { s with memory := s.remembered }

/-- Puts a new model in place, with what is remembered of it. -/
def adopt (s : Session) (d : Disk) (m : RuleModel) : Session :=
  let (memory, model) := match s.memory.restore? m with
    | some (memory, u) => (memory, u.model)
    | none => (s.memory.retrieve m, m)
  { s with
    memory
    model := some model
    sources := (s.sources.link d m.tree s.wrapperFile).compiled (d.modified? s.locationFile) }

/-- Leaves the session without a model. -/
def abandon (s : Session) : Session := { s with model := none, sources := s.sources.unlink }

/-- Numbers and announces a rebuild. -/
def announce (s : Session) : Session :=
  { s with
    version := s.version + 1
    announcements := s.announcements ++ [⟨s.version + 1, s.model.isSome⟩] }

/-- Reads the location file and puts a new model in place of the old one, or none when the file is
missing. A location file that cannot be loaded leaves everything but the memory as it was. -/
def rebuild (s : Session) (d : Disk) : Session × Option LoadFault :=
  let s := s.remember
  match RuleModel.load d s.locationFile s.sourceRoot with
  | .error e => (s, some e)
  | .ok (some m) => ((s.adopt d m).announce, none)
  | .ok none => (s.abandon.announce, none)

/-- A session before its first rebuild. -/
def start (d : Disk) (settings : Settings) : Session :=
  let store : SnapshotStore := ⟨settings.snapshotDir⟩
  { sourceRoot := settings.sourceRoot
    locationFile := settings.locationPath
    wrapperFile := settings.wrapperFile
    model := none
    version := 0
    sources := .scan d settings.sourceRoot settings.locationPath
    store
    memory := (store.loadSession? d settings.sourceRoot).getD .empty
    announcements := [] }

/-- Opens a session; one whose location file cannot be loaded starts without a model. -/
def ofSettings (d : Disk) (settings : Settings) : Session := ((start d settings).rebuild d).1

/-- What one change on disk does to the sources. -/
def follow (d : Disk) (t : SourceTree) : SourceChange → SourceTree
  | .changed path => t.changed d path
  | .removed path => t.remove d path
  | .locationWritten => t

/-- Takes a batch of changes in and tells whether the model was rebuilt. -/
def applyBatch (s : Session) (d : Disk) (b : SourceBatch) : Session × Except LoadFault Bool :=
  let s := { s with sources := b.changes.foldl (follow d) s.sources }
  if b.touchesLocation then
    match s.rebuild d with
    | (s, none) => (s, .ok true)
    | (s, some e) => (s, .error e)
  else (s, .ok false)

/-- Saves the memory for the next session and gives the path of the file. -/
def save (s : Session) (d : Disk) : Session × Disk × Except StoreFault String :=
  let s := s.remember
  let (d, saved) := s.store.saveSession d s.sourceRoot s.memory
  (s, d, saved)

/-- Saves the memory under a name and gives the path of the file. -/
def saveSnapshot (s : Session) (d : Disk) (name : String) :
    Session × Disk × Except StoreFault String :=
  let s := s.remember
  let (d, saved) := s.store.save d name s.memory
  (s, d, saved)

/-- Restores a snapshot on the model and tells whether it belongs to the model. -/
def applySnapshot (s : Session) (d : Disk) (name : String) : Session × Except StoreFault Bool :=
  match s.store.load d name with
  | .error e => (s, .error e)
  | .ok snapshot =>
    match s.model.bind snapshot.restore? with
    | none => (s, .ok false)
    | some (snapshot, u) =>
      ({ s with model := some u.model, memory := s.memory.merge snapshot }, .ok true)

/-- What is shown of a session. -/
def summary (s : Session) : String :=
  "Session \x7b location_file: " ++ Text.quotedPath s.locationFile ++ ", version: "
    ++ Text.natText s.version ++ ", has_model: " ++ (if s.model.isSome then "true" else "false")
    ++ " \x7d"

end Session

end RuleScope
