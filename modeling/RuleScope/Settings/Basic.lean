import RuleScope.Disk.Change
import RuleScope.Json.Reader
import RuleScope.Json.Value
import RuleScope.Settings.Environment

namespace RuleScope

/-- Times are in milliseconds. -/
structure Settings where
  sourceRoot : String
  locationFile : Option String
  wrapperFile : Option String
  runtimeAddress : String
  connectTimeout : Nat
  snapshotDir : String
  batchWindow : Nat
  watchQuiet : Nat
  deriving DecidableEq, Repr

inductive SettingsFault where
  | unsettable (name : String)
  | unreadable (path : String) (cause : DiskFault)
  | malformed (path : String) (cause : Json.ReadError)
  | notNumber (name value : String) (cause : Text.IntegerFault)
  | unwritable (path : String) (cause : DiskFault)
  deriving DecidableEq, Repr

/-- What failed, then why. -/
def SettingsFault.chain : SettingsFault → List String
  | unsettable name => ["Variable " ++ name ++ " cannot hold its value"]
  | unreadable path cause => ["Failed to read config from " ++ path, cause.message]
  | malformed path cause => ["Failed to parse " ++ path, cause.message]
  | notNumber name value cause => [name ++ " is not a number: " ++ value, cause.message]
  | unwritable path cause => ["Failed to write config to " ++ path, cause.message]

namespace Settings

def fileName : String := "rdb.json"

/-- The file of a project directory. -/
def pathIn (projectDir : String) : String := Path.join projectDir fileName

def defaultLocationName : String := "RuleLoc.yml"

/-- The directory for the data of programs. -/
def dataDir? (e : Environment) : Option String :=
  match (e.get? "HOME").filter (· ≠ "") with
  | none => none
  | some home =>
    match (e.get? "XDG_DATA_HOME").filter Path.isAbsolute with
    | some dir => some dir
    | none => some (Path.join home ".local/share")

def defaultSnapshotDir (e : Environment) : String :=
  match dataDir? e with
  | some dir => Path.join (Path.join dir "rdb") "snapshots"
  | none => "/tmp/rdb-snapshots"

def default (e : Environment) : Settings where
  sourceRoot := "src/main/rudi"
  locationFile := none
  wrapperFile := none
  runtimeAddress := "127.0.0.1:9777"
  connectTimeout := 2000
  snapshotDir := defaultSnapshotDir e
  batchWindow := 50
  watchQuiet := 200

def locationPath (s : Settings) : String :=
  s.locationFile.getD (Path.join s.sourceRoot defaultLocationName)

def toJson (s : Settings) : Json :=
  let path : Option String → Json
    | some p => .string p
    | none => .null
  .object [("rule_source_root", .string s.sourceRoot), ("location_file", path s.locationFile),
    ("wrapper_file", path s.wrapperFile), ("runtime_address", .string s.runtimeAddress),
    ("connect_timeout_ms", .integer s.connectTimeout), ("snapshot_dir", .string s.snapshotDir),
    ("batch_window_ms", .integer s.batchWindow), ("watch_debounce_ms", .integer s.watchQuiet)]

def toText (s : Settings) : String := s.toJson.pretty

/-- The fields read so far. -/
structure Fields where
  sourceRoot : Option String
  locationFile : Option (Option String)
  wrapperFile : Option (Option String)
  runtimeAddress : Option String
  connectTimeout : Option Nat
  snapshotDir : Option String
  batchWindow : Option Nat
  watchQuiet : Option Nat

/-- Fields that were not read keep their values. -/
def Fields.over (f : Fields) (s : Settings) : Settings where
  sourceRoot := f.sourceRoot.getD s.sourceRoot
  locationFile := f.locationFile.getD s.locationFile
  wrapperFile := f.wrapperFile.getD s.wrapperFile
  runtimeAddress := f.runtimeAddress.getD s.runtimeAddress
  connectTimeout := f.connectTimeout.getD s.connectTimeout
  snapshotDir := f.snapshotDir.getD s.snapshotDir
  batchWindow := f.batchWindow.getD s.batchWindow
  watchQuiet := f.watchQuiet.getD s.watchQuiet

open Json.Reader

def pathReader : Json.Reader String := stringAs "path string"

def millisReader : Json.Reader Nat := natural Text.maxNat64 "u64"

def field (f : Fields) (key : String) : Json.Reader Fields := do
  if key = "rule_source_root" then
    return { f with sourceRoot := ← once key f.sourceRoot pathReader }
  else if key = "location_file" then
    return { f with locationFile := ← once key f.locationFile (optional pathReader) }
  else if key = "wrapper_file" then
    return { f with wrapperFile := ← once key f.wrapperFile (optional pathReader) }
  else if key = "runtime_address" then
    return { f with runtimeAddress := ← once key f.runtimeAddress string }
  else if key = "connect_timeout_ms" then
    return { f with connectTimeout := ← once key f.connectTimeout millisReader }
  else if key = "snapshot_dir" then
    return { f with snapshotDir := ← once key f.snapshotDir pathReader }
  else if key = "batch_window_ms" then
    return { f with batchWindow := ← once key f.batchWindow millisReader }
  else if key = "watch_debounce_ms" then
    return { f with watchQuiet := ← once key f.watchQuiet millisReader }
  else
    skipField
    return f

def fieldsReader : Json.Reader Fields :=
  record "struct Config"
    (fields field ⟨none, none, none, none, none, none, none, none⟩)
    (do
      let sourceRoot ← field? true pathReader
      let locationFile ← field? false (optional pathReader)
      let wrapperFile ← field? false (optional pathReader)
      let runtimeAddress ← field? false string
      let connectTimeout ← field? false millisReader
      let snapshotDir ← field? false pathReader
      let batchWindow ← field? false millisReader
      let watchQuiet ← field? false millisReader
      pure ⟨sourceRoot, locationFile, wrapperFile, runtimeAddress, connectTimeout, snapshotDir,
        batchWindow, watchQuiet⟩)

/-- A number of milliseconds in a variable, blanks around it allowed. -/
def millis (e : Environment) (name : String) (before : Nat) : Except SettingsFault Nat :=
  match e.get? name with
  | none => .ok before
  | some value =>
    (Text.readNat Text.maxNat64 (Text.trim value.toList)).mapError (.notNumber name value)

/-- What the environment says goes before all else. -/
def withEnvironment (s : Settings) (e : Environment) : Except SettingsFault Settings := do
  let orPath (name : String) (before : Option String) := (e.get? name).orElse fun _ => before
  let connectTimeout ← millis e "RDB_CONNECT_TIMEOUT_MS" s.connectTimeout
  let batchWindow ← millis e "RDB_BATCH_WINDOW_MS" s.batchWindow
  let watchQuiet ← millis e "RDB_WATCH_DEBOUNCE_MS" s.watchQuiet
  pure {
    sourceRoot := (e.get? "RDB_SOURCE_ROOT").getD s.sourceRoot
    locationFile := orPath "RDB_LOCATION_FILE" s.locationFile
    wrapperFile := orPath "RDB_WRAPPER_FILE" s.wrapperFile
    runtimeAddress := (e.get? "RDB_RUNTIME_ADDRESS").getD s.runtimeAddress
    connectTimeout
    snapshotDir := (e.get? "RDB_SNAPSHOT_DIR").getD s.snapshotDir
    batchWindow
    watchQuiet }

/-- The settings as seen from a project directory. -/
def resolved (s : Settings) (projectDir : String) : Settings :=
  let sourceRoot := Path.join projectDir s.sourceRoot
  { s with
    sourceRoot
    locationFile := some (match s.locationFile with
      | some file => Path.join projectDir file
      | none => Path.join sourceRoot defaultLocationName)
    wrapperFile := s.wrapperFile.map (Path.join projectDir)
    snapshotDir := Path.join projectDir s.snapshotDir }

/-- The settings in the file of a project; those that it lacks are built in. -/
def ofFile (d : Disk) (e : Environment) (path : String) : Except SettingsFault Settings :=
  if !d.has path then .ok (default e)
  else
    match d.readText path with
    | .error cause => .error (.unreadable path cause)
    | .ok text =>
      match Json.Reader.run fieldsReader text with
      | .ok f => .ok (f.over (default e))
      | .error cause => .error (.malformed path cause)

/-- Loads the settings of a project. -/
def load (d : Disk) (e : Environment) (projectDir : String) : Except SettingsFault Settings := do
  let e ← (e.start d).mapError fun fault => .unsettable fault.name
  let s ← ofFile d e (pathIn projectDir)
  let s ← s.withEnvironment e
  pure (s.resolved projectDir)

/-- Writes the settings as the file of a project and gives its path. -/
def save (s : Settings) (d : Disk) (projectDir : String) : Except SettingsFault (Disk × String) :=
  let path := pathIn projectDir
  match d.write path s.toText with
  | .ok d => .ok (d, path)
  | .error cause => .error (.unwritable path cause)

end Settings

end RuleScope
