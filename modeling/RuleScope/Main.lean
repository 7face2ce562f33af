import RuleScope.Command.Program

namespace RuleScope.Machine

/-- The variables that the program knows. -/
def variableNames : List String :=
  ["HOME", "XDG_DATA_HOME", "RDB_PROJECT", "RDB_SOURCE_ROOT", "RDB_LOCATION_FILE",
    "RDB_WRAPPER_FILE", "RDB_RUNTIME_ADDRESS", "RDB_SNAPSHOT_DIR", "RDB_CONNECT_TIMEOUT_MS",
    "RDB_BATCH_WINDOW_MS", "RDB_WATCH_DEBOUNCE_MS"]

def environment : IO Environment := do
  let mut vars := []
  for name in variableNames do
    if let some value ← IO.getEnv name then vars := vars ++ [(name, value)]
  return ⟨vars⟩

def nanoseconds (t : IO.FS.SystemTime) : Int := t.sec * Disk.second + t.nsec.toNat

/-- The time, as that of a file written now. -/
def now : IO Int := do
  let (_, path) ← IO.FS.createTempFile
  let time := (← path.metadata).modified
  IO.FS.removeFile path
  return nanoseconds time

/-- The place of a path on this machine. -/
def realPlace (path : String) : IO AbsPath := do
  return .lexical .root (← IO.FS.realPath path).toString

def textOf (bytes : ByteArray) : FileText :=
  match String.fromUTF8? bytes with
  | some text => text
  | none =>
    let (lines, _) := Wire.pieces [] bytes.toList
    let texts := (lines.map Wire.textOfBytes?).takeWhile Option.isSome
    ⟨String.join (texts.map (·.getD "" ++ "\n")), false⟩

/-- What a file holds, if it can matter. -/
def readFile (p : AbsPath) : IO FileText := do
  if p.isRuleSource then return ""
  try return textOf (← IO.FS.readBinFile p.text) catch _ => return ""

/-- Reads what lies at a place, and on demand all below it. -/
partial def readPlace (deep : Bool) (d : Disk) (p : AbsPath) : IO Disk := do
  let path := (← IO.currentDir) / p.text
  try
    let found ← path.symlinkMetadata
    match found.type with
    | .dir =>
      let mut d := d.put p .directory
      if deep then
        for e in ← path.readDir do
          d ← readPlace true d (p.child e.fileName)
      return d
    | .file => return d.put p (.file (← readFile p) (nanoseconds found.modified))
    | .symlink =>
      let target ← realPlace p.text
      readPlace deep (d.put p (.link target.text)) target
    | .other => return d
  catch _ => return d

/-- Reads all that a path leads through, and on demand all below its end. -/
def readPath (deep : Bool) (d : Disk) (path : String) : IO Disk := do
  let parts := Path.parts (Path.join d.workDir.text path)
  let mut d := d
  for k in List.range parts.length do
    let above := Path.ofParts (parts.take k)
    match parts[k]? with
    | some (.name name) =>
      try
        let p := (← realPlace (if above = "" then "/" else above)).child name
        d ← readPlace (deep && k + 1 == parts.length) d p
      catch _ => pure ()
    | _ => pure ()
  return d

/-- What the settings of a project depend on. -/
def readProject (d : Disk) (project : String) : IO Disk := do
  let mut d := d
  for dir in d.workDir.upwards do
    d ← readPath false d (dir.child ".env").text
  readPath false d (Path.join project Settings.fileName)

/-- What a command in a project depends on. -/
def readSources (d : Disk) (s : Settings) : IO Disk := do
  let mut d := d
  for path in [s.sourceRoot, s.snapshotDir] do
    d ← readPath true d path
  for path in s.locationPath :: s.wrapperFile.toList do
    d ← readPath false d path
  return d

/-- Writes what differs from what was read. -/
def writeBack (old new : Disk) : IO Unit := do
  for (p, e) in new.entries do
    if old.entry? p ≠ some e then
      match e with
      | .directory => IO.FS.createDirAll p.text
      | .file content _ => IO.FS.writeFile p.text content.text
      | .link _ => pure ()

def printShown : Shown → IO Unit
  | .line text => IO.println text
  | .fault text => IO.eprintln text

/-- Whether a watcher looks at a place. -/
def isWatched (w : SourceWatcher) (p : AbsPath) : Bool :=
  p.isWithin w.root || p.parent? == w.location.parent?

/-- The events that lead from one state of the disk to another. -/
def eventsBetween (w : SourceWatcher) (old new : Disk) : List RawEvent :=
  let written := new.entries.filter fun e => isWatched w e.1 && old.entry? e.1 ≠ some e.2
  let removed := old.entries.filter fun e => isWatched w e.1 && (new.entry? e.1).isNone
  written.map (fun e => ⟨.data, [e.1.text]⟩) ++ removed.map fun e => ⟨.remove, [e.1.text]⟩

/-- Looks at the disk time and again until the standard input has something. There is no runtime to
connect to. -/
partial def watch (input : Task (Except IO.Error String)) (d : Disk) (w : Watching) :
    IO (Disk × Watching) := do
  let run := w.settle d
  run.shown.forM printShown
  if ← IO.hasFinished input then return (d, run.watching)
  IO.sleep (max 50 w.settings.watchQuiet).toUInt32
  let next ← readSources { d with entries := [] } w.settings
  watch input next (run.watching.burst next (eventsBetween w.watcher d next))

/-- Ends the program. -/
def finish (e : Command.Exit) : IO UInt32 := do
  e.lines.forM IO.println
  if let some fault := e.fault then IO.eprintln fault.report
  if e.code = 2 then Command.helpLines.forM IO.eprintln
  return e.code.toUInt32

/-- What may matter of the disk is read first, the command runs on that, and what it changed is
written back. -/
def run (words : List String) : IO UInt32 := do
  let e ← environment
  let mut d : Disk := ⟨[], ← realPlace ".", ← now⟩
  if let .ok r := Command.readLine (e.get? "RDB_PROJECT") words then
    d ← readProject d r.project
    if let .ok place := d.find r.project then
      if let .ok s := Settings.load d e place.text then
        d ← readSources d s
  match Command.program d e words with
  | (new, .ended exit) =>
    writeBack d new
    finish exit
  | (_, .watching shown w) =>
    shown.forM printShown
    let input ← IO.asTask (do (← IO.getStdin).getLine)
    let (last, w) ← watch input d w
    match w.stop last with
    | (new, .ok shown) =>
      writeBack last new
      shown.forM printShown
      return 0
    | (_, .error e) => finish ⟨1, [], some (.store e)⟩

end RuleScope.Machine

def main (words : List String) : IO UInt32 := RuleScope.Machine.run words
