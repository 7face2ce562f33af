import RuleScope.Disk.Change
import RuleScope.Snapshot.Format
import RuleScope.Snapshot.Name

namespace RuleScope

/-- A directory in which snapshots are kept, one file a name. -/
structure SnapshotStore where
  dir : String
  deriving DecidableEq, Repr

inductive StoreFault where
  | notFound (path : String)
  | corrupt (path : String) (cause : Json.ReadError)
  | invalidName (name : String)
  | disk (cause : DiskFault)
  deriving DecidableEq, Repr

namespace StoreFault

def message : StoreFault → String
  | notFound path => "could not load snapshot " ++ path ++ ": file not found"
  | corrupt path cause => "could not load snapshot " ++ path ++ ": " ++ cause.message
  | invalidName name => "invalid snapshot name " ++ Text.quoted name
  | disk cause => "i/o error: " ++ cause.message

/-- The message, then its cause. -/
def chain (e : StoreFault) : List String :=
  e.message :: match e with
    | corrupt _ cause => [cause.message]
    | disk cause => [cause.message]
    | _ => []

end StoreFault

/-- A snapshot file of a store. -/
structure StoredSnapshot where
  name : String
  path : String
  modified : Int
  deriving DecidableEq, Repr

namespace StoredSnapshot

/-- Later changes come first, then names in their order. -/
def le (a b : StoredSnapshot) : Bool :=
  b.modified < a.modified || (a.modified = b.modified && a.name ≤ b.name)

end StoredSnapshot

namespace SnapshotStore

/-- No more snapshots than this are listed. -/
def maxListed : Nat := 10

def pathOf (s : SnapshotStore) (name : String) : Except StoreFault String :=
  match Snapshot.path? s.dir name with
  | some path => .ok path
  | none => .error (.invalidName name)

/-- Writes a file in a directory that is made if need be. -/
def writeFile (d : Disk) (path text : String) : Disk × Option DiskFault :=
  let (d, fault) := match Path.parent? path with
    | some dir => d.makeDirectories dir
    | none => (d, none)
  match fault with
  | some e => (d, some e)
  | none =>
    match d.write path text with
    | .ok d => (d, none)
    | .error e => (d, some e)

/-- Saves a snapshot under a name and gives its path. -/
def save (s : SnapshotStore) (d : Disk) (name : String) (snapshot : Snapshot) :
    Disk × Except StoreFault String :=
  match s.pathOf name with
  | .error e => (d, .error e)
  | .ok path =>
    match writeFile d path snapshot.toText with
    | (d, none) => (d, .ok path)
    | (d, some e) => (d, .error (.disk e))

/-- Reads the snapshot file at a path. -/
def read (d : Disk) (path : String) : Except StoreFault Snapshot :=
  if !d.has path then .error (.notFound path)
  else
    match d.readText path with
    | .error e => .error (.disk e)
    | .ok text => (Snapshot.ofText text).mapError (.corrupt path)

def load (s : SnapshotStore) (d : Disk) (name : String) : Except StoreFault Snapshot :=
  s.pathOf name >>= read d

def saveSession (s : SnapshotStore) (d : Disk) (sourceRoot : String) (snapshot : Snapshot) :
    Disk × Except StoreFault String :=
  s.save d (Snapshot.sessionName sourceRoot) snapshot

def loadSession? (s : SnapshotStore) (d : Disk) (sourceRoot : String) : Option Snapshot :=
  (s.load d (Snapshot.sessionName sourceRoot)).toOption

/-- The snapshot that an entry of the directory is, if it is one. -/
def stored? (s : SnapshotStore) (e : AbsPath × DiskEntry) : Option StoredSnapshot :=
  match e.2, e.1.fileName? with
  | .file _ modified, some file =>
    match Path.splitExtension file with
    | (name, some ext) =>
      if ext = Snapshot.fileExtension then some ⟨name, Path.join s.dir file, modified⟩ else none
    | _ => none
  | _, _ => none

/-- The snapshots changed last, the latest first. -/
def recent (s : SnapshotStore) (d : Disk) : Except StoreFault (List StoredSnapshot) :=
  if !d.has s.dir then .ok []
  else
    match d.list s.dir with
    | .error e => .error (.disk e)
    | .ok entries => .ok (((entries.filterMap s.stored?).mergeSort StoredSnapshot.le).take maxListed)

end SnapshotStore

end RuleScope
