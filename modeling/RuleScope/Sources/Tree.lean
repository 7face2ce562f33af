import RuleScope.Disk.Basic
import RuleScope.RuleTree.Lookup
import RuleScope.Sources.Status

namespace RuleScope

structure SourceNode where
  path : AbsPath
  usage : FileUsage
  modified : Bool
  /-- The import that was compiled from this file. -/
  linked : Option Nat
  parent : Option AbsPath
  /-- In the order of their paths. -/
  children : List AbsPath
  deriving DecidableEq, Repr

namespace SourceNode

def fresh (path : AbsPath) (usage : FileUsage) (parent : Option AbsPath) : SourceNode :=
  ⟨path, usage, false, none, parent, []⟩

def isFolder (n : SourceNode) : Bool := n.usage = .isFolder

/-- A path among others in their order, once. -/
def insertChild (p : AbsPath) : List AbsPath → List AbsPath
  | [] => [p]
  | q :: rest => if p = q then q :: rest else if p.le q then p :: q :: rest else q :: insertChild p rest

def withChild (p : AbsPath) (n : SourceNode) : SourceNode :=
  { n with children := insertChild p n.children }

def withoutChild (p : AbsPath) (n : SourceNode) : SourceNode :=
  { n with children := n.children.filter (· ≠ p) }

end SourceNode

/-- The rule sources below a root, each at its place on disk, and every folder on the way to them. A
file is modified when it is newer than the location file of the last compile, or was touched since
it was first met; one modified file puts the sources out of sync until the next compile. -/
structure SourceTree where
  root : AbsPath
  locationFile : AbsPath
  /-- When the location file was written that the files are compared with. -/
  locationTime : Option Int
  nodes : List (AbsPath × SourceNode)
  status : SyncStatus
  deriving Repr

namespace SourceTree

/-- A tree of the root alone. -/
def new (d : Disk) (root locationFile : String) : SourceTree :=
  let top := d.place root
  let location := d.place locationFile
  let time := d.modified? location.text
  ⟨top, location, time, [(top, .fresh top .isFolder none)],
    if time.isSome then .synced else .unknown⟩

def node? (t : SourceTree) (p : AbsPath) : Option SourceNode := Table.get? p t.nodes

def get? (t : SourceTree) (d : Disk) (path : String) : Option SourceNode := t.node? (d.place path)

def size (t : SourceTree) : Nat := t.nodes.length

def isEmpty (t : SourceTree) : Bool := t.size ≤ 1

/-- The nodes in the order of their paths. -/
def sorted (t : SourceTree) : List SourceNode :=
  (t.nodes.mergeSort fun a b => a.1.le b.1).map Prod.snd

/-- The nodes inside a folder. -/
def children (t : SourceTree) (d : Disk) (path : String) : List SourceNode :=
  match t.get? d path with
  | some n => n.children.filterMap t.node?
  | none => []

def modifiedFiles (t : SourceTree) : List AbsPath :=
  ((t.nodes.filter fun e => e.2.modified).map fun e => e.2.path).mergeSort AbsPath.le

def isLocationFile (t : SourceTree) (d : Disk) (path : String) : Bool :=
  d.place path = t.locationFile

/-- Changes one node, if there is one. -/
def modify (t : SourceTree) (p : AbsPath) (f : SourceNode → SourceNode) : SourceTree :=
  { t with nodes := t.nodes.map fun e => if e.1 = p then (p, f e.2) else e }

/-- Enters a node below its parent. -/
def insert (t : SourceTree) (parent : AbsPath) (n : SourceNode) : SourceTree :=
  { t with nodes := Table.put n.path n t.nodes }.modify parent (.withChild n.path)

/-- Enters a folder below `top` with the names on the way to it. -/
def ensureNames (t : SourceTree) (top : AbsPath) : List String → SourceTree
  | [] => t
  | name :: rest =>
    let p := top.child name
    let t := match t.node? p with
      | some _ => t
      | none => t.insert top (.fresh p .isFolder (some top))
    t.ensureNames p rest

/-- Enters a folder and those above it, up to the root. -/
def ensureFolder (t : SourceTree) (p : AbsPath) : SourceTree :=
  if p.isWithin t.root then t.ensureNames t.root (p.names.drop t.root.names.length) else t

/-- A file that is met for the first time counts as modified when it is newer than the location
file, or when there is none. -/
def isNewer (fileTime locationTime : Option Int) : Bool :=
  match fileTime, locationTime with
  | some file, some location => file > location
  | _, none => true
  | none, some _ => false

/-- A modified file puts the sources out of sync. -/
def flag (t : SourceTree) (modified : Bool) : SourceTree :=
  if modified then { t with status := .outOfSync } else t

/-- Takes note of a rule source that appeared or changed. -/
def touchFile (t : SourceTree) (d : Disk) (p : AbsPath) : SourceTree :=
  if !p.isRuleSource || !p.isWithin t.root then t
  else
    match t.node? p with
    | some _ => (t.modify p fun n => { n with modified := true }).flag true
    | none =>
      let modified := isNewer (d.modified? p.text) t.locationTime
      let t := match p.parent? with
        | some dir =>
          (t.ensureFolder dir).insert dir { SourceNode.fresh p .notUsed (some dir) with modified }
        | none => t
      t.flag modified

/-- Enters what was met on a walk: folders, and rule sources that are not known yet. -/
def meet (d : Disk) (t : SourceTree) (e : AbsPath × DiskEntry) : SourceTree :=
  match e.2 with
  | .directory => t.ensureFolder e.1
  | .file _ _ => if e.1.isRuleSource && (t.node? e.1).isNone then t.touchFile d e.1 else t
  | .link _ => t

/-- Enters everything at and below a place inside the root. -/
def addPlace (t : SourceTree) (d : Disk) (p : AbsPath) : SourceTree :=
  if p.isWithin t.root then (d.walk p.text).foldl (meet d) t else t

def addDirectory (t : SourceTree) (d : Disk) (path : String) : SourceTree :=
  t.addPlace d (d.place path)

/-- Takes note of a path that appeared or changed. The place of a path that leads nowhere may be, or
pass, a link that leads to a directory; it is that directory which is entered then. -/
def changed (t : SourceTree) (d : Disk) (path : String) : SourceTree :=
  let p := d.place path
  if d.isDirectory p.text then t.addDirectory d p.text else t.touchFile d p

/-- A tree of all that lies below the root. -/
def scan (d : Disk) (root locationFile : String) : SourceTree :=
  let t := new d root locationFile
  t.addDirectory d t.root.text

/-- Whether a path is known and can be removed. -/
def canRemove (t : SourceTree) (d : Disk) (path : String) : Bool :=
  d.place path ≠ t.root && (t.node? (d.place path)).isSome

/-- Forgets a path and all below it. Paths that are not known and the root are left alone. -/
def remove (t : SourceTree) (d : Disk) (path : String) : SourceTree :=
  let p := d.place path
  if t.canRemove d path then
    let t := { t with nodes := t.nodes.filter fun e => !e.1.isWithin p }
    match p.parent? with
    | some dir => t.modify dir (.withoutChild p)
    | none => t
  else t

/-- The compile has caught up with every file. -/
def markUpToDate (t : SourceTree) : SourceTree :=
  { t with
    nodes := t.nodes.map fun e => (e.1, { e.2 with modified := false })
    status := .synced }

/-- A location file was written. -/
def compiled (t : SourceTree) (time : Option Int) : SourceTree :=
  { t with locationTime := time }.markUpToDate

/-- What a file is to a model. -/
def usageOf (main wrapper : Option AbsPath) (p : AbsPath) (linked : Option Nat) : FileUsage :=
  if main = some p then .main
  else if wrapper = some p then .wrapper
  else if linked.isSome then .used
  else .notUsed

/-- Links every file to its import in a rule tree. -/
def link (t : SourceTree) (d : Disk) (rules : RuleTree) (wrapper : Option String) : SourceTree :=
  let main := (rules.node? RuleTree.root).bind Node.path?
  let wrapper := wrapper.map d.place
  { t with nodes := t.nodes.map fun e =>
      if e.2.isFolder then e
      else
        let linked := rules.importAt? (d.place e.2.path.text)
        (e.1, { e.2 with linked, usage := usageOf main wrapper e.2.path linked }) }

/-- Forgets the imports of all files. -/
def unlink (t : SourceTree) : SourceTree :=
  { t with nodes := t.nodes.map fun e =>
      if e.2.isFolder then e else (e.1, { e.2 with linked := none, usage := .notUsed }) }

end SourceTree

end RuleScope
