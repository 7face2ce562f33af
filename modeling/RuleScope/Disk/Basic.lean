import RuleScope.Path.Absolute
import RuleScope.Table

namespace RuleScope

/-- What a file holds: its text, or the lines before the first that is none of a text. -/
structure FileText where
  text : String
  /-- Whether all of it is a text. -/
  whole : Bool
  deriving DecidableEq, Repr

instance : Coe String FileText := ⟨(⟨·, true⟩)⟩

inductive DiskEntry where
  | directory
  | file (text : FileText) (modified : Int)
  | link (target : String)
  deriving DecidableEq, Repr

/-- Times are in nanoseconds. -/
structure Disk where
  entries : List (AbsPath × DiskEntry)
  workDir : AbsPath
  now : Int
  deriving Repr

/-- The nanoseconds of a second. -/
def Disk.second : Int := 1000000000

inductive DiskFault where
  | notFound
  | taken
  | notDirectory
  | isDirectory
  | nameTooLong
  | tooManyLinks
  | nullInName
  | notText
  deriving DecidableEq, Repr

def DiskFault.message : DiskFault → String
  | notFound => "No such file or directory (os error 2)"
  | taken => "File exists (os error 17)"
  | notDirectory => "Not a directory (os error 20)"
  | isDirectory => "Is a directory (os error 21)"
  | nameTooLong => "File name too long (os error 36)"
  | tooManyLinks => "Too many levels of symbolic links (os error 40)"
  | nullInName => "file name contained an unexpected NUL byte"
  | notText => "stream did not contain valid UTF-8"

namespace Disk

/-- What lies at a place; the root is always a directory. -/
def entry? (d : Disk) (p : AbsPath) : Option DiskEntry :=
  if p = .root then some .directory else Table.get? p d.entries

def isDirectoryAt (d : Disk) (p : AbsPath) : Bool := d.entry? p == some .directory

/-- Where a path ends; a free name may be written as that of a directory, with a slash behind it. -/
inductive Place where
  | found (p : AbsPath)
  | free (p : AbsPath) (slashed : Bool)
  deriving DecidableEq, Repr

/-- No more links than this are followed on one path. -/
def maxLinks : Nat := 40

/-- No name has more bytes than this. -/
def maxNameBytes : Nat := 255

/-- No path has as many bytes as this. -/
def pathBytes : Nat := 4096

def startOf (here : AbsPath) (path : String) : AbsPath :=
  if Path.isAbsolute path then .root else here

/-- How far a path can be followed without following a link. -/
inductive Leg where
  | ended (place : Place)
  /-- A link is met; going on means following these pieces from here. -/
  | link (here : AbsPath) (pieces : List String)
  deriving DecidableEq, Repr

/-- Follows the pieces of a path from `here` up to the first link. A link at the very end counts
only on demand. -/
def leg (d : Disk) (last : Bool) (here : AbsPath) : List String → Except DiskFault Leg
  | [] => .ok (.ended (.found here))
  | piece :: rest =>
    if !d.isDirectoryAt here then .error .notDirectory
    else if piece = "" ∨ piece = "." then leg d last here rest
    else if piece = ".." then leg d last (here.step .up) rest
    else if piece.utf8ByteSize > maxNameBytes then .error .nameTooLong
    else
      match d.entry? (here.child piece) with
      | none =>
        if rest.all (· = "") then .ok (.ended (.free (here.child piece) !rest.isEmpty))
        else .error .notFound
      | some (.link target) =>
        if rest.isEmpty && !last then .ok (.ended (.found (here.child piece)))
        else .ok (.link (startOf here target) (Path.pieces target ++ rest))
      | some _ => leg d last (here.child piece) rest

/-- Follows the pieces of a path from `here` with so many links left. -/
def follow (d : Disk) (last : Bool) (links : Nat) (here : AbsPath) (pieces : List String) :
    Except DiskFault Place :=
  match d.leg last here pieces, links with
  | .error e, _ => .error e
  | .ok (.ended place), _ => .ok place
  | .ok (.link _ _), 0 => .error .tooManyLinks
  | .ok (.link here pieces), links + 1 => follow d last links here pieces

/-- Follows a written path. -/
def seek (d : Disk) (last : Bool) (path : String) : Except DiskFault Place :=
  if path.toList.contains '\x00' then .error .nullInName
  else if path = "" then .error .notFound
  else if path.utf8ByteSize ≥ pathBytes then .error .nameTooLong
  else d.follow last maxLinks (startOf d.workDir path) (Path.pieces path)

/-- The place at which a path ends, if anything lies there. -/
def find (d : Disk) (path : String) : Except DiskFault AbsPath := do
  match ← d.seek true path with
  | .found p => pure p
  | .free _ _ => .error .notFound

def find? (d : Disk) (path : String) : Option AbsPath := (d.find path).toOption

def has (d : Disk) (path : String) : Bool := (d.find? path).isSome

def isDirectory (d : Disk) (path : String) : Bool := (d.find? path).any d.isDirectoryAt

/-- The place that a path stands for. -/
def place (d : Disk) (path : String) : AbsPath := (d.find? path).getD (.lexical d.workDir path)

/-- The place of a path whose last name need not exist. -/
def placeOfFile (d : Disk) (path : String) : AbsPath :=
  match Path.parent? path, Path.fileName? path with
  | some dir, some name => (d.place dir).child name
  | _, _ => d.place path

/-- When a place was last changed. Directories are always in change. -/
def modifiedAt? (d : Disk) (p : AbsPath) : Option Int :=
  (d.entry? p).map fun
    | .file _ time => time
    | _ => d.now

def modified? (d : Disk) (path : String) : Option Int := (d.find? path).bind d.modifiedAt?

/-- What the file at a path holds. -/
def read (d : Disk) (path : String) : Except DiskFault FileText := do
  match d.entry? (← d.find path) with
  | some (.file text _) => pure text
  | some _ => .error .isDirectory
  | none => .error .notFound

def readText (d : Disk) (path : String) : Except DiskFault String := do
  let c ← d.read path
  if c.whole then pure c.text else .error .notText

/-- The text of the file at a path, as far as it can be read line by line. -/
def readLines (d : Disk) (path : String) : Except DiskFault String :=
  (d.read path).map FileText.text

/-- What lies below a place, links not followed. -/
def descendants (d : Disk) (p : AbsPath) : List (AbsPath × DiskEntry) :=
  d.entries.filter fun e => e.1.isWithin p && e.1 ≠ p

/-- What a walk from a path meets: what lies there and all below it, links not followed. A walk from
a link starts below the place to which the link leads. -/
def walk (d : Disk) (path : String) : List (AbsPath × DiskEntry) :=
  match d.seek false path with
  | .ok (.found p) =>
    match d.entry? p with
    | some (.link _) => ((d.find? path).map d.descendants).getD []
    | some e => (p, e) :: d.descendants p
    | none => []
  | _ => []

/-- What a directory holds. -/
def children (d : Disk) (p : AbsPath) : List (AbsPath × DiskEntry) :=
  d.entries.filter fun f => f.1.parent? == some p

/-- What the directory at a path holds. -/
def list (d : Disk) (path : String) : Except DiskFault (List (AbsPath × DiskEntry)) := do
  let p ← d.find path
  if d.isDirectoryAt p then pure (d.children p) else .error .notDirectory

end Disk

end RuleScope
