namespace RuleScope

/-- What a file is to the last compile. -/
inductive FileUsage where
  /-- The root import of the compile. -/
  | main
  /-- The source of the wrapper class. -/
  | wrapper
  /-- An import of the compile. -/
  | used
  /-- A rule source that the compile did not reach. -/
  | notUsed
  | isFolder
  deriving DecidableEq, Repr

namespace FileUsage

def all : List FileUsage := [main, wrapper, used, notUsed, isFolder]

/-- The name in files. -/
def key : FileUsage → String
  | main => "Main"
  | wrapper => "Wrapper"
  | used => "Used"
  | notUsed => "NotUsed"
  | isFolder => "IsFolder"

def symbol : FileUsage → String
  | main => "M"
  | wrapper => "W"
  | used => "U"
  | notUsed => "?"
  | isFolder => "/"

def ofKey? (text : String) : Option FileUsage := all.find? (·.key == text)

end FileUsage

/-- Whether the last compile is up to date. -/
inductive SyncStatus where
  /-- Nothing has been compiled yet. -/
  | unknown
  | synced
  | outOfSync
  deriving DecidableEq, Repr

namespace SyncStatus

def all : List SyncStatus := [unknown, synced, outOfSync]

/-- The name in files. -/
def key : SyncStatus → String
  | unknown => "Unknown"
  | synced => "Synced"
  | outOfSync => "OutOfSync"

/-- What is shown to people. -/
def display : SyncStatus → String
  | unknown => "unknown"
  | synced => "in sync"
  | outOfSync => "out of sync (recompile needed)"

def ofKey? (text : String) : Option SyncStatus := all.find? (·.key == text)

end SyncStatus

end RuleScope
