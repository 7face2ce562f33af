import RuleScope.Json.Reader
import RuleScope.Json.Value
import RuleScope.Snapshot.Basic

namespace RuleScope.Snapshot

namespace Entry

mutual
def toJson : Entry → Json
  | ⟨expanded, state, isImport, children⟩ =>
    .object
      ([("expanded", .boolean expanded), ("state", .string state.key),
        ("is_import", .boolean isImport)] ++
        match children with
        | [] => []
        | c :: rest => [("children", .object (toFields (c :: rest)))])

def toFields : List (String × Entry) → List (String × Json)
  | [] => []
  | (label, e) :: rest => (label, e.toJson) :: toFields rest
end

end Entry

def toJson (s : Snapshot) : Json :=
  .object [("version", .integer s.version),
    ("root_label", (s.rootLabel.map Json.string).getD .null),
    ("root", (s.root.map Entry.toJson).getD .null)]

open Json.Reader

def stateNames : List String := LoggingState.all.map LoggingState.key

def stateReader : Json.Reader LoggingState := variant stateNames LoggingState.ofKey?

/-- The fields of an entry read so far. -/
structure EntryFields where
  expanded : Option Bool
  state : Option LoggingState
  isImport : Option Bool
  children : Option (List (String × Entry))

def EntryFields.toEntry (f : EntryFields) (state : LoggingState) : Entry :=
  ⟨f.expanded.getD false, state, f.isImport.getD false, f.children.getD []⟩

def childrenReader (entry : Json.Reader Entry) : Json.Reader (List (String × Entry)) :=
  map (fields
    (fun seen label => do
      colon
      let e ← entry
      pure (insert label e seen))
    [])

def entryField (entry : Json.Reader Entry) (f : EntryFields) (key : String) :
    Json.Reader EntryFields := do
  if key = "expanded" then return { f with expanded := ← once key f.expanded boolean }
  else if key = "state" then return { f with state := ← once key f.state stateReader }
  else if key = "is_import" then return { f with isImport := ← once key f.isImport boolean }
  else if key = "children" then
    return { f with children := ← once key f.children (childrenReader entry) }
  else
    skipField
    return f

/-- Reads an entry. Each level of recursion enters a container, so the depth limit bounds the
levels. -/
def entryReader : Nat → Json.Reader Entry
  | 0 => failAhead .recursionLimit
  | levels + 1 =>
    record "struct SnapshotEntry"
      (do
        let f ← fields (entryField (entryReader levels)) ⟨none, none, none, none⟩
        match f.state with
        | some state => pure (f.toEntry state)
        | none => failData (.missingField "state"))
      (do
        let expanded ← field? true boolean
        match ← field? false stateReader with
        | none =>
          failData (.wrongLength 1 "struct SnapshotEntry with 4 elements")
        | some state =>
          let isImport ← field? false boolean
          let children ← field? false (childrenReader (entryReader levels))
          pure (EntryFields.toEntry ⟨expanded, some state, isImport, children⟩ state))

/-- The fields of a snapshot read so far. -/
structure Fields where
  version : Option Nat
  rootLabel : Option (Option String)
  root : Option (Option Entry)

def Fields.toSnapshot (f : Fields) : Snapshot :=
  ⟨f.version.getD 0, f.rootLabel.getD none, f.root.getD none⟩

def versionReader : Json.Reader Nat := natural Text.maxNat32 "u32"

def rootReader : Json.Reader Entry := entryReader Json.depthLimit

def field (f : Fields) (key : String) : Json.Reader Fields := do
  if key = "version" then return { f with version := ← once key f.version versionReader }
  else if key = "root_label" then
    return { f with rootLabel := ← once key f.rootLabel (optional string) }
  else if key = "root" then return { f with root := ← once key f.root (optional rootReader) }
  else
    skipField
    return f

def reader : Json.Reader Snapshot :=
  record "struct RuleModelState"
    (Fields.toSnapshot <$> fields field ⟨none, none, none⟩)
    (do
      let version ← field? true versionReader
      let rootLabel ← field? false (optional string)
      let root ← field? false (optional rootReader)
      pure (Fields.toSnapshot ⟨version, rootLabel, root⟩))

def ofText (text : String) : Except Json.ReadError Snapshot := run reader text

/-- The text that is written to disk. -/
def toText (s : Snapshot) : String := s.toJson.pretty

end RuleScope.Snapshot
