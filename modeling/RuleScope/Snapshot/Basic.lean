import RuleScope.LoggingState

namespace RuleScope.Snapshot

/-- What is known of one node, and the entries of its children in the order of their labels, each
label once. -/
structure Entry where
  expanded : Bool
  state : LoggingState
  isImport : Bool
  children : List (String × Entry)
  deriving Repr, Inhabited

/-- A value under a label in a list sorted by label. -/
def insert {α : Type} (label : String) (a : α) : List (String × α) → List (String × α)
  | [] => [(label, a)]
  | (l, b) :: rest =>
    if label < l then (label, a) :: (l, b) :: rest
    else if label = l then (label, a) :: rest
    else (l, b) :: insert label a rest

def find? {α : Type} (label : String) : List (String × α) → Option α
  | [] => none
  | (l, a) :: rest => if label = l then some a else find? label rest

namespace Entry

/-- An entry without children, collapsed. -/
def leaf (state : LoggingState) (isImport : Bool) : Entry := ⟨false, state, isImport, []⟩

mutual
/-- The number of entries, this one included. -/
def count : Entry → Nat
  | ⟨_, _, _, children⟩ => 1 + countAll children

def countAll : List (String × Entry) → Nat
  | [] => 0
  | (_, e) :: rest => e.count + countAll rest
end

/-- The entry at a label path below this one. -/
def at? (e : Entry) : List String → Option Entry
  | [] => some e
  | label :: rest => (find? label e.children).bind fun c => c.at? rest

end Entry

end RuleScope.Snapshot

namespace RuleScope

/-- What is remembered of a model, or nothing yet. -/
structure Snapshot where
  version : Nat
  rootLabel : Option String
  root : Option Snapshot.Entry
  deriving Repr, Inhabited

namespace Snapshot

def formatVersion : Nat := 1

/-- A snapshot of nothing, as a new session starts with. -/
def empty : Snapshot := ⟨formatVersion, none, none⟩

/-- A snapshot of nothing, of no format. -/
def blank : Snapshot := ⟨0, none, none⟩

def isEmpty (s : Snapshot) : Bool := s.root.isNone

def entryCount (s : Snapshot) : Nat := (s.root.map Entry.count).getD 0

def entry? (s : Snapshot) (labels : List String) : Option Entry := s.root.bind fun e => e.at? labels

end Snapshot

end RuleScope
