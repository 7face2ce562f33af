import RuleScope.Snapshot.Basic

namespace RuleScope.Snapshot

mutual
def Entry.merge (old : Entry) : Entry → Entry
  | ⟨expanded, state, isImport, children⟩ =>
    ⟨expanded, state, isImport, mergeAll old.children children⟩

/-- Merges newer entries into older ones, label by label. -/
def mergeAll (old : List (String × Entry)) : List (String × Entry) → List (String × Entry)
  | [] => old
  | (label, e) :: rest =>
    let merged := match find? label old with
      | some known => known.merge e
      | none => e
    mergeAll (insert label merged old) rest
end

/-- A newer snapshot without entries changes nothing. -/
def merge (old newer : Snapshot) : Snapshot :=
  match newer.root with
  | none => old
  | some e =>
    if old.rootLabel ≠ newer.rootLabel then newer
    else match old.root with
      | some known => { old with root := some (known.merge e) }
      | none => { old with root := some e }

end RuleScope.Snapshot
