import RuleScope.Proofs.Json.Yields
import RuleScope.Proofs.Snapshot.Entries
import RuleScope.Snapshot.Store

namespace RuleScope.Snapshot

open Json Json.Reader

/-- All that a snapshot knows is in order. -/
def Ordered (s : Snapshot) : Prop := ∀ e ∈ s.root, e.Ordered

/-- A snapshot that can be read back: it is in order and its version fits the field. -/
structure Storable (s : Snapshot) : Prop where
  ordered : s.Ordered
  version_le : s.version ≤ Text.maxNat32

theorem empty_storable : empty.Storable := ⟨nofun, by decide⟩

theorem yields_childrenReader {entry : Reader Entry} (h : Yields entry Entry.Ordered) :
    Yields (childrenReader entry) AllOrdered :=
  yields_map (yields_fields
    (fun _ label hs => .after fun _ => h.bind fun _ he => .pure (hs.insert he label))
    allOrdered_nil)

theorem toEntry_ordered {f : EntryFields} (h : ∀ l ∈ f.children, AllOrdered l)
    (state : LoggingState) : (f.toEntry state).Ordered := by
  refine Entry.ordered_iff.mpr ?_
  cases hc : f.children with
  | none => simpa [EntryFields.toEntry, hc] using allOrdered_nil
  | some l => simpa [EntryFields.toEntry, hc] using h l hc

theorem yields_entryField {entry : Reader Entry} (h : Yields entry Entry.Ordered) {f : EntryFields}
    (hf : ∀ l ∈ f.children, AllOrdered l) (key : String) :
    Yields (entryField entry f key) fun f => ∀ l ∈ f.children, AllOrdered l := by
  unfold entryField
  split
  · exact .after fun _ => .pure hf
  split
  · exact .after fun _ => .pure hf
  split
  · exact .after fun _ => .pure hf
  split
  · exact (yields_once _ _ (yields_childrenReader h)).bind fun _ ho => .pure ho
  · exact .after fun _ => .pure hf

theorem yields_entryReader (levels : Nat) : Yields (entryReader levels) Entry.Ordered := by
  induction levels with
  | zero => exact yields_failAhead _
  | succ levels ih =>
    refine yields_record ?_ ?_
    · refine (yields_fields (fun _ key hf => yields_entryField ih hf key) (by simp)).bind
        fun f hf => ?_
      split
      · exact .pure (toEntry_ordered hf _)
      · exact yields_failData _
    · refine .after fun _ => .after fun _ => ?_
      split
      · exact yields_failData _
      · exact .after fun _ => (yields_field? false (yields_childrenReader ih)).bind
          fun _ ho => .pure (toEntry_ordered ho _)

/-- What is read of a snapshot makes a storable one, whichever fields there are. -/
structure Fields.Storable (f : Fields) : Prop where
  version_le : ∀ n ∈ f.version, n ≤ Text.maxNat32
  ordered : ∀ o ∈ f.root, ∀ e ∈ o, Entry.Ordered e

theorem Fields.Storable.toSnapshot {f : Fields} (h : f.Storable) : f.toSnapshot.Storable where
  ordered e he := by
    cases hr : f.root with
    | none => simp [Fields.toSnapshot, hr] at he
    | some o => exact h.ordered o hr e (by simpa [Fields.toSnapshot, hr] using he)
  version_le := by
    cases hv : f.version with
    | none => simp [Fields.toSnapshot, hv]
    | some n => simpa [Fields.toSnapshot, hv] using h.version_le n hv

theorem yields_field {f : Fields} (hf : f.Storable) (key : String) :
    Yields (field f key) Fields.Storable := by
  unfold field
  split
  · exact (yields_once _ _ (yields_natural _ _)).bind fun _ hv => .pure ⟨hv, hf.ordered⟩
  split
  · exact .after fun _ => .pure ⟨hf.version_le, hf.ordered⟩
  split
  · exact (yields_once _ _ (yields_optional (yields_entryReader _))).bind
      fun _ ho => .pure ⟨hf.version_le, ho⟩
  · exact .after fun _ => .pure hf

theorem ofText_storable {text : String} {s : Snapshot} (h : ofText text = .ok s) : s.Storable := by
  refine of_run (yields_record ?_ ?_) h
  · have hnone : Fields.Storable ⟨none, none, none⟩ := ⟨nofun, nofun⟩
    exact (yields_fields (fun _ key hf => yields_field hf key) hnone).map fun _ hf => hf.toSnapshot
  · refine (yields_field? true (yields_natural _ _)).bind fun _ hv => .after fun _ => ?_
    exact (yields_field? false (yields_optional (yields_entryReader _))).bind
      fun _ ho => .pure (Fields.Storable.toSnapshot ⟨hv, ho⟩)

end RuleScope.Snapshot

namespace RuleScope

namespace SnapshotStore

variable {store : SnapshotStore} {d : Disk} {name : String} {s : Snapshot}

theorem load_storable (h : store.load d name = .ok s) : s.Storable := by
  unfold load at h
  cases hp : store.pathOf name with
  | error e => simp [hp, bind, Except.bind] at h
  | ok path =>
    replace h : read d path = .ok s := by simpa [hp, bind, Except.bind] using h
    unfold read at h
    split at h
    next => cases h
    next =>
      split at h
      next => cases h
      next text _ =>
        cases ht : Snapshot.ofText text with
        | error e => simp [ht, Except.mapError] at h
        | ok s' =>
          obtain rfl : s' = s := by simpa [ht, Except.mapError] using h
          exact Snapshot.ofText_storable ht

theorem load_ordered (h : store.load d name = .ok s) : s.Ordered := (load_storable h).ordered

end SnapshotStore

end RuleScope
