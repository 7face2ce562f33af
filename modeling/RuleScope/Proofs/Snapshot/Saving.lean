import RuleScope.Proofs.Snapshot.Autosave

namespace RuleScope

open Snapshot

theorem eq_ok_iff_of_toOption {ε α : Type} {r : Except ε α} {a : α} {p : Prop} [Decidable p]
    (h : r.toOption = if p then some a else none) : r = .ok a ↔ p := by
  constructor
  · intro hok
    by_contra hp
    rw [if_neg hp, hok] at h
    cases h
  · intro hp
    rw [if_pos hp] at h
    exact eq_ok_of_toOption h

namespace Snapshot

/-- A snapshot is what its text says, and what is loaded after it was saved, on any disk and under
any name; exactly if its entries are no more than 63 levels high. -/
theorem saved_snapshot_reads_back {s : Snapshot} (hs : s.Storable) :
    (ofText s.toText = .ok s ↔ s.height ≤ 63) ∧
    ∀ (store : SnapshotStore) (d d' : Disk) (name path : String),
      store.save d name s = (d', .ok path) →
        d'.readText path = .ok s.toText ∧ (store.load d' name = .ok s ↔ s.height ≤ 63) := by
  have hread := ofText_toText hs.ordered hs.version_le
  refine ⟨eq_ok_iff_of_toOption hread, fun store d d' name path hsave => ?_⟩
  obtain ⟨hpath, hwritten⟩ := SnapshotStore.save_ok hsave
  have hload := SnapshotStore.load_of_readText hpath hwritten hs
  exact ⟨hwritten, eq_ok_iff_of_toOption hload⟩

/-- Entries in a column, one below the other under the same label. -/
def column (label : String) : Nat → Entry
  | 0 => .leaf .always false
  | n + 1 => ⟨true, .mixed, true, [(label, column label n)]⟩

theorem height_column (label : String) (n : Nat) : (column label n).height = n + 1 := by
  induction n with
  | zero => rfl
  | succ n ih =>
    rw [column, Entry.height_eq]
    simp only [heightAll, ih]
    omega

theorem column_ordered (label : String) (n : Nat) : (column label n).Ordered := by
  induction n with
  | zero => exact Entry.leaf_ordered _ _
  | succ n ih => exact Entry.ordered_iff.mpr (allOrdered_nil.insert ih label)

/-- The highest snapshot that is read back, with a label of quotes, a backslash and control
characters, and the greatest version. -/
def awkwardSnapshot : Snapshot :=
  ⟨Text.maxNat32, some "", some (column "\"\\\n\x00\x7f𝄞\"" 62)⟩

theorem awkwardSnapshot_storable : awkwardSnapshot.Storable := by
  refine ⟨fun e he => ?_, Nat.le_refl _⟩
  obtain rfl : column _ 62 = e := Option.some.inj he
  exact column_ordered _ _

theorem awkward_snapshot_reads_back : ofText awkwardSnapshot.toText = .ok awkwardSnapshot ∧
    ∃ d path, SnapshotStore.load ⟨"/saved"⟩ d "odd" = .ok awkwardSnapshot ∧
      SnapshotStore.save ⟨"/saved"⟩ ⟨[], .root, 0⟩ "odd" awkwardSnapshot = (d, .ok path) := by
  have low : awkwardSnapshot.height ≤ 63 := by
    have hheight := height_column "\"\\\n\x00\x7f𝄞\"" 62
    exact Nat.le_of_eq hheight
  obtain ⟨htext, hfile⟩ := saved_snapshot_reads_back awkwardSnapshot_storable
  obtain ⟨d, saved, hsave⟩ : ∃ d saved,
      SnapshotStore.save ⟨"/saved"⟩ ⟨[], .root, 0⟩ "odd" awkwardSnapshot = (d, saved) := ⟨_, _, rfl⟩
  have hok : (SnapshotStore.save ⟨"/saved"⟩ ⟨[], .root, 0⟩ "odd" awkwardSnapshot).2.toOption =
      some "/saved/odd.json" := by
    decide +kernel
  rw [hsave] at hok
  obtain rfl : saved = .ok "/saved/odd.json" := eq_ok_of_toOption hok
  obtain ⟨-, hload⟩ := hfile _ _ _ _ _ hsave
  exact ⟨htext.mpr low, d, _, hload.mpr low, hsave⟩

end Snapshot

end RuleScope
