import RuleScope.Proofs.RuleTree.Depth
import RuleScope.Proofs.Snapshot.Recapture
import RuleScope.Proofs.Snapshot.Text

namespace RuleScope

namespace Snapshot

theorem mem_of_find? {α : Type} {label : String} {a : α} {entries : List (String × α)}
    (h : find? label entries = some a) : (label, a) ∈ entries := by
  induction entries with
  | nil => cases h
  | cons b rest ih =>
    rw [find?] at h
    split at h
    next hl =>
      cases h
      rw [hl]
      exact List.mem_cons_self
    next => exact List.mem_cons_of_mem _ (ih h)

/-- An entry stands higher than each path below it is long. -/
theorem Entry.height_le_iff {e : Entry} (h : e.Ordered) {k : Nat} :
    e.height ≤ k ↔ ∀ labels, (e.known? labels).isSome → labels.length < k := by
  induction k generalizing e with
  | zero =>
    have hpos := e.height_eq
    constructor
    · intro hle
      omega
    · intro hshort
      exact absurd (hshort [] rfl) (Nat.not_lt_zero _)
  | succ k ih =>
    have hordered := ordered_iff.mp h
    have hchild : ∀ c ∈ e.children, find? c.1 e.children = some c.2 ∧ c.2.Ordered := by
      intro c hc
      have hfind := hordered.1.find?_of_mem hc
      exact ⟨hfind, hordered.2 c.1 c.2 hfind⟩
    have hle : e.height ≤ k + 1 ↔ heightAll e.children ≤ k := by
      rw [height_eq]
      omega
    rw [hle, heightAll_le_iff]
    constructor
    · intro hall labels hknown
      cases labels with
      | nil => exact Nat.succ_pos k
      | cons label rest =>
        rw [known?_cons] at hknown
        cases hfind : find? label e.children with
        | none => simp [hfind] at hknown
        | some c =>
          rw [hfind, Option.bind_some] at hknown
          have hmem := mem_of_find? hfind
          have hshort := (ih (hchild _ hmem).2).mp (hall _ hmem) rest hknown
          exact Nat.succ_lt_succ hshort
    · intro hshort c hc
      obtain ⟨hfind, hc'⟩ := hchild c hc
      apply (ih hc').mpr
      intro labels hknown
      have hlabels : (e.known? (c.1 :: labels)).isSome := by
        rwa [known?_cons, hfind, Option.bind_some]
      exact Nat.lt_of_succ_lt_succ (hshort _ hlabels)

/-- What the entry of a captured model knows of a path are the values of its last node there. -/
theorem known?_rootEntry {m : RuleModel} (wf : m.tree.WellFormed) (labels : List String) :
    (rootEntry m).known? labels = (m.lastWith? m.tree.size labels).map m.known := by
  rw [rootEntry, RuleModel.record, RuleModel.known?_recordNodes wf _ (Nat.le_refl _)]
  cases labels with
  | nil =>
    have hroot : m.labelsBelow RuleTree.root = [] := by
      simp [RuleModel.labelsBelow, wf.labelPath_root]
    have hsome := RuleModel.lastWith?_isSome (m := m) wf.size_pos
    rw [hroot] at hsome
    obtain ⟨n, hn⟩ := Option.isSome_iff_exists.mp hsome
    rw [hn]
    rfl
  | cons label rest =>
    have hleaf : (Entry.leaf (m.state RuleTree.root) (m.tree.isImport RuleTree.root)).known?
        (label :: rest) = none := by
      simp [Entry.known?_cons, Entry.leaf, find?]
    rw [hleaf, Option.or_none]

/-- Of a captured model, the label paths of the nodes are known and no others. -/
theorem rootEntry_known?_isSome_iff {m : RuleModel} (wf : m.tree.WellFormed) (labels : List String) :
    ((rootEntry m).known? labels).isSome ↔ ∃ n < m.tree.size, m.labelsBelow n = labels := by
  rw [known?_rootEntry wf, Option.isSome_map, RuleModel.lastWith?_isSome_iff]

/-- A captured snapshot is as high as the tree is deep. -/
theorem height_capture {m : RuleModel} (wf : m.tree.WellFormed) {high : Nat}
    (hle : ∀ n < m.tree.size, m.tree.depth n ≤ high) (hmax : ∃ n < m.tree.size, m.tree.depth n = high) :
    (capture m).height = high := by
  have hordered : (rootEntry m).Ordered := capture_ordered m _ (by rw [capture_eq]; rfl)
  have hheight : (capture m).height = (rootEntry m).height := by rw [capture_eq]; rfl
  have hlength : ∀ n < m.tree.size, (m.labelsBelow n).length + 1 = m.tree.depth n := by
    intro n hn
    have hpath := wf.length_labelPath hn
    have hpos := m.tree.depth_pos n
    rw [RuleModel.labelsBelow, List.length_drop]
    omega
  rw [hheight]
  apply Nat.le_antisymm
  · apply (Entry.height_le_iff hordered).mpr
    intro labels hknown
    obtain ⟨n, hn, rfl⟩ := (rootEntry_known?_isSome_iff wf labels).mp hknown
    have h₁ := hlength n hn
    have h₂ := hle n hn
    omega
  · obtain ⟨n, hn, hd⟩ := hmax
    have hknown := (rootEntry_known?_isSome_iff wf (m.labelsBelow n)).mpr ⟨n, hn, rfl⟩
    have hshort := (Entry.height_le_iff hordered).mp (Nat.le_refl _) _ hknown
    have hl := hlength n hn
    omega

end Snapshot

end RuleScope
