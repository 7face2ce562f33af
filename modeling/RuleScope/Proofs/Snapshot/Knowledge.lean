import RuleScope.Proofs.RuleTree.Paths
import RuleScope.Proofs.Snapshot.Reading

namespace RuleScope

open RuleTree Snapshot

/-- What is known of label paths below a root with this label. -/
@[ext] structure Knowledge where
  rootLabel : Option String
  at? : List String → Option Known

namespace Knowledge

def below? (k : Knowledge) (label : Option String) (labels : List String) : Option Known :=
  if k.rootLabel = label then k.at? labels else none

/-- Newer knowledge goes before older; that of another root starts over. -/
def followedBy (old newer : Knowledge) : Knowledge :=
  ⟨newer.rootLabel, fun labels => (newer.at? labels).or (old.below? newer.rootLabel labels)⟩

/-- Knowledge is lost under newer knowledge of the same root and of all its paths. -/
theorem followedBy_followedBy {a b c : Knowledge} (hr : b.rootLabel = c.rootLabel)
    (hc : ∀ labels, (b.at? labels).isSome → (c.at? labels).isSome) :
    (a.followedBy b).followedBy c = a.followedBy c := by
  refine Knowledge.ext rfl (funext fun labels => ?_)
  simp only [followedBy, below?, hr, if_true]
  cases h : c.at? labels with
  | some => simp
  | none =>
    have : b.at? labels = none := by
      cases hb : b.at? labels with
      | none => rfl
      | some v => simpa [h] using hc labels (by simp [hb])
    simp [this]

/-- Between what a model showed and what it shows now, only what a snapshot told is new. -/
theorem followedBy_told {a b c d : Knowledge} (hb : b.rootLabel = d.rootLabel)
    (hc : c.rootLabel = d.rootLabel)
    (hd : ∀ labels, (b.at? labels).isSome → (d.at? labels).isSome) :
    (a.followedBy (c.followedBy d)).followedBy d = ((a.followedBy b).followedBy c).followedBy d := by
  refine Knowledge.ext rfl (funext fun labels => ?_)
  simp only [followedBy, below?, hb, hc, if_true]
  cases h : d.at? labels with
  | some => simp
  | none =>
    have : b.at? labels = none := by
      cases hb : b.at? labels with
      | none => rfl
      | some v => simpa [h] using hd labels (by simp [hb])
    simp [this]

end Knowledge

namespace Snapshot

def known? (s : Snapshot) (labels : List String) : Option Known :=
  (s.entry? labels).map Entry.known

def knowledge (s : Snapshot) : Knowledge := ⟨s.rootLabel, s.known?⟩

theorem known?_eq (s : Snapshot) (labels : List String) :
    s.known? labels = s.root.bind fun e => e.known? labels := by
  unfold known? entry?
  cases s.root <;> rfl

end Snapshot

namespace RuleModel

def known (m : RuleModel) (n : Nat) : Known := ⟨m.tree.isImport n, m.state n, m.isExpanded n⟩

def known? (m : RuleModel) (labels : List String) : Option Known := (m.tree.at? labels).map m.known

def knowledge (m : RuleModel) : Knowledge := ⟨some m.tree.rootLabel, m.known?⟩

theorem knowledge_isSome_congr {m m' : RuleModel} (h : m'.tree = m.tree) (labels : List String)
    (hs : (m.knowledge.at? labels).isSome) : (m'.knowledge.at? labels).isSome := by
  simpa [knowledge, known?, h] using hs

/-- Among the nodes up to `k`, the last with a label path. -/
def lastWith? (m : RuleModel) (k : Nat) (labels : List String) : Option Nat :=
  (List.range k).reverse.find? fun n => m.labelsBelow n = labels

variable {m : RuleModel}

theorem lastWith?_succ (k : Nat) (labels : List String) : m.lastWith? (k + 1) labels =
    if m.labelsBelow k = labels then some k else m.lastWith? k labels := by
  simp only [lastWith?, List.range_succ, List.reverse_append, List.reverse_singleton,
    List.singleton_append, List.find?_cons]
  by_cases h : m.labelsBelow k = labels <;> simp [h]

theorem lastWith?_congr {m' : RuleModel} (h : m'.tree = m.tree) (k : Nat) (labels : List String) :
    m'.lastWith? k labels = m.lastWith? k labels := by
  simp [lastWith?, labelsBelow, h]

theorem lastWith?_isSome_iff {k : Nat} {labels : List String} :
    (m.lastWith? k labels).isSome ↔ ∃ n < k, m.labelsBelow n = labels := by
  simp [lastWith?, List.find?_isSome]

theorem lastWith?_isSome {k n : Nat} (h : n < k) : (m.lastWith? k (m.labelsBelow n)).isSome :=
  lastWith?_isSome_iff.mpr ⟨n, h, rfl⟩

theorem lastWith?_eq_at? (wf : m.tree.WellFormed) (distinct : m.tree.DistinctLabels)
    (labels : List String) : m.lastWith? m.tree.size labels = m.tree.at? labels := by
  cases h : m.lastWith? m.tree.size labels with
  | some n =>
    have hn : n < m.tree.size := by simpa using List.mem_of_find?_eq_some h
    have hl : m.labelsBelow n = labels := by simpa using List.find?_some h
    exact ((wf.at?_eq_some_iff distinct).mpr ⟨hn, hl⟩).symm
  | none =>
    cases ha : m.tree.at? labels with
    | none => rfl
    | some n =>
      obtain ⟨hn, hl⟩ := (wf.at?_eq_some_iff distinct).mp ha
      have := List.find?_eq_none.mp h n (by simpa using hn)
      exact absurd hl (by simpa [labelsBelow] using this)

/-- The path of a node without its last label is that of an earlier node, the root apart. -/
theorem labelsBelow_dropLast (wf : m.tree.WellFormed) {n : Nat} (hn : n < m.tree.size) :
    m.labelsBelow n = [] ∨ ∃ p < n, (m.labelsBelow n).dropLast = m.labelsBelow p := by
  rcases wf.root_or_child hn with rfl | ⟨p, label, hlt, hp, hl⟩
  · exact Or.inl (by simp [labelsBelow, wf.labelPath_root])
  · refine Or.inr ⟨p, hlt, ?_⟩
    rw [labelsBelow, labelsBelow, wf.labelPath_child hp hl, wf.labelPath_eq_cons (Nat.lt_trans hlt hn)]
    simp

/-- When the values of the first `k` nodes are entered, a path has those of its last node. -/
theorem known?_recordNodes (wf : m.tree.WellFormed) (e : Entry) {k : Nat} (hk : k ≤ m.tree.size)
    (labels : List String) : ((List.range k).foldl m.recordNode e).known? labels =
      ((m.lastWith? k labels).map m.known).or (e.known? labels) := by
  induction k generalizing labels with
  | zero => rfl
  | succ k ih =>
    have ih := ih (Nat.le_of_succ_le hk)
    rw [List.range_succ, List.foldl_append, List.foldl_cons, List.foldl_nil, recordNode,
      Entry.known?_setAt, lastWith?_succ]
    · by_cases h : m.labelsBelow k = labels
      · simp [h, known]
      · simp [h, Ne.symm h, ih labels]
    · rcases labelsBelow_dropLast wf hk with h | ⟨p, hp, h⟩
      · simp [h, Entry.at?]
      · have hsome := ih (m.labelsBelow p)
        obtain ⟨q, hq⟩ := Option.isSome_iff_exists.mp (lastWith?_isSome hp)
        rw [hq, Option.map_some, Option.some_or] at hsome
        rw [h]
        simpa [Entry.known?] using congrArg Option.isSome hsome

theorem known?_record (wf : m.tree.WellFormed) (distinct : m.tree.DistinctLabels) (e : Entry)
    (labels : List String) : (m.record e).known? labels = (m.known? labels).or (e.known? labels) := by
  rw [record, known?_recordNodes wf e (Nat.le_refl _), lastWith?_eq_at? wf distinct, known?]

end RuleModel

namespace Snapshot

/-- To take over a model is to learn what it shows. -/
theorem retrieve_knowledge {m : RuleModel} (wf : m.tree.WellFormed)
    (distinct : m.tree.DistinctLabels) (s : Snapshot) :
    (s.retrieve m).knowledge = s.knowledge.followedBy m.knowledge := by
  refine Knowledge.ext rfl (funext fun labels => ?_)
  have hleaf : ∀ state isImport,
      (m.known? labels).or ((Entry.leaf state isImport).known? labels) = m.known? labels := by
    intro state isImport
    cases labels with
    | nil => simp [RuleModel.known?, at?, RuleTree.below?]
    | cons label rest => simp [Entry.known?_cons, Entry.leaf, find?]
  have hknown : (s.retrieve m).known? labels =
      (m.record (((if s.rootLabel = some m.tree.rootLabel then s.root else none)).getD
        (.leaf (m.state RuleTree.root) (m.tree.isImport RuleTree.root)))).known? labels := rfl
  simp only [knowledge, Knowledge.followedBy, Knowledge.below?, RuleModel.knowledge]
  rw [hknown, RuleModel.known?_record wf distinct]
  by_cases hr : s.rootLabel = some m.tree.rootLabel
  · cases hs : s.root with
    | none => simp [known?_eq, hs, hleaf]
    | some e => simp [known?_eq, hs, hr]
  · simp [hr, hleaf]

theorem retrieve_ordered {s : Snapshot} (h : s.Ordered) (m : RuleModel) :
    (s.retrieve m).Ordered := by
  have hrecord : ∀ (nodes : List Nat) (e : Entry), e.Ordered → (nodes.foldl m.recordNode e).Ordered := by
    intro nodes
    induction nodes with
    | nil => exact fun e he => he
    | cons n rest ih => exact fun e he => ih _ (Entry.setAt_ordered he)
  intro e he
  cases he
  refine hrecord _ _ ?_
  split
  · cases hs : s.root with
    | none => exact Entry.leaf_ordered _ _
    | some e => exact h e hs
  · exact Entry.leaf_ordered _ _

theorem retrieve_storable {s : Snapshot} (h : s.Storable) (m : RuleModel) :
    (s.retrieve m).Storable := ⟨retrieve_ordered h.ordered m, h.version_le⟩

theorem merge_ordered {old newer : Snapshot} (ho : old.Ordered) (hn : newer.Ordered) :
    (old.merge newer).Ordered := by
  unfold merge
  split
  next => exact ho
  next e he =>
    have hentry := hn e he
    split
    next => exact hn
    next =>
      split
      next known hknown =>
        intro c hc
        cases hc
        exact Entry.merge_ordered (ho known hknown) hentry
      next =>
        intro c hc
        cases hc
        exact hentry

theorem merge_storable {old newer : Snapshot} (ho : old.Storable) (hn : newer.Storable) :
    (old.merge newer).Storable := by
  refine ⟨merge_ordered ho.ordered hn.ordered, ?_⟩
  unfold merge
  split
  next => exact ho.version_le
  next =>
    split
    next => exact hn.version_le
    next => split <;> exact ho.version_le

/-- To merge a snapshot with entries is to learn what it holds. -/
theorem merge_knowledge {old newer : Snapshot} (h : newer.Ordered) (hr : newer.root.isSome) :
    (old.merge newer).knowledge = old.knowledge.followedBy newer.knowledge := by
  obtain ⟨e, he⟩ := Option.isSome_iff_exists.mp hr
  refine Knowledge.ext ?_ (funext fun labels => ?_)
  · unfold merge
    rw [he]
    by_cases hl : old.rootLabel = newer.rootLabel
    · cases ho : old.root <;> simp [hl, knowledge, Knowledge.followedBy]
    · simp [hl, knowledge, Knowledge.followedBy]
  · simp only [knowledge, Knowledge.followedBy, Knowledge.below?]
    unfold merge
    rw [he]
    by_cases hl : old.rootLabel = newer.rootLabel
    · cases ho : old.root with
      | none => simp [hl, known?_eq, ho, he]
      | some known => simpa [hl, known?_eq, ho, he] using Entry.known?_merge (h e he) known labels
    · simp [hl]

end Snapshot

end RuleScope
