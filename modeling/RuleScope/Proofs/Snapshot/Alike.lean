import RuleScope.Proofs.RuleModel.Determined

namespace RuleScope

open RuleTree Snapshot

namespace RuleModel

variable {m m' : RuleModel}

/-- `m'` has the nodes of `m`, with the same states and expansion flags; only its sources may lie
elsewhere on disk. -/
structure ShowsAs (m' m : RuleModel) : Prop where
  outline : m.tree.SameOutline m'.tree
  state_eq : ∀ n, m'.state n = m.state n
  isExpanded_eq : ∀ n, m'.isExpanded n = m.isExpanded n

theorem Consistent.isExpanded_beyond (h : m.Consistent) {n : Nat} (hn : m.tree.size ≤ n) :
    m.isExpanded n = false := by
  have hsize : m.expanded.size ≤ n := h.expanded_size ▸ hn
  simp [isExpanded, Array.getD_eq_getD_getElem?, hsize]

end RuleModel

namespace Knowledge

variable {m m' : RuleModel} {k : Knowledge}

theorem RestoredOn.state_eq (h : k.RestoredOn m) {n : Nat} (hn : m.tree.isRule n = true) :
    m.state n =
      ((k.below? (some m.tree.rootLabel) (m.labelsBelow n)).bind Known.choice?).getD .never := by
  cases hv : k.below? (some m.tree.rootLabel) (m.labelsBelow n) with
  | none =>
    refine h.unchosen n hn fun v hv' => ?_
    cases hv.symm.trans hv'
  | some v =>
    simp only [Option.bind_some, Known.choice?]
    split
    next hc => exact h.chosen n hn v hv hc.1 hc.2
    next hc =>
      refine h.unchosen n hn fun v' hv' hi hs => ?_
      obtain rfl : v = v' := Option.some.inj (hv.symm.trans hv')
      exact hc ⟨hi, hs⟩

theorem RestoredOn.isExpanded_eq (h : k.RestoredOn m) {n : Nat} (hn : n < m.tree.size) :
    m.isExpanded n =
      ((k.below? (some m.tree.rootLabel) (m.labelsBelow n)).map Known.expanded).getD false := by
  cases hv : k.below? (some m.tree.rootLabel) (m.labelsBelow n) with
  | none => exact h.collapsed n hn hv
  | some v => exact h.expanded n hn v hv

/-- The same restored on two models of one outline makes them show the same. -/
theorem RestoredOn.showsAs (h : k.RestoredOn m) (h' : k.RestoredOn m') (hc : m.Consistent)
    (hc' : m'.Consistent) (outline : m.tree.SameOutline m'.tree) : m'.ShowsAs m := by
  have known : ∀ n, k.below? (some m'.tree.rootLabel) (m'.labelsBelow n) =
      k.below? (some m.tree.rootLabel) (m.labelsBelow n) := fun n => by
    simp only [RuleModel.labelsBelow, outline.rootLabel_eq, outline.labelPath_eq]
  refine ⟨outline, hc.state_eq_of_rules hc' outline.sameShape fun r hr => ?_, fun n => ?_⟩
  · have hr' : m'.tree.isRule r = true := by rwa [outline.sameShape.isRule_eq]
    rw [h'.state_eq hr', known, ← h.state_eq hr]
  · have hsize := outline.size_eq
    rcases Nat.lt_or_ge n m.tree.size with hn | hn
    · have hn' : n < m'.tree.size := by omega
      rw [h'.isExpanded_eq hn', known, ← h.isExpanded_eq hn]
    · have hn' : m'.tree.size ≤ n := by omega
      rw [hc.isExpanded_beyond hn, hc'.isExpanded_beyond hn']

/-- What was last known of a model is restored on the model itself. -/
theorem followedBy_restoredOn (hc : m.Consistent) (distinct : m.tree.DistinctLabels)
    (k : Knowledge) : (k.followedBy m.knowledge).RestoredOn m := by
  have hknown : ∀ n < m.tree.size, (k.followedBy m.knowledge).below? (some m.tree.rootLabel)
      (m.labelsBelow n) = some (m.known n) := by
    intro n hn
    have hat : m.tree.at? (m.labelsBelow n) = some n := hc.wellFormed.at?_labelPath distinct hn
    simp [followedBy, below?, RuleModel.knowledge, RuleModel.known?, hat]
  refine .of_eq (fun n hn => ?_) fun n hn => ?_
  · have hstate : m.state n ∈ LoggingState.selectable := hc.statesFollowRules.rule_selectable n hn
    have himport : m.tree.isImport n = false := isImport_eq_false_of_isRule hn
    rw [hknown n (lt_size_of_isRule hn)]
    simp [Known.choice?, RuleModel.known, himport, hstate]
  · rw [hknown n hn]
    rfl

end Knowledge

end RuleScope
