import RuleScope.Proofs.RuleModel.Runs
import RuleScope.Proofs.Snapshot.Knowledge

namespace RuleScope

open RuleTree Snapshot

namespace Snapshot

/-- The state that is restored on a rule, if any. -/
def Known.choice? (v : Known) : Option LoggingState :=
  if v.isImport = false ∧ v.state ∈ LoggingState.selectable then some v.state else none

theorem Known.choice?_selectable {v : Known} {s : LoggingState} (h : v.choice? = some s) :
    s ∈ LoggingState.selectable := by
  unfold choice? at h
  split at h
  next hc =>
    cases h
    exact hc.2
  next => cases h

/-- Nothing is restored on a rule of which no choice is known. -/
theorem bind_choice?_eq_none {o : Option Known}
    (h : ∀ v, o = some v → v.isImport = false → v.state ∉ LoggingState.selectable) :
    o.bind Known.choice? = none := by
  cases o with
  | none => rfl
  | some v =>
    have hnot : ¬(v.isImport = false ∧ v.state ∈ LoggingState.selectable) :=
      fun hc => h v rfl hc.1 hc.2
    rw [Option.bind_some, Known.choice?, if_neg hnot]

theorem Entry.restored_eq (e : Entry) (isRule : Bool) :
    e.restored isRule = (e.known.expanded, if isRule then e.known.choice? else none) := by
  obtain ⟨expanded, state, isImport, children⟩ := e
  cases isRule <;> cases isImport <;>
    simp [restored, known, Known.choice?, ← LoggingState.isDerived_eq_false_iff]

end Snapshot

namespace RuleModel

theorem setExpanded_isExpanded {m : RuleModel} {n : Nat} (hn : n < m.expanded.size)
    (expanded : Bool) (k : Nat) :
    (m.setExpanded n expanded).isExpanded k = if k = n then expanded else m.isExpanded k := by
  simp only [setExpanded, isExpanded, Array.getD_eq_getD_getElem?, Array.getElem?_setIfInBounds]
  by_cases h : n = k
  · subst h
    simp [hn]
  · simp [h, Ne.symm h]

/-- A rule can be given any selectable state, and no other rule changes. -/
theorem setState_rule {m : RuleModel} (h : m.Consistent) {n : Nat} {s : LoggingState}
    (hn : m.tree.isRule n = true) (hs : s ∈ LoggingState.selectable) :
    ∃ u, m.setState n s = .ok u ∧ u.model.tree = m.tree ∧ u.model.expanded = m.expanded ∧
      ∀ r, m.tree.isRule r = true → u.model.state r = if r = n then s else m.state r := by
  have hs : s.isDerived = false := (LoggingState.isDerived_eq_false_iff s).mpr hs
  have hlt := lt_size_of_isRule hn
  have hnode : m.tree.node? n = some m.tree.nodes[n] := Array.getElem?_eq_getElem hlt
  have hrule : m.tree.nodes[n].isRule = true := by simpa [isRule, hnode] using hn
  refine ⟨m.finish (m.sweep.assign m.tree n s), ?_, rfl, rfl, fun r hr => ?_⟩
  · simp only [setState, setAllBelow, hs, hnode, hrule, if_true]
    rfl
  · exact Sweep.assign_rule h.wellFormed (w := m.sweep) h.settled hn hr

end RuleModel

namespace Snapshot

variable {m : RuleModel}

/-- What a node is after entries are restored on it: known flags and states replace its own. -/
structure RestoredAt (e : Entry) (m m' : RuleModel) (n : Nat) : Prop where
  tree_eq : m'.tree = m.tree
  expanded : m'.isExpanded n =
    ((e.known? (m.labelsBelow n)).map Known.expanded).getD (m.isExpanded n)
  state : m.tree.isRule n = true →
    m'.state n = ((e.known? (m.labelsBelow n)).bind Known.choice?).getD (m.state n)

/-- A node that nothing was done to. -/
structure SameAt (m m' : RuleModel) (n : Nat) : Prop where
  tree_eq : m'.tree = m.tree
  expanded : m'.isExpanded n = m.isExpanded n
  state : m.tree.isRule n = true → m'.state n = m.state n

section

variable {m' m'' : RuleModel} {e : Entry} {n : Nat}

theorem SameAt.refl (m : RuleModel) (n : Nat) : SameAt m m n := ⟨rfl, rfl, fun _ => rfl⟩

theorem SameAt.trans (h : SameAt m m' n) (h' : SameAt m' m'' n) : SameAt m m'' n :=
  ⟨h'.tree_eq.trans h.tree_eq, h'.expanded.trans h.expanded,
    fun hr => (h'.state (h.tree_eq.symm ▸ hr)).trans (h.state hr)⟩

theorem RestoredAt.same (h : RestoredAt e m m' n) (h' : SameAt m' m'' n) : RestoredAt e m m'' n :=
  ⟨h'.tree_eq.trans h.tree_eq, h'.expanded.trans h.expanded,
    fun hr => (h'.state (h.tree_eq.symm ▸ hr)).trans (h.state hr)⟩

theorem labelsBelow_congr (h : m'.tree = m.tree) (n : Nat) : m'.labelsBelow n = m.labelsBelow n := by
  simp [RuleModel.labelsBelow, h]

theorem SameAt.restored (h : SameAt m m' n) (h' : RestoredAt e m' m'' n) : RestoredAt e m m'' n := by
  refine ⟨h'.tree_eq.trans h.tree_eq, ?_, fun hr => ?_⟩
  · rw [h'.expanded, h.expanded, labelsBelow_congr h.tree_eq]
  · rw [h'.state (h.tree_eq.symm ▸ hr), h.state hr, labelsBelow_congr h.tree_eq]

/-- Restoring a node again restores nothing new. -/
theorem RestoredAt.trans (h : RestoredAt e m m' n) (h' : RestoredAt e m' m'' n) :
    RestoredAt e m m'' n := by
  refine ⟨h'.tree_eq.trans h.tree_eq, ?_, fun hr => ?_⟩
  · rw [h'.expanded, h.expanded, labelsBelow_congr h.tree_eq]
    cases e.known? (m.labelsBelow n) <;> rfl
  · rw [h'.state (h.tree_eq.symm ▸ hr), h.state hr, labelsBelow_congr h.tree_eq]
    cases (e.known? (m.labelsBelow n)).bind Known.choice? <;> rfl

end

theorem restoreNode_spec {e : Entry} {u : Update} (h : u.model.Consistent) {n : Nat}
    (hn : n < u.model.tree.size) :
    RestoredAt e u.model (restoreNode e u n).model n ∧
      ∀ k ≠ n, SameAt u.model (restoreNode e u n).model k := by
  have hsize : n < u.model.expanded.size := h.expanded_size.symm ▸ hn
  unfold restoreNode
  split
  next hnone =>
    have hnone : e.known? (u.model.labelsBelow n) = none := by simp [Entry.known?, hnone]
    exact ⟨⟨rfl, by simp [hnone], by simp [hnone]⟩, fun k _ => .refl _ k⟩
  next found hfound =>
    have hfound : e.known? (u.model.labelsBelow n) = some found.known := by
      simp [Entry.known?, hfound]
    have hexpanded := RuleModel.setExpanded_isExpanded hsize found.known.expanded
    simp only [Entry.restored_eq]
    split
    next hnone =>
      refine ⟨⟨rfl, by simp [hfound, hexpanded], fun hr => ?_⟩,
        fun k hk => ⟨rfl, by simp [hexpanded, hk], fun _ => rfl⟩⟩
      rw [if_pos hr] at hnone
      rw [hfound, Option.bind_some, hnone]
      rfl
    next s hs =>
      obtain ⟨hr, hs⟩ : u.model.tree.isRule n = true ∧ found.known.choice? = some s := by
        split at hs
        next hr => exact ⟨hr, hs⟩
        next => cases hs
      obtain ⟨v, hv, htree, hve, hvs⟩ := RuleModel.setState_rule
        (RuleModel.setExpanded_consistent h n found.known.expanded) hr (Known.choice?_selectable hs)
      rw [hv]
      have hexp : ∀ k, v.model.isExpanded k =
          if k = n then found.known.expanded else u.model.isExpanded k := by
        intro k
        rw [← hexpanded k, RuleModel.isExpanded, hve]
        rfl
      have hstate : ∀ r, u.model.tree.isRule r = true →
          v.model.state r = if r = n then s else u.model.state r := hvs
      refine ⟨⟨htree, by simp [hfound, hexp], fun hr => ?_⟩, fun k hk => ⟨htree, ?_, fun hr => ?_⟩⟩
      · simp [hfound, hs, hstate n hr]
      · simp [hexp, hk]
      · simp [hstate k hr, hk]

/-- Restoring node by node, each node of the list is restored and every other stays. -/
theorem restoreNodes_spec {e : Entry} {nodes : List Nat} (hnodes : ∀ n ∈ nodes, n < m.tree.size)
    {u : Update} (hu : u.From m) (k : Nat) :
    (k ∈ nodes → RestoredAt e u.model (nodes.foldl (restoreNode e) u).model k) ∧
      (k ∉ nodes → SameAt u.model (nodes.foldl (restoreNode e) u).model k) := by
  induction nodes generalizing u with
  | nil => exact ⟨by simp, fun _ => .refl _ k⟩
  | cons n rest ih =>
    have hn : n < u.model.tree.size := hu.tree_eq ▸ hnodes n List.mem_cons_self
    obtain ⟨hself, hother⟩ := restoreNode_spec (e := e) hu.consistent hn
    obtain ⟨hin, hout⟩ := ih (fun c hc => hnodes c (List.mem_cons_of_mem _ hc))
      (restoreNode_from (e := e) hu n)
    rw [List.foldl_cons]
    refine ⟨fun hk => ?_, fun hk => ?_⟩
    · by_cases hkn : k = n
      · subst hkn
        by_cases hrest : k ∈ rest
        · exact hself.trans (hin hrest)
        · exact hself.same (hout hrest)
      · exact (hother k hkn).restored (hin ((List.mem_cons.mp hk).resolve_left hkn))
    · have hkn : k ≠ n := fun he => hk (he ▸ List.mem_cons_self)
      exact (hother k hkn).trans (hout fun hr => hk (List.mem_cons_of_mem _ hr))

/-- A snapshot with entries for the root of a model is restored on all nodes and learns the model. -/
theorem restore?_spec (h : m.Consistent) {s s' : Snapshot} {u : Update}
    (hs : s.restore? m = some (s', u)) :
    s.rootLabel = some m.tree.rootLabel ∧ s.root.isSome ∧ s' = s.retrieve u.model ∧ u.From m ∧
      ∀ e ∈ s.root, ∀ n < m.tree.size, RestoredAt e m u.model n := by
  have hfrom := restore?_from h hs
  unfold restore? at hs
  split at hs
  next hr =>
    obtain ⟨e, he, heq⟩ := Option.map_eq_some_iff.mp hs
    cases heq
    refine ⟨hr, by simp [he], rfl, hfrom, fun e' he' n hn => ?_⟩
    obtain rfl : e' = e := Option.some.inj (he'.symm.trans he)
    have hfirst : (⟨m, []⟩ : Update).From m := ⟨rfl, rfl, h, .refl⟩
    exact (restoreNodes_spec (fun k hk => List.mem_range.mp hk) hfirst n).1 (List.mem_range.mpr hn)
  next => cases hs

/-- Nothing is known of a model on which a snapshot is not restored. -/
theorem restore?_eq_none {s : Snapshot} (hs : s.restore? m = none) (labels : List String) :
    s.knowledge.below? (some m.tree.rootLabel) labels = none := by
  unfold restore? at hs
  split at hs
  next hr =>
    have hroot : s.root = none := by simpa using hs
    simp [Knowledge.below?, knowledge, known?_eq, hroot]
  next hr => simp [Knowledge.below?, knowledge, hr]

end Snapshot

namespace Knowledge

/-- The model has every choice that is known of its label paths, and no other. -/
structure RestoredOn (k : Knowledge) (m : RuleModel) : Prop where
  chosen : ∀ n, m.tree.isRule n = true → ∀ v,
    k.below? (some m.tree.rootLabel) (m.labelsBelow n) = some v →
    v.isImport = false → v.state ∈ LoggingState.selectable → m.state n = v.state
  unchosen : ∀ n, m.tree.isRule n = true →
    (∀ v, k.below? (some m.tree.rootLabel) (m.labelsBelow n) = some v →
      v.isImport = false → v.state ∉ LoggingState.selectable) → m.state n = .never
  expanded : ∀ n < m.tree.size, ∀ v,
    k.below? (some m.tree.rootLabel) (m.labelsBelow n) = some v → m.isExpanded n = v.expanded
  collapsed : ∀ n < m.tree.size,
    k.below? (some m.tree.rootLabel) (m.labelsBelow n) = none → m.isExpanded n = false

theorem RestoredOn.of_eq {k : Knowledge} {m : RuleModel}
    (state : ∀ n, m.tree.isRule n = true → m.state n =
      ((k.below? (some m.tree.rootLabel) (m.labelsBelow n)).bind Known.choice?).getD .never)
    (expanded : ∀ n < m.tree.size, m.isExpanded n =
      ((k.below? (some m.tree.rootLabel) (m.labelsBelow n)).map Known.expanded).getD false) :
    k.RestoredOn m where
  chosen n hr v hv hi hs := by
    rw [state n hr, hv, Option.bind_some, Known.choice?, if_pos ⟨hi, hs⟩]
    rfl
  unchosen n hr h := by
    rw [state n hr, bind_choice?_eq_none h]
    rfl
  expanded n hn v hv := by rw [expanded n hn, hv]; rfl
  collapsed n hn hv := by rw [expanded n hn, hv]; rfl

end Knowledge

end RuleScope
