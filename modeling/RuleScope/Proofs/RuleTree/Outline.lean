import RuleScope.Proofs.RuleTree.WellFormed

namespace RuleScope

namespace Node

/-- A node without its mark and its place. -/
def outline (n : Node) : Node :=
  match n.content with
  | .imported _ diagnostics _ => { n with content := .imported .root diagnostics false }
  | .rule _ _ _ => n

@[simp] theorem outline_label (n : Node) : n.outline.label = n.label := by
  unfold outline; split <;> rfl

@[simp] theorem outline_parent (n : Node) : n.outline.parent = n.parent := by
  unfold outline; split <;> rfl

@[simp] theorem outline_isImport (n : Node) : n.outline.isImport = n.isImport := by
  unfold outline
  split
  next h => simp [isImport, h]
  next => rfl

@[simp] theorem outline_ruleId? (n : Node) : n.outline.ruleId? = n.ruleId? := by
  unfold outline
  split
  next h => simp [ruleId?, h]
  next => rfl

theorem unmarked_outline (n : Node) : n.unmarked.outline = n.outline := by
  obtain ⟨label, line, parent, children, content⟩ := n
  cases content <;> rfl

theorem outline_withChildren (n : Node) (children : List Nat) :
    ({ n with children } : Node).outline = { n.outline with children } := by
  obtain ⟨label, line, parent, _, content⟩ := n
  cases content <;> rfl

end Node

namespace RuleTree

/-- Trees that are the same but for the places on disk. -/
structure SameOutline (t t' : RuleTree) : Prop where
  node?_eq : ∀ n, (t'.node? n).map Node.outline = (t.node? n).map Node.outline
  rules_eq : t'.rules = t.rules
  dependencies_eq : t'.dependencies = t.dependencies

namespace SameOutline

variable {t t' : RuleTree} (h : t.SameOutline t')
include h

theorem map_node? {α : Type} {f : Node → α} (hf : ∀ n, f n.outline = f n) (n : Nat) :
    (t'.node? n).map f = (t.node? n).map f := by
  have houtline := congrArg (Option.map f) (h.node?_eq n)
  simpa only [Option.map_map, Function.comp_def, hf] using houtline

theorem bind_node? {α : Type} {f : Node → Option α} (hf : ∀ n, f n.outline = f n) (n : Nat) :
    (t'.node? n).bind f = (t.node? n).bind f := by
  have houtline := congrArg (fun o => o.bind f) (h.node?_eq n)
  simpa only [Option.bind_map, Function.comp_def, hf] using houtline

theorem size_eq : t'.size = t.size := by
  have hnone : ∀ n : Nat, t'.nodes[n]? = none ↔ t.nodes[n]? = none := fun n => by
    have := congrArg Option.isNone (h.node?_eq n)
    simp only [Option.isNone_map] at this
    rw [← Option.isNone_iff_eq_none, ← Option.isNone_iff_eq_none]
    exact Bool.eq_iff_iff.mp this
  have h₁ := (hnone t.nodes.size).mpr (by simp)
  have h₂ := (hnone t'.nodes.size).mp (by simp)
  simp only [Array.getElem?_eq_none_iff] at h₁ h₂
  have : t'.nodes.size = t.nodes.size := by omega
  exact this

theorem label_eq (n : Nat) : (t'.node? n).map Node.label = (t.node? n).map Node.label :=
  h.map_node? Node.outline_label n

theorem isImport_eq (n : Nat) : t'.isImport n = t.isImport n := by
  have := h.map_node? Node.outline_isImport n
  unfold isImport
  rw [this]

theorem ruleId?_eq (n : Nat) : t'.ruleId? n = t.ruleId? n := h.bind_node? Node.outline_ruleId? n

theorem rootLabel_eq : t'.rootLabel = t.rootLabel := by
  unfold rootLabel
  rw [h.label_eq]

theorem above?_eq (n : Nat) : t'.above? n = t.above? n := by
  have := h.bind_node? Node.outline_parent n
  unfold above?
  rw [this]

theorem lineage_eq (n : Nat) : t'.lineage n = t.lineage n := by
  induction n using Nat.strongRecOn with
  | ind n ih =>
    rw [lineage, lineage, h.above?_eq n]
    split
    next p hlt _ => rw [ih p hlt]
    next => rfl

theorem labelPath_eq (n : Nat) : t'.labelPath n = t.labelPath n := by
  unfold labelPath
  rw [h.lineage_eq n]
  simp only [h.label_eq]

end SameOutline

section

variable {resolve resolve' : String → AbsPath} {parent : Option Nat} {t t' s : RuleTree}

theorem sameOutline_of_nodes {node node' : Node} (h : t.SameOutline s)
    (alike : AlikeIn t'.nodes (t.nodes.push node)) {s' : RuleTree}
    (alike' : AlikeIn s'.nodes (s.nodes.push node')) (hnode : node'.outline = node.outline)
    (hrules : s'.rules = t'.rules) (hdependencies : s'.dependencies = t'.dependencies) :
    t'.SameOutline s' := by
  refine ⟨fun n => ?_, hrules, hdependencies⟩
  have hmarks : ∀ {nodes nodes' : Array Node}, AlikeIn nodes nodes' →
      nodes[n]?.map Node.outline = nodes'[n]?.map Node.outline := fun hn => by
    have := congrArg (Option.map Node.outline) (hn n)
    simpa only [Option.map_map, Function.comp_def, Node.unmarked_outline] using this
  have hsize : s.nodes.size = t.nodes.size := h.size_eq
  have hold := h.node?_eq n
  unfold node? at hold ⊢
  rw [hmarks alike, hmarks alike', Array.getElem?_push, Array.getElem?_push, hsize]
  split
  next => exact congrArg some hnode
  next => exact hold

/-- A node can be added wherever its source lies. -/
theorem addNode_outline (h : t.SameOutline s) {label : String} {line : Nat} {kind : LocationKind}
    (ht : addNode resolve t parent label line kind = .ok t') :
    ∃ s', addNode resolve' s parent label line kind = .ok s' ∧ t'.SameOutline s' := by
  cases kind with
  | imported path diagnostics =>
    cases ht
    refine ⟨_, rfl, ?_⟩
    let place := resolve (Path.join t.sourceRoot.text (writtenPath label path))
    let place' := resolve' (Path.join s.sourceRoot.text (writtenPath label path))
    let entered := addDiagnostics_keeps t.size diagnostics { t with
      imports := Table.put place t.size t.imports
      nodes := t.nodes.push ⟨label, line, parent, [], .imported place diagnostics false⟩ }
    let entered' := addDiagnostics_keeps s.size diagnostics { s with
      imports := Table.put place' s.size s.imports
      nodes := s.nodes.push ⟨label, line, parent, [], .imported place' diagnostics false⟩ }
    refine sameOutline_of_nodes h (fun i => congrArg (fun nodes : Array Node =>
        nodes[i]?.map Node.unmarked) entered.1) (fun i => congrArg (fun nodes : Array Node =>
        nodes[i]?.map Node.unmarked) entered'.1) rfl ?_ ?_
    · exact (entered'.2.2.trans h.rules_eq).trans entered.2.2.symm
    · exact (entered'.2.1.trans h.dependencies_eq).trans entered.2.1.symm
  | rule id expression baseTerms =>
    have hfree : Table.get? id t.rules = none := by
      simp only [addNode] at ht
      split at ht
      next => cases ht
      next hnone => exact hnone
    simp only [addNode, hfree] at ht ⊢
    rw [h.rules_eq, hfree]
    cases ht
    refine ⟨_, rfl, ?_⟩
    let node : Node := ⟨label, line, parent, [], .rule id expression baseTerms⟩
    have hrules : Table.put id s.size t.rules = Table.put id t.size t.rules := by rw [h.size_eq]
    cases parent with
    | none =>
      exact sameOutline_of_nodes h (fun _ => rfl) (fun _ => rfl) rfl hrules h.dependencies_eq
    | some p =>
      exact sameOutline_of_nodes h (markRules_alike (t.nodes.push node) p)
        (markRules_alike (s.nodes.push node) p) rfl hrules h.dependencies_eq

theorem complete_outline (h : t.SameOutline s) (parent : Option Nat) (n : Nat) (ids : List Nat) :
    (t.complete parent n ids).SameOutline (s.complete parent n ids) := by
  have hrules : ∀ t : RuleTree, (t.complete parent n ids).rules = t.rules := fun t => by
    unfold complete addDependency
    cases parent with
    | none => rfl
    | some p =>
      dsimp only
      split <;> rfl
  refine ⟨fun k => ?_, by rw [hrules, hrules, h.rules_eq], ?_⟩
  · have hnode : ∀ t : RuleTree, ((t.complete parent n ids).node? k).map Node.outline =
        ((t.node? k).map Node.outline).map fun node =>
          if n = k then { node with children := ids } else node := fun t => by
      rw [node?, complete_nodes, ← node?, setChildren_node?, Option.map_map, Option.map_map]
      congr 1
      funext node
      simp only [Function.comp_apply]
      split
      next => exact Node.outline_withChildren node ids
      next => rfl
    rw [hnode, hnode, h.node?_eq]
  · unfold complete addDependency
    cases parent with
    | none => exact h.dependencies_eq
    | some p =>
      simp only [setChildren_isImport, h.isImport_eq]
      split
      next => exact congrArg (· ++ _) h.dependencies_eq
      next => exact h.dependencies_eq

end

mutual

/-- What is built below one source root can be built below any other, with the same outline. -/
theorem add_outline {resolve resolve' : String → AbsPath} {parent : Option Nat} {t t' s : RuleTree}
    (h : t.SameOutline s) (l : Location) (ht : add resolve parent l t = .ok t') :
    ∃ s', add resolve' parent l s = .ok s' ∧ t'.SameOutline s' := by
  obtain ⟨label, line, kind, children⟩ := l
  simp only [add, bind, Except.bind, pure, Except.pure] at ht ⊢
  split at ht
  next => cases ht
  next t₁ ht₁ =>
    obtain ⟨s₁, hs₁, h₁⟩ : ∃ s₁, addNode resolve' s parent label line kind = .ok s₁ ∧
      t₁.SameOutline s₁ := addNode_outline h ht₁
    split at ht
    next => cases ht
    next r hr =>
      obtain ⟨s₂, hs₂, h₂⟩ := addAll_outline h₁ children hr
      cases ht
      rw [hs₁]
      dsimp only
      rw [h.size_eq, hs₂]
      exact ⟨_, rfl, complete_outline h₂ parent t.size r.2⟩

theorem addAll_outline {resolve resolve' : String → AbsPath} {n : Nat} {t s : RuleTree}
    (h : t.SameOutline s) (ls : List Location) {r : RuleTree × List Nat}
    (ht : addAll resolve n ls t = .ok r) :
    ∃ s', addAll resolve' n ls s = .ok (s', r.2) ∧ r.1.SameOutline s' := by
  cases ls with
  | nil =>
    cases ht
    exact ⟨s, rfl, h⟩
  | cons l rest =>
    simp only [addAll, bind, Except.bind, pure, Except.pure] at ht ⊢
    split at ht
    next => cases ht
    next t₁ ht₁ =>
      obtain ⟨s₁, hs₁, h₁⟩ := add_outline h l ht₁
      split at ht
      next => cases ht
      next q hq =>
        obtain ⟨s₂, hs₂, h₂⟩ := addAll_outline h₁ rest hq
        cases ht
        rw [hs₁]
        dsimp only
        rw [hs₂, h.size_eq]
        exact ⟨s₂, rfl, h₂⟩

end

theorem build_outline {resolve resolve' : String → AbsPath} {sourceRoot sourceRoot' : String}
    {l : Location} {t : RuleTree} (h : build resolve sourceRoot l = .ok t) :
    ∃ t', build resolve' sourceRoot' l = .ok t' ∧ t.SameOutline t' := by
  have hbare : (bare (resolve sourceRoot)).SameOutline (bare (resolve' sourceRoot')) :=
    ⟨fun _ => rfl, rfl, rfl⟩
  unfold build at h ⊢
  split at h
  next hl =>
    rw [if_pos hl]
    exact add_outline hbare l h
  next => cases h

end RuleTree

end RuleScope
