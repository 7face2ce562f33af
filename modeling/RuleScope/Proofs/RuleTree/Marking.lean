import Mathlib.Logic.Relation
import Mathlib.Tactic.Common
import RuleScope.RuleTree.Build

namespace RuleScope

namespace Node

/-- A node without its mark. -/
def unmarked (n : Node) : Node :=
  match n.content with
  | .imported path diagnostics _ => { n with content := .imported path diagnostics false }
  | .rule _ _ _ => n

@[simp] theorem unmarked_parent (n : Node) : n.unmarked.parent = n.parent := by
  unfold unmarked; split <;> rfl

@[simp] theorem unmarked_children (n : Node) : n.unmarked.children = n.children := by
  unfold unmarked; split <;> rfl

@[simp] theorem unmarked_isImport (n : Node) : n.unmarked.isImport = n.isImport := by
  unfold unmarked
  split
  next h => simp [isImport, h]
  next => rfl

@[simp] theorem unmarked_ruleId? (n : Node) : n.unmarked.ruleId? = n.ruleId? := by
  unfold unmarked
  split
  next h => simp [ruleId?, h]
  next => rfl

@[simp] theorem withRules_unmarked (n : Node) : n.withRules.unmarked = n.unmarked := by
  obtain ⟨label, line, parent, children, content⟩ := n
  cases content <;> rfl

theorem withRules_containsRules (n : Node) : n.withRules.containsRules = n.isImport := by
  obtain ⟨label, line, parent, children, content⟩ := n
  cases content <;> rfl

theorem isImport_of_containsRules {n : Node} (h : n.containsRules = true) : n.isImport = true := by
  obtain ⟨label, line, parent, children, content⟩ := n
  cases content with
  | imported => rfl
  | rule => simp [containsRules] at h

theorem isRule_iff_ruleId? {n : Node} : n.isRule = true ↔ n.ruleId?.isSome := by
  obtain ⟨label, line, parent, children, content⟩ := n
  cases content <;> simp [isRule, isImport, ruleId?]

end Node

namespace RuleTree

/-- The node above a node. -/
def parentIn (nodes : Array Node) (c : Nat) : Option Nat := nodes[c]?.bind Node.parent

/-- `n` is `a` or lies somewhere below it. -/
def WithinIn (nodes : Array Node) (a n : Nat) : Prop :=
  Relation.ReflTransGen (fun p c => parentIn nodes c = some p) a n

/-- Nodes that are alike but for their marks. -/
def AlikeIn (nodes nodes' : Array Node) : Prop :=
  ∀ i : Nat, nodes[i]?.map Node.unmarked = nodes'[i]?.map Node.unmarked

theorem AlikeIn.parentIn {nodes nodes' : Array Node} (h : AlikeIn nodes nodes') :
    parentIn nodes = parentIn nodes' := by
  funext i
  have := congrArg (fun o => o.bind Node.parent) (h i)
  simpa [RuleTree.parentIn, Option.bind_map, Function.comp_def] using this

theorem AlikeIn.withinIn {nodes nodes' : Array Node} (h : AlikeIn nodes nodes') :
    WithinIn nodes = WithinIn nodes' := by
  funext a n
  simp only [WithinIn, h.parentIn]

theorem AlikeIn.isImport {nodes nodes' : Array Node} (h : AlikeIn nodes nodes') (i : Nat) :
    nodes[i]?.any Node.isImport = nodes'[i]?.any Node.isImport := by
  have := congrArg (fun o => o.any Node.isImport) (h i)
  simpa [Option.any_map, Function.comp_def] using this

theorem AlikeIn.size_eq {nodes nodes' : Array Node} (h : AlikeIn nodes nodes') :
    nodes.size = nodes'.size := by
  have none_iff : ∀ i : Nat, nodes[i]? = none ↔ nodes'[i]? = none := by
    intro i
    have := congrArg Option.isNone (h i)
    simp only [Option.isNone_map] at this
    simp only [← Option.isNone_iff_eq_none, this]
  have h₁ := (none_iff nodes'.size).mpr (by simp)
  have h₂ := (none_iff nodes.size).mp (by simp)
  simp only [Array.getElem?_eq_none_iff] at h₁ h₂
  omega

theorem alikeIn_set {nodes : Array Node} {n : Nat} {node node' : Node} (hn : nodes[n]? = some node)
    (h : node'.unmarked = node.unmarked) : AlikeIn (nodes.setIfInBounds n node') nodes := by
  intro i
  by_cases hi : n = i
  · subst i
    obtain ⟨hlt, he⟩ := Array.getElem?_eq_some_iff.mp hn
    simp [hlt, he, h]
  · simp [Array.getElem?_setIfInBounds_ne hi]

theorem withinIn_cases {nodes : Array Node} {a n : Nat} (h : WithinIn nodes a n) :
    a = n ∨ ∃ p, parentIn nodes n = some p ∧ WithinIn nodes a p := by
  cases h with
  | refl => exact Or.inl rfl
  | tail hp h => exact Or.inr ⟨_, h, hp⟩

theorem withinIn_le {nodes : Array Node} (lt : ∀ p c, parentIn nodes c = some p → p < c)
    {a n : Nat} (h : WithinIn nodes a n) : a ≤ n := by
  induction h with
  | refl => exact Nat.le_refl _
  | tail _ h ih => exact Nat.le_trans ih (Nat.le_of_lt (lt _ _ h))

theorem markRules_alike (nodes : Array Node) (n : Nat) : AlikeIn (markRules nodes n) nodes := by
  fun_induction markRules nodes n with
  | case1 => exact fun i => rfl
  | case2 => exact fun i => rfl
  | case3 nodes n node hn hc marked p hp hlt ih =>
    exact fun i => (ih i).trans (alikeIn_set hn (Node.withRules_unmarked node) i)
  | case4 nodes n node hn hc marked p hp hlt =>
    exact alikeIn_set hn (Node.withRules_unmarked node)
  | case5 nodes n node hn hc marked hp => exact alikeIn_set hn (Node.withRules_unmarked node)

theorem marked_set {nodes : Array Node} {n : Nat} {node : Node} (hn : nodes[n]? = some node)
    (i : Nat) :
    (nodes.setIfInBounds n node.withRules)[i]?.any Node.containsRules = true ↔
      nodes[i]?.any Node.containsRules = true ∨ i = n ∧ nodes[i]?.any Node.isImport = true := by
  by_cases hi : n = i
  · subst i
    have hlt : n < nodes.size := (Array.getElem?_eq_some_iff.mp hn).1
    simp only [Array.getElem?_setIfInBounds_self_of_lt hlt, hn, Option.any_some,
      Node.withRules_containsRules, true_and]
    exact ⟨Or.inr, fun h => h.elim Node.isImport_of_containsRules id⟩
  · simp [Array.getElem?_setIfInBounds_ne hi, Ne.symm hi]

/-- Where every marked node up to `n` has its imports above it marked, the climb from `n` marks all
imports at or above `n` and nothing else. -/
theorem markRules_containsRules (nodes : Array Node) (n : Nat)
    (lt : ∀ p c, parentIn nodes c = some p → p < c)
    (closed : ∀ i ≤ n, nodes[i]?.any Node.containsRules = true → ∀ a, WithinIn nodes a i →
      nodes[a]?.any Node.isImport = true → nodes[a]?.any Node.containsRules = true) (i : Nat) :
    (markRules nodes n)[i]?.any Node.containsRules = true ↔
      nodes[i]?.any Node.containsRules = true ∨
        WithinIn nodes i n ∧ nodes[i]?.any Node.isImport = true := by
  fun_induction markRules nodes n with
  | case1 nodes n hn =>
    refine ⟨Or.inl, fun h => h.elim id ?_⟩
    rintro ⟨hw, hi⟩
    rcases withinIn_cases hw with rfl | ⟨p, hp, _⟩
    · simp [hn] at hi
    · simp [parentIn, hn] at hp
  | case2 nodes n node hn hc =>
    refine ⟨Or.inl, fun h => h.elim id ?_⟩
    rintro ⟨hw, hi⟩
    exact closed n (Nat.le_refl n) (by simpa [hn] using hc) i hw hi
  | case3 nodes n node hn hc marked p hp hlt ih =>
    have alike : AlikeIn marked nodes := alikeIn_set hn (Node.withRules_unmarked node)
    have hpn : parentIn nodes n = some p := by simp [parentIn, hn, hp]
    have ih := ih (by rw [alike.parentIn]; exact lt) (by
      intro j hj hm a ha hi
      rw [alike.withinIn] at ha
      rw [alike.isImport] at hi
      have hm := (marked_set hn j).mp hm
      exact (marked_set hn a).mpr (Or.inl (closed j (by omega)
        (hm.resolve_right (by omega)) a ha hi)))
    rw [ih, alike.withinIn, alike.isImport, marked_set hn i]
    constructor
    · rintro ((hm | ⟨rfl, hi⟩) | ⟨hw, hi⟩)
      · exact Or.inl hm
      · exact Or.inr ⟨.refl, hi⟩
      · exact Or.inr ⟨hw.tail hpn, hi⟩
    · rintro (hm | ⟨hw, hi⟩)
      · exact Or.inl (Or.inl hm)
      · rcases withinIn_cases hw with rfl | ⟨q, hq, hw⟩
        · exact Or.inl (Or.inr ⟨rfl, hi⟩)
        · obtain rfl : q = p := Option.some.inj (hq.symm.trans hpn)
          exact Or.inr ⟨hw, hi⟩
  | case4 nodes n node hn hc marked p hp hlt =>
    exact absurd (lt p n (by simp [parentIn, hn, hp])) hlt
  | case5 nodes n node hn hc marked hp =>
    rw [marked_set hn i]
    refine or_congr_right ⟨fun ⟨h, hi⟩ => ⟨h ▸ .refl, hi⟩, fun ⟨hw, hi⟩ => ⟨?_, hi⟩⟩
    rcases withinIn_cases hw with rfl | ⟨q, hq, _⟩
    · rfl
    · simp [parentIn, hn, hp] at hq

end RuleTree

end RuleScope
