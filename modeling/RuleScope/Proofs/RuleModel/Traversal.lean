import RuleScope.Proofs.RuleModel.Runs

namespace RuleScope

namespace RuleTree

/-- The loop before a round: the stack, and the nodes that are complete. -/
structure Traversal where
  stack : List (Nat × Bool)
  out : List Nat

/-- A round takes up the node on top of the stack; on an empty stack there is none. -/
def Traversal.next? (t : RuleTree) (s : Traversal) : Option Traversal :=
  match s.stack with
  | [] => none
  | (n, true) :: stack => some ⟨stack, s.out ++ [n]⟩
  | (n, false) :: stack => some ⟨(t.children n).map (·, false) ++ (n, true) :: stack, s.out⟩

/-- So many rounds lead from one state of the loop to the other. -/
inductive Rounds (t : RuleTree) : Nat → Traversal → Traversal → Prop where
  | none (s : Traversal) : Rounds t 0 s s
  | more {k : Nat} {s s' s'' : Traversal} (first : s.next? t = some s') (rest : Rounds t k s' s'') :
    Rounds t (k + 1) s s''

/-- `f` lists each node behind what it lists of the node's children, in their order. -/
def ListsLeavesFirst (t : RuleTree) (f : Nat → List Nat) : Prop :=
  ∀ n < t.size, f n = (t.children n).flatMap f ++ [n]

/-- Working a stack off makes rounds, until the stack is empty or as many as allowed are made. -/
theorem exists_rounds_unstack (t : RuleTree) (fuel : Nat) (stack : List (Nat × Bool))
    (out : List Nat) : ∃ k left, t.Rounds k ⟨stack, out⟩ ⟨left, t.unstack fuel stack out⟩ ∧
      (left = [] ∨ k = fuel) := by
  induction fuel generalizing stack out with
  | zero => exact ⟨0, stack, by simpa [unstack] using Rounds.none _, .inr rfl⟩
  | succ fuel ih =>
    cases stack with
    | nil => exact ⟨0, [], by simpa [unstack] using Rounds.none _, .inl rfl⟩
    | cons e stack =>
      obtain ⟨n, _ | _⟩ := e
      · obtain ⟨k, left, hrounds, hend⟩ :=
          ih ((t.children n).map (·, false) ++ (n, true) :: stack) out
        exact ⟨k + 1, left, .more rfl hrounds, hend.imp_right (congrArg (· + 1))⟩
      · obtain ⟨k, left, hrounds, hend⟩ := ih stack (out ++ [n])
        exact ⟨k + 1, left, .more rfl hrounds, hend.imp_right (congrArg (· + 1))⟩

section

variable {t : RuleTree} (wf : t.WellFormed)
include wf

/-- A round does one part of the work. -/
theorem work_next? {s s' : Traversal} (h : s.next? t = some s') :
    t.work s'.stack + 1 = t.work s.stack := by
  obtain ⟨stack, out⟩ := s
  match stack with
  | [] => cases h
  | (n, true) :: stack =>
    cases h
    rw [work, visits, Nat.add_comm]
  | (n, false) :: stack =>
    cases h
    have hopen := work_open wf n
    rw [List.append_cons, work_append, work]
    omega

theorem work_rounds {k : Nat} {s s' : Traversal} (h : t.Rounds k s s') :
    t.work s'.stack + k = t.work s.stack := by
  induction h with
  | none => rfl
  | more first _ ih =>
    have := work_next? wf first
    omega

/-- Without work left the stack is empty. -/
theorem eq_nil_of_work {stack : List (Nat × Bool)} (h : t.work stack = 0) : stack = [] := by
  cases stack with
  | nil => rfl
  | cons e stack =>
    have := visits_pos wf e
    rw [work] at h
    omega

/-- With as many rounds as there is work, the stack is empty and its nodes are listed. -/
theorem rounds_listed (stack : List (Nat × Bool)) (out : List Nat) :
    t.Rounds (t.work stack) ⟨stack, out⟩ ⟨[], out ++ stack.flatMap t.listed⟩ := by
  obtain ⟨k, left, hrounds, hend⟩ := exists_rounds_unstack t (t.work stack) stack out
  have hwork : t.work left + k = t.work stack := work_rounds wf hrounds
  have hleft : left = [] := by
    rcases hend with hleft | hk
    · exact hleft
    · exact eq_nil_of_work wf (by omega)
  subst hleft
  have hk : k = t.work stack := by simpa [work] using hwork
  rwa [hk, unstack_eq wf _ stack out (Nat.le_refl _)] at hrounds

theorem rounds_postOrder {n : Nat} (hn : n < t.size) :
    t.Rounds (2 * (t.postOrder n).length) ⟨[(n, false)], []⟩ ⟨[], t.postOrder n⟩ := by
  rw [postOrder_eq_subtree wf hn]
  simpa [work, visits, listed] using rounds_listed wf [(n, false)] []

theorem postOrder_listsLeavesFirst : t.ListsLeavesFirst t.postOrder := by
  intro n hn
  rw [postOrder_eq_subtree wf hn, subtree_eq wf]
  congr 1
  refine List.flatMap_congr fun c hc => ?_
  rw [postOrder_eq_subtree wf (wf.lt_size_of_mem_children hc)]

/-- There is one traversal only. -/
theorem ListsLeavesFirst.eq_postOrder {f : Nat → List Nat} (h : t.ListsLeavesFirst f) {n : Nat}
    (hn : n < t.size) : f n = t.postOrder n := by
  induction n using wf.leavesFirst with
  | step n ih =>
    rw [h n hn, postOrder_listsLeavesFirst wf n hn]
    congr 1
    exact List.flatMap_congr fun c hc => ih c hc (wf.lt_size_of_mem_children hc)

/-- What is listed of a node below is a block of the listing. -/
theorem subtree_contiguous {n p : Nat} (h : t.Within n p) : t.subtree p <:+: t.subtree n := by
  induction h using Relation.ReflTransGen.head_induction_on with
  | refl => exact List.infix_rfl
  | @head a c hparent _ ih =>
    have hc : t.subtree c ∈ (t.children a).map t.subtree :=
      List.mem_map_of_mem ((wf.mem_children_iff a c).mpr hparent)
    refine ih.trans ?_
    rw [subtree_eq wf a, List.flatMap_def]
    exact (List.infix_of_mem_flatten hc).trans (List.prefix_append _ _).isInfix

omit wf in
theorem sublist_flatMap {f : Nat → List Nat} {ns : List Nat} (h : ∀ n ∈ ns, n ∈ f n) :
    ns.Sublist (ns.flatMap f) := by
  induction ns with
  | nil => exact List.Sublist.slnil
  | cons n ns ih =>
    have hn : [n].Sublist (f n) := List.singleton_sublist.mpr (h n List.mem_cons_self)
    exact hn.append (ih fun m hm => h m (List.mem_cons_of_mem n hm))

/-- Siblings are listed in their order. -/
theorem children_sublist_subtree {n p : Nat} (h : t.Within n p) :
    (t.children p).Sublist (t.subtree n) := by
  have hself : ∀ c ∈ t.children p, c ∈ t.subtree c := fun c _ => (mem_subtree_iff wf).mpr .refl
  have hblock : (t.children p).Sublist (t.subtree p) := by
    rw [subtree_eq wf p]
    exact (sublist_flatMap hself).trans (List.sublist_append_left _ _)
  exact hblock.trans (subtree_contiguous wf h).sublist

end

end RuleTree

namespace RuleModel

open RuleTree

/-- For every node of a built model, the loop empties its stack after two rounds for each node at or
below it, and no run of the loop is longer. It lists these nodes, each once, as the recursive traversal
does; so a node comes behind all that lie below it, and siblings come in their order. -/
theorem build_postOrder_traverses {resolve : String → AbsPath} {sourceRoot : String} {l : Location}
    {m : RuleModel} (h : build resolve sourceRoot l = .ok m) {n : Nat} (hn : n < m.tree.size) :
    m.tree.Rounds (2 * (m.tree.postOrder n).length) ⟨[(n, false)], []⟩ ⟨[], m.tree.postOrder n⟩ ∧
      (∀ k s, m.tree.Rounds k ⟨[(n, false)], []⟩ s → k ≤ 2 * (m.tree.postOrder n).length) ∧
      (∀ a, a ∈ m.tree.postOrder n ↔ m.tree.Within n a) ∧ (m.tree.postOrder n).Nodup ∧
      m.tree.ListsLeavesFirst m.tree.postOrder ∧
      (∀ f, m.tree.ListsLeavesFirst f → f n = m.tree.postOrder n) ∧
      (m.tree.postOrder n).Pairwise (fun a b => ¬ m.tree.Within a b) ∧
      ∀ p, m.tree.Within n p → (m.tree.children p).Sublist (m.tree.postOrder n) := by
  have wf := (build_consistent h).wellFormed
  have heq := postOrder_eq_subtree wf hn
  refine ⟨rounds_postOrder wf hn, fun k s hs => ?_, fun a => ?_, ?_, postOrder_listsLeavesFirst wf,
    fun f hf => hf.eq_postOrder wf hn, ?_, fun p hp => ?_⟩
  · have hwork := work_rounds wf hs
    rw [heq]
    simp only [work, visits] at hwork
    omega
  · rw [heq]
    exact mem_subtree_iff wf
  · rw [heq]
    exact subtree_nodup wf n
  · rw [heq]
    exact subtree_leavesFirst wf n
  · rw [heq]
    exact children_sublist_subtree wf hp

theorem build_nested_postOrder_traverses : ∃ m,
    build (AbsPath.lexical AbsPath.root) "/src" nestedLocation = .ok m ∧ 0 < m.tree.size ∧
      m.tree.postOrder 0 = [4, 3, 2, 1, 5, 0] ∧
      m.tree.Rounds 12 ⟨[(0, false)], []⟩ ⟨[], [4, 3, 2, 1, 5, 0]⟩ ∧
      (m.tree.children 0).Sublist [4, 3, 2, 1, 5, 0] := by
  obtain ⟨m, hm⟩ := exists_build_nestedLocation
  have seen : ((build (AbsPath.lexical AbsPath.root) "/src" nestedLocation).toOption.map fun m =>
      (m.tree.size, m.tree.postOrder 0)) = some (6, [4, 3, 2, 1, 5, 0]) := by
    decide +kernel
  rw [hm] at seen
  obtain ⟨hsize, horder⟩ := Prod.mk.inj (Option.some.inj seen)
  have hpos : 0 < m.tree.size := by omega
  obtain ⟨hrounds, -, -, -, -, -, -, hsiblings⟩ := build_postOrder_traverses hm hpos
  rw [horder] at hrounds hsiblings
  exact ⟨m, hm, hpos, horder, hrounds, hsiblings 0 .refl⟩

end RuleModel

end RuleScope
