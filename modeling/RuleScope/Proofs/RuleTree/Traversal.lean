import Mathlib.Data.List.Perm.Subperm
import RuleScope.Proofs.RuleTree.WellFormed
import RuleScope.RuleTree.Order

namespace RuleScope.RuleTree

section

variable {t : RuleTree}

namespace WellFormed

variable (wf : t.WellFormed)
include wf

theorem lt_of_mem_children {p c : Nat} (h : c ∈ t.children p) : p < c :=
  wf.sound.parent_lt p c ((wf.mem_children_iff p c).mp h)

theorem lt_size_of_mem_children {p c : Nat} (h : c ∈ t.children p) : c < t.size :=
  lt_size_of_parent? ((wf.mem_children_iff p c).mp h)

theorem within_of_mem_children {p c : Nat} (h : c ∈ t.children p) : t.Within p c :=
  Relation.ReflTransGen.single ((wf.mem_children_iff p c).mp h)

omit wf in
/-- Of two nodes above a node, one is above the other. -/
theorem within_or_within {a b n : Nat} (ha : t.Within a n) (hb : t.Within b n) :
    t.Within a b ∨ t.Within b a := by
  induction ha with
  | refl => exact Or.inr hb
  | @tail p c ha hp ih =>
    rcases withinIn_cases hb with rfl | ⟨q, hq, hbq⟩
    · exact Or.inl (ha.tail hp)
    · obtain rfl : q = p := Option.some.inj (hq.symm.trans hp)
      exact ih hbq

/-- Siblings have no common node below them. -/
theorem eq_of_within {p c d n : Nat} (hc : c ∈ t.children p) (hd : d ∈ t.children p)
    (hcn : t.Within c n) (hdn : t.Within d n) : c = d := by
  have key : ∀ {c d : Nat}, c ∈ t.children p → d ∈ t.children p → t.Within c d → c = d := by
    intro c d hc hd h
    rcases withinIn_cases h with rfl | ⟨q, hq, hcq⟩
    · rfl
    · obtain rfl : q = p := Option.some.inj (hq.symm.trans ((wf.mem_children_iff p d).mp hd))
      have := le_of_within wf.sound hcq
      have := wf.lt_of_mem_children hc
      omega
  rcases within_or_within hcn hdn with h | h
  · exact key hc hd h
  · exact (key hd hc h).symm

theorem within_cases_down {a n : Nat} (h : t.Within a n) :
    n = a ∨ ∃ c ∈ t.children a, t.Within c n := by
  rcases Relation.ReflTransGen.cases_head h with h | ⟨c, hc, hw⟩
  · exact Or.inl h.symm
  · exact Or.inr ⟨c, (wf.mem_children_iff a c).mpr hc, hw⟩

omit wf in
theorem lt_size_of_within {a n : Nat} (ha : a < t.size) (h : t.Within a n) : n < t.size := by
  rcases withinIn_cases h with rfl | ⟨p, hp, _⟩
  · exact ha
  · exact lt_size_of_parent? hp

end WellFormed

end

/-- The nodes at or below `n`, from the leaves up, siblings in order. -/
def subtree (t : RuleTree) (n : Nat) : List Nat :=
  ((t.children n).flatMap fun c => if n < c ∧ c < t.size then t.subtree c else []) ++ [n]
termination_by t.size - n

def listed (t : RuleTree) : Nat × Bool → List Nat
  | (n, true) => [n]
  | (n, false) => t.subtree n

def visits (t : RuleTree) : Nat × Bool → Nat
  | (_, true) => 1
  | (n, false) => 2 * (t.subtree n).length

def work (t : RuleTree) : List (Nat × Bool) → Nat
  | [] => 0
  | e :: rest => t.visits e + t.work rest

theorem work_append (t : RuleTree) (stack more : List (Nat × Bool)) :
    t.work (stack ++ more) = t.work stack + t.work more := by
  induction stack with
  | nil => simp [work]
  | cons e rest ih =>
    rw [List.cons_append, work, work, ih]
    omega

section

variable {t : RuleTree} (wf : t.WellFormed)
include wf

theorem subtree_eq (n : Nat) : t.subtree n = (t.children n).flatMap t.subtree ++ [n] := by
  rw [subtree]
  congr 1
  refine List.flatMap_congr ?_
  intro c hc
  rw [if_pos ⟨wf.lt_of_mem_children hc, wf.lt_size_of_mem_children hc⟩]

theorem WellFormed.leavesFirst {P : Nat → Prop} (step : ∀ n, (∀ c ∈ t.children n, P c) → P n)
    (n : Nat) : P n := by
  by_cases hn : n < t.size
  · exact step n fun c hc =>
      have := wf.lt_of_mem_children hc
      have := wf.lt_size_of_mem_children hc
      WellFormed.leavesFirst step c
  · refine step n fun c hc => ?_
    have := wf.lt_of_mem_children hc
    have := wf.lt_size_of_mem_children hc
    omega
termination_by t.size - n

theorem mem_subtree_iff {a n : Nat} : n ∈ t.subtree a ↔ t.Within a n := by
  induction a using wf.leavesFirst with
  | step a ih =>
    rw [subtree_eq wf, List.mem_append, List.mem_flatMap, List.mem_singleton]
    constructor
    · rintro (⟨c, hc, hn⟩ | rfl)
      · exact (wf.within_of_mem_children hc).trans ((ih c hc).mp hn)
      · exact .refl
    · intro h
      rcases wf.within_cases_down h with rfl | ⟨c, hc, hw⟩
      · exact Or.inr rfl
      · exact Or.inl ⟨c, hc, (ih c hc).mpr hw⟩

/-- Different siblings list different nodes. -/
theorem pairwise_siblings (p : Nat) {R : Nat → Nat → Prop}
    (apart : ∀ c ∈ t.children p, ∀ d ∈ t.children p, c ≠ d → ∀ x, t.Within c x → ∀ y, t.Within d y →
      R x y) :
    (t.children p).Pairwise fun c d => ∀ x ∈ t.subtree c, ∀ y ∈ t.subtree d, R x y := by
  refine (wf.children_sorted p).imp_of_mem fun {c d} hc hd hlt x hx y hy => ?_
  exact apart c hc d hd (Nat.ne_of_lt hlt) x ((mem_subtree_iff wf).mp hx) y
    ((mem_subtree_iff wf).mp hy)

theorem subtree_nodup (n : Nat) : (t.subtree n).Nodup := by
  induction n using wf.leavesFirst with
  | step n ih =>
    rw [subtree_eq wf, List.nodup_append]
    refine ⟨List.pairwise_flatMap.mpr ⟨ih, pairwise_siblings wf n ?_⟩, by simp, ?_⟩
    · rintro c hc d hd hne x hx y hy rfl
      exact hne (wf.eq_of_within hc hd hx hy)
    · intro x hx y hy
      obtain ⟨c, hc, hx⟩ := List.mem_flatMap.mp hx
      have := le_of_within wf.sound ((mem_subtree_iff wf).mp hx)
      have := wf.lt_of_mem_children hc
      have := List.mem_singleton.mp hy
      omega

/-- No node comes before one that lies below it. -/
theorem subtree_leavesFirst (n : Nat) : (t.subtree n).Pairwise fun a b => ¬ t.Within a b := by
  induction n using wf.leavesFirst with
  | step n ih =>
    rw [subtree_eq wf, List.pairwise_append]
    refine ⟨List.pairwise_flatMap.mpr ⟨ih, pairwise_siblings wf n ?_⟩, by simp, ?_⟩
    · intro c hc d hd hne x hx y hy hxy
      exact hne (wf.eq_of_within hc hd (hx.trans hxy) hy)
    · intro x hx y hy hxy
      obtain rfl := List.mem_singleton.mp hy
      obtain ⟨c, hc, hx⟩ := List.mem_flatMap.mp hx
      have := le_of_within wf.sound ((mem_subtree_iff wf).mp hx)
      have := wf.lt_of_mem_children hc
      have := le_of_within wf.sound hxy
      omega

theorem subtree_childrenFirst (n : Nat) :
    (t.subtree n).Pairwise fun a b => t.parent? b ≠ some a :=
  (subtree_leavesFirst wf n).imp fun hab hpar => hab (.single hpar)

theorem subtree_length_le {n : Nat} (hn : n < t.size) : (t.subtree n).length ≤ t.size := by
  have hsub : t.subtree n ⊆ List.range t.size := fun m hm =>
    List.mem_range.mpr (WellFormed.lt_size_of_within hn ((mem_subtree_iff wf).mp hm))
  simpa using (List.Nodup.subperm (subtree_nodup wf n) hsub).length_le

theorem visits_pos (e : Nat × Bool) : 0 < t.visits e := by
  obtain ⟨n, _ | _⟩ := e
  · simp [visits, subtree_eq wf n]
  · simp [visits]

theorem listed_open (n : Nat) :
    ((t.children n).map (·, false) ++ [(n, true)]).flatMap t.listed = t.listed (n, false) := by
  simp [listed, subtree_eq wf n, List.flatMap_map]

theorem work_open (n : Nat) :
    t.work ((t.children n).map (·, false) ++ [(n, true)]) + 1 = t.visits (n, false) := by
  have twice : ∀ cs : List Nat, t.work (cs.map (·, false)) = 2 * (cs.flatMap t.subtree).length := by
    intro cs
    induction cs with
    | nil => rfl
    | cons c rest ih =>
      rw [List.map_cons, work, visits, ih, List.flatMap_cons, List.length_append]
      omega
  have one : t.work [(n, true)] = 1 := rfl
  rw [work_append, twice, one, visits, subtree_eq wf n, List.length_append, List.length_singleton]
  omega

/-- Working a stack off lists what its nodes list. -/
theorem unstack_eq (fuel : Nat) (stack : List (Nat × Bool)) (out : List Nat)
    (h : t.work stack ≤ fuel) : t.unstack fuel stack out = out ++ stack.flatMap t.listed := by
  induction fuel generalizing stack out with
  | zero =>
    cases stack with
    | nil => simp [unstack]
    | cons e rest =>
      have := visits_pos wf e
      rw [work] at h
      omega
  | succ fuel ih =>
    cases stack with
    | nil => simp [unstack]
    | cons e rest =>
      obtain ⟨n, _ | _⟩ := e
      · have hopen := work_open wf n
        rw [work] at h
        rw [unstack, List.append_cons, ih, List.flatMap_append, listed_open wf, List.flatMap_cons]
        rw [work_append]
        omega
      · rw [work, visits] at h
        rw [unstack, ih rest (out ++ [n]) (by omega), List.append_assoc]
        rfl

theorem postOrder_eq_subtree {n : Nat} (hn : n < t.size) : t.postOrder n = t.subtree n := by
  have hlen := subtree_length_le wf hn
  rw [postOrder, if_pos hn, unstack_eq wf]
  · simp [listed]
  · rw [work, work, visits]
    omega

end

end RuleScope.RuleTree
