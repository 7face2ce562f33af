import Mathlib.Data.List.Nodup
import RuleScope.Proofs.RuleTree.Traversal
import RuleScope.RuleTree.Lookup

namespace RuleScope.RuleTree

def label? (t : RuleTree) (n : Nat) : Option String := (t.node? n).map Node.label

/-- No two children of a node have the same label. -/
def DistinctLabels (t : RuleTree) : Prop := ∀ n < t.size, ((t.children n).map t.label?).Nodup

instance (t : RuleTree) : Decidable t.DistinctLabels :=
  inferInstanceAs (Decidable (∀ n < t.size, ((t.children n).map t.label?).Nodup))

variable {t : RuleTree}

theorem label?_isSome {n : Nat} (hn : n < t.size) : (t.label? n).isSome := by
  simp [label?, node?, Array.getElem?_eq_getElem hn]

theorem below?_append (n : Nat) (front rest : List String) :
    t.below? n (front ++ rest) = (t.below? n front).bind fun m => t.below? m rest := by
  induction front generalizing n with
  | nil => rfl
  | cons label front ih =>
    simp only [List.cons_append, below?]
    cases t.childNamed? n label with
    | none => rfl
    | some c => exact ih c

theorem mem_children_of_childNamed? {p c : Nat} {label : String}
    (h : t.childNamed? p label = some c) : c ∈ t.children p ∧ t.label? c = some label :=
  ⟨List.mem_of_find?_eq_some h, by simpa [label?] using List.find?_some h⟩

/-- Among children with different labels a label finds its only bearer. -/
theorem childNamed?_of_mem {p c : Nat} {label : String} (distinct : ((t.children p).map t.label?).Nodup)
    (hc : c ∈ t.children p) (hl : t.label? c = some label) : t.childNamed? p label = some c := by
  cases hf : t.childNamed? p label with
  | none =>
    have := List.find?_eq_none.mp hf c hc
    simp only [label?] at hl
    simp [hl] at this
  | some d =>
    obtain ⟨hd, hld⟩ := mem_children_of_childNamed? hf
    rw [List.inj_on_of_nodup_map distinct hd hc (hld.trans hl.symm)]

namespace WellFormed

variable (wf : t.WellFormed)
include wf

theorem size_pos : root < t.size := lt_size_of_isImport wf.root_isImport

theorem root_or_child {n : Nat} (hn : n < t.size) : n = root ∨
    ∃ p label, p < n ∧ t.parent? n = some p ∧ t.label? n = some label := by
  rcases Nat.eq_zero_or_pos n with h | hpos
  · exact Or.inl h
  · obtain ⟨p, hp⟩ := Option.isSome_iff_exists.mp (wf.parent?_isSome n hpos hn)
    obtain ⟨label, hl⟩ := Option.isSome_iff_exists.mp (label?_isSome hn)
    exact Or.inr ⟨p, label, wf.sound.parent_lt p n hp, hp, hl⟩

theorem lineage_root : t.lineage root = [root] := by
  have habove : t.above? root = none := by
    have hp : (t.node? root).bind Node.parent = none := wf.root_parent?
    simp only [above?, hp]
  rw [lineage, habove]

theorem lineage_child {p c : Nat} (h : t.parent? c = some p) : t.lineage c = c :: t.lineage p := by
  have hlt : p < c := wf.sound.parent_lt p c h
  have habove : t.above? c = some ⟨p, hlt⟩ := by
    have hp : (t.node? c).bind Node.parent = some p := h
    simp only [above?, hp, dif_pos hlt]
  rw [lineage, habove]

theorem labelPath_root : t.labelPath root = [t.rootLabel] := by
  obtain ⟨label, hl⟩ := Option.isSome_iff_exists.mp (label?_isSome wf.size_pos)
  unfold label? at hl
  simp [labelPath, wf.lineage_root, hl, rootLabel]

theorem labelPath_child {p c : Nat} {label : String} (h : t.parent? c = some p)
    (hl : t.label? c = some label) : t.labelPath c = t.labelPath p ++ [label] := by
  unfold label? at hl
  simp [labelPath, wf.lineage_child h, hl]

/-- The root is a node's only ancestor without a parent, so every path starts with its label. -/
theorem labelPath_eq_cons {n : Nat} (hn : n < t.size) :
    t.labelPath n = t.rootLabel :: (t.labelPath n).drop 1 := by
  induction n using Nat.strongRecOn with
  | ind n ih =>
    rcases wf.root_or_child hn with rfl | ⟨p, label, hlt, hp, hl⟩
    · simp [wf.labelPath_root]
    · rw [wf.labelPath_child hp hl, ih p hlt (Nat.lt_trans hlt hn)]
      simp

/-- Following labels down from a node makes its path longer by these labels. -/
theorem labelPath_of_below? {n c : Nat} {labels : List String} (hn : n < t.size)
    (h : t.below? n labels = some c) : c < t.size ∧ t.labelPath c = t.labelPath n ++ labels := by
  induction labels generalizing n with
  | nil =>
    cases h
    exact ⟨hn, by simp⟩
  | cons label rest ih =>
    obtain ⟨d, hd, hrest⟩ := Option.bind_eq_some_iff.mp h
    obtain ⟨hmem, hl⟩ := mem_children_of_childNamed? hd
    have hpath := wf.labelPath_child ((wf.mem_children_iff n d).mp hmem) hl
    obtain ⟨hc, he⟩ := ih (wf.lt_size_of_mem_children hmem) hrest
    exact ⟨hc, by rw [he, hpath, List.append_assoc, List.singleton_append]⟩

theorem at?_labelPath (distinct : t.DistinctLabels) {n : Nat} (hn : n < t.size) :
    t.at? ((t.labelPath n).drop 1) = some n := by
  induction n using Nat.strongRecOn with
  | ind n ih =>
    rcases wf.root_or_child hn with rfl | ⟨p, label, hlt, hp, hl⟩
    · simp [wf.labelPath_root, at?, below?]
    · have hps := Nat.lt_trans hlt hn
      have hdrop : (t.labelPath n).drop 1 = (t.labelPath p).drop 1 ++ [label] := by
        rw [wf.labelPath_child hp hl, wf.labelPath_eq_cons hps]
        simp
      have hnamed := childNamed?_of_mem (distinct p hps) ((wf.mem_children_iff p n).mpr hp) hl
      have hat : t.below? root ((t.labelPath p).drop 1) = some p := ih p hlt hps
      rw [hdrop, at?, below?_append, hat, Option.bind_some, below?, hnamed]
      rfl

/-- With distinct sibling labels, label paths and nodes correspond. -/
theorem at?_eq_some_iff (distinct : t.DistinctLabels) {n : Nat} {labels : List String} :
    t.at? labels = some n ↔ n < t.size ∧ (t.labelPath n).drop 1 = labels := by
  constructor
  · intro h
    obtain ⟨hn, hp⟩ := wf.labelPath_of_below? wf.size_pos h
    exact ⟨hn, by simp [hp, wf.labelPath_root]⟩
  · rintro ⟨hn, rfl⟩
    exact wf.at?_labelPath distinct hn

end WellFormed

end RuleScope.RuleTree
