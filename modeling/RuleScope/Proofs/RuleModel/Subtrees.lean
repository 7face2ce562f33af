import RuleScope.Proofs.RuleModel.Determined
import RuleScope.Proofs.RuleModel.Notices

namespace RuleScope

open RuleTree

namespace RuleModel

variable {m : RuleModel}

/-- The rules of the subtree of `n` hold `s`. -/
def HoldsWithin (m : RuleModel) (n : Nat) (s : LoggingState) : Prop :=
  ∀ r, m.tree.isRule r = true → m.tree.Within n r → m.state r = s

/-- A sweep reaches the node from which it starts and, if that is an import, all rules below it. -/
theorem setAllBelow_state (h : m.Consistent) {n : Nat} (hn : n < m.tree.size) {s : LoggingState}
    (hs : s ∈ LoggingState.selectable) [DecidablePred (m.tree.Below n)] :
    ∃ u, m.setAllBelow n s = .ok u ∧ u.From m ∧ ∀ r, m.tree.isRule r = true →
      u.model.state r = if r = n ∨ m.tree.isImport n = true ∧ m.tree.Below n r then s
        else m.state r := by
  by_cases hi : m.tree.isImport n = true
  · obtain ⟨u, hu, hfrom, hstate⟩ := setAllBelow_rules h hi hs
    refine ⟨u, hu, hfrom, fun r hr => ?_⟩
    have hne : r ≠ n := by
      rintro rfl
      simp [isImport_eq_false_of_isRule hr] at hi
    simp only [hstate r hr, hne, hi, true_and, false_or]
  · have hrule : m.tree.isRule n = true := isRule_of_not_isImport hn (by simpa using hi)
    obtain ⟨u, hu, -, -, hstate⟩ := setState_rule h hrule hs
    refine ⟨u, hu, setAllBelow_from h hu, fun r hr => ?_⟩
    simp [hstate r hr, hi]

/-- After any run on a built model, every node can be set with all that lies below it, and no rule
outside its subtree changes. Of an import, all rules of the subtree hold the state then. Of a rule, the
rule alone is set: all rules of its subtree hold the state exactly if those below it held it before. -/
theorem build_run_setAllBelow_reaches_iff {resolve : String → AbsPath} {sourceRoot : String}
    {l : Location} {m₀ : RuleModel} (h : build resolve sourceRoot l = .ok m₀)
    (actions : List Action) {n : Nat} (hn : n < m₀.tree.size) {s : LoggingState}
    (hs : s ∈ LoggingState.selectable) :
    ∃ u, (m₀.run actions).setAllBelow n s = .ok u ∧ u.model.tree = m₀.tree ∧
      (∀ r, m₀.tree.isRule r = true → ¬ m₀.tree.Within n r →
        u.model.state r = (m₀.run actions).state r) ∧
      (m₀.tree.isImport n = true → u.model.HoldsWithin n s) ∧
      (m₀.tree.isRule n = true → u.model.state n = s ∧
        ∀ r, m₀.tree.isRule r = true → r ≠ n → u.model.state r = (m₀.run actions).state r) ∧
      (u.model.HoldsWithin n s ↔ (m₀.tree.isRule n = true →
        ∀ r, m₀.tree.isRule r = true → m₀.tree.Below n r → (m₀.run actions).state r = s)) := by
  classical
  obtain ⟨hc, htree⟩ := run_consistent (build_consistent h) actions
  have wf : m₀.tree.WellFormed := (build_consistent h).wellFormed
  obtain ⟨u, hu, hfrom, hstate⟩ := setAllBelow_state hc (htree ▸ hn) hs
  have htree' : u.model.tree = m₀.tree := hfrom.tree_eq.trans htree
  rw [htree] at hstate
  have imported : m₀.tree.isImport n = true → u.model.HoldsWithin n s := by
    intro hi r hr hw
    rw [htree'] at hr hw
    rw [hstate r hr, if_pos]
    by_cases hrn : n = r
    · exact .inl hrn.symm
    · exact .inr ⟨hi, below_of_within (m := m₀) wf hw hrn⟩
  have alone : m₀.tree.isRule n = true → u.model.state n = s ∧
      ∀ r, m₀.tree.isRule r = true → r ≠ n → u.model.state r = (m₀.run actions).state r := by
    intro hrule
    have hi := isImport_eq_false_of_isRule hrule
    exact ⟨by rw [hstate n hrule, if_pos (.inl rfl)], fun r hr hne => by
      rw [hstate r hr, if_neg (by simp [hne, hi])]⟩
  refine ⟨u, hu, htree', fun r hr hout => ?_, imported, alone, fun hall hrule r hr hb => ?_,
    fun hbelow => ?_⟩
  · rw [hstate r hr, if_neg]
    rintro (rfl | ⟨-, hb⟩)
    · exact hout .refl
    · exact hout (within_of_below (m := m₀) wf hb)
  · have hne : r ≠ n := by
      rintro rfl
      exact not_below_self (m := m₀) wf r hb
    rw [← (alone hrule).2 r hr hne]
    exact hall r (htree' ▸ hr) (htree' ▸ within_of_below (m := m₀) wf hb)
  · by_cases hi : m₀.tree.isImport n = true
    · exact imported hi
    · have hrule : m₀.tree.isRule n = true := isRule_of_not_isImport hn (by simpa using hi)
      intro r hr hw
      rw [htree'] at hr hw
      by_cases hrn : n = r
      · exact hrn ▸ (alone hrule).1
      · rw [(alone hrule).2 r hr (Ne.symm hrn)]
        exact hbelow hrule r hr (below_of_within (m := m₀) wf hw hrn)

/-- A rule with a clause, which is a rule below it. -/
def clauseLocation : Location :=
  ⟨"main", 0, .imported none [], [
    ⟨"rate", 0, .rule ⟨1, by decide, by decide⟩ "" [], [
      ⟨"low", 0, .rule ⟨2, by decide, by decide⟩ "" [], []⟩]⟩]⟩

theorem exists_build_clauseLocation :
    ∃ m, build (AbsPath.lexical AbsPath.root) "/project" clauseLocation = .ok m := ⟨_, rfl⟩

/-- From the root on, the clause is set with the rule. -/
theorem build_clause_setAllBelow_reaches : ∃ m u,
    build (AbsPath.lexical AbsPath.root) "/project" clauseLocation = .ok m ∧
      (m.run [.edit (.setState 2 .ifTrue)]).setAllBelow 0 .always = .ok u ∧
      u.model.HoldsWithin 0 .always := by
  obtain ⟨m, h⟩ := exists_build_clauseLocation
  have facts : (build (AbsPath.lexical AbsPath.root) "/project" clauseLocation).toOption.map
      (fun m => decide (0 < m.tree.size ∧ m.tree.isImport 0 = true)) = some true := by
    decide +kernel
  rw [h] at facts
  obtain ⟨hsize, hroot⟩ := of_decide_eq_true (Option.some.inj facts)
  obtain ⟨u, hu, -, -, himport, -⟩ := build_run_setAllBelow_reaches_iff h
    [.edit (.setState 2 .ifTrue)] hsize (s := .always) (by decide)
  exact ⟨m, u, h, hu, himport hroot⟩

/-- From the rule on, the clause stays as it is. -/
theorem not_setAllBelow_reaches_clause : ∃ m u,
    build (AbsPath.lexical AbsPath.root) "/project" clauseLocation = .ok m ∧
      m.setAllBelow 1 .always = .ok u ∧ m.tree.isRule 2 = true ∧ m.tree.Below 1 2 ∧
      u.model.state 2 = .never ∧ ¬ u.model.HoldsWithin 1 .always := by
  obtain ⟨m, h⟩ := exists_build_clauseLocation
  have facts : (build (AbsPath.lexical AbsPath.root) "/project" clauseLocation).toOption.bind
      (fun m : RuleModel => (m.setAllBelow 1 .always).toOption.map fun u =>
        decide (m.tree.isRule 2 = true ∧ 2 ∈ m.tree.children 1 ∧ u.model.tree.isRule 2 = true ∧
          u.model.tree.parent? 2 = some 1 ∧ u.model.state 2 = .never)) = some true := by
    decide +kernel
  rw [h] at facts
  obtain ⟨u, hu, facts⟩ := Option.map_eq_some_iff.mp facts
  obtain ⟨hrule, hchild, hrule', hparent, hstate⟩ := of_decide_eq_true facts
  refine ⟨m, u, h, eq_ok_of_toOption hu, hrule, .single hchild, hstate, fun hall => ?_⟩
  have held := hall 2 hrule' (.single hparent)
  rw [hstate] at held
  cases held

end RuleModel

end RuleScope
