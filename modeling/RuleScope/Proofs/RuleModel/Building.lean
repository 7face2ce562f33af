import RuleScope.Proofs.RuleModel.Runs
import RuleScope.Proofs.RuleTree.Numbering

namespace RuleScope.RuleModel

open RuleTree

section

variable {resolve : String → AbsPath} {sourceRoot : String} {l : Location}

theorem build_eq_error_iff {e : BuildFault} :
    build resolve sourceRoot l = .error e ↔ RuleTree.build resolve sourceRoot l = .error e := by
  rw [build]
  cases RuleTree.build resolve sourceRoot l <;> simp [Except.map]

theorem exists_build_iff :
    (∃ m, build resolve sourceRoot l = .ok m) ↔ ∃ t, RuleTree.build resolve sourceRoot l = .ok t := by
  rw [build]
  cases RuleTree.build resolve sourceRoot l <;> simp [Except.map]

end

/-- Building fails on a rule at the root, and else on the first id that comes again; otherwise it gives a
model whose tree is that of the location. -/
theorem build_represents_location (resolve : String → AbsPath) (sourceRoot : String) (l : Location) :
    (∀ label, build resolve sourceRoot l = .error (.rootNotImport label) ↔
      l.isImport = false ∧ label = l.label) ∧
    (∀ id, build resolve sourceRoot l = .error (.duplicateRuleId id) ↔
      l.isImport = true ∧ Location.FirstRepeat l.ruleIds id) ∧
    ((∃ id, Location.FirstRepeat l.ruleIds id) ↔ ¬ l.ruleIds.Nodup) ∧
    (l.isImport = true → l.ruleIds.Nodup → ∃ m, build resolve sourceRoot l = .ok m ∧
      m.tree.Represents (placeUnder resolve (resolve sourceRoot)) l) := by
  refine ⟨fun label => ?_, fun id => ?_, Location.exists_firstRepeat_iff, fun hl hids => ?_⟩
  · rw [build_eq_error_iff, RuleTree.build_eq_error_iff]
    simp
  · rw [build_eq_error_iff, RuleTree.build_eq_error_iff]
    simp
  · obtain ⟨m, hm⟩ := exists_build_iff.mpr (exists_build_eq_ok_iff.mpr ⟨hl, hids⟩)
    obtain ⟨t, ht, rfl⟩ := build_eq_ofTree hm
    exact ⟨_, hm, build_represents ht⟩

theorem build_nested_represents : nestedLocation.isImport = true ∧ nestedLocation.ruleIds.Nodup ∧
    ∃ m, build (AbsPath.lexical AbsPath.root) "/src" nestedLocation = .ok m ∧
      m.tree.Represents (placeUnder (AbsPath.lexical AbsPath.root)
        (AbsPath.lexical AbsPath.root "/src")) nestedLocation := by
  have hl : nestedLocation.isImport = true := rfl
  have hids : nestedLocation.ruleIds.Nodup := by decide
  exact ⟨hl, hids, (build_represents_location (AbsPath.lexical AbsPath.root) "/src"
    nestedLocation).2.2.2 hl hids⟩

end RuleScope.RuleModel
