import RuleScope.Proofs.Path.Written
import RuleScope.Proofs.RuleModel.Runs
import RuleScope.Proofs.RuleTree.Paths
import RuleScope.Proofs.Text.Digits
import RuleScope.RuleModel.Target

namespace RuleScope

open RuleTree

namespace RuleTree

/-- Labels that a text can hold between slashes. -/
def Speakable (labels : List String) : Prop := ∀ label ∈ labels, label ≠ "" ∧ '/' ∉ label.toList

instance (labels : List String) : Decidable (Speakable labels) :=
  inferInstanceAs (Decidable (∀ label ∈ labels, label ≠ "" ∧ '/' ∉ label.toList))

/-- A text that is no number, and so is read as a label path. -/
def IsPathText (text : String) : Prop :=
  (Text.readInt Text.maxInt32 text.toList).toOption = none

instance (text : String) : Decidable (IsPathText text) :=
  inferInstanceAs (Decidable ((Text.readInt Text.maxInt32 text.toList).toOption = none))

variable {t : RuleTree} {labels : List String} {n k : Nat}

theorem isPathText_intercalate (a b : String) (labels : List String) :
    IsPathText (String.intercalate "/" (a :: b :: labels)) := by
  have hslash : '/' ∈ (String.intercalate "/" (a :: b :: labels)).toList := by
    rw [Path.toList_intercalate_cons_cons]
    exact List.mem_append_right _ List.mem_cons_self
  obtain ⟨e, he⟩ := Text.readInt_of_mem (by decide) (by decide) (by decide) hslash Text.maxInt32
  rw [IsPathText, he]
  rfl

theorem targetLabels_intercalate (rootLabel first : String) (rest : List String)
    (h : Speakable (first :: rest)) :
    targetLabels rootLabel (String.intercalate "/" (first :: rest)) =
      if first = rootLabel then rest else first :: rest := by
  have hpieces := Path.pieces_intercalate (fun label hl => (h label hl).2) (List.cons_ne_nil first rest)
  have hkept : (first :: rest).filter (· ≠ "") = first :: rest :=
    List.filter_eq_self.mpr fun label hl => by simpa using (h label hl).1
  unfold targetLabels
  rw [hpieces, hkept]

theorem target_eq_ok_iff_at? {text : String} (h : IsPathText text) :
    t.target text = .ok k ↔ t.at? (targetLabels t.rootLabel text) = some k := by
  unfold target
  split
  next i hi =>
    rw [IsPathText, hi] at h
    cases h
  next =>
    cases t.at? (targetLabels t.rootLabel text) with
    | none => simp
    | some m => simp

/-- Labels with that of the root in front are a full path, and all others a path below the root. -/
theorem WellFormed.target_intercalate_eq_ok_iff (wf : t.WellFormed) (distinct : t.DistinctLabels)
    {first : String} {rest : List String} (speakable : Speakable (first :: rest))
    (htext : IsPathText (String.intercalate "/" (first :: rest))) :
    t.target (String.intercalate "/" (first :: rest)) = .ok k ↔
      k < t.size ∧ if first = t.rootLabel then t.labelPath k = first :: rest
        else (t.labelPath k).drop 1 = first :: rest := by
  rw [target_eq_ok_iff_at? htext, targetLabels_intercalate _ _ _ speakable,
    wf.at?_eq_some_iff distinct]
  refine and_congr_right fun hk => ?_
  have hpath := wf.labelPath_eq_cons hk
  split
  next hfirst =>
    constructor
    · intro hrest
      rw [hpath, hrest, hfirst]
    · intro hfull
      rw [hfull]
      rfl
  next => rfl

theorem WellFormed.labelPath_injective (wf : t.WellFormed) (distinct : t.DistinctLabels)
    (hn : n < t.size) (hk : k < t.size) (h : (t.labelPath k).drop 1 = (t.labelPath n).drop 1) :
    k = n := by
  have hfirst := wf.at?_labelPath distinct hk
  rw [h, wf.at?_labelPath distinct hn] at hfirst
  exact (Option.some.inj hfirst).symm

theorem WellFormed.labelPath_drop_ne_nil (wf : t.WellFormed) (hn : n < t.size) (hroot : n ≠ root) :
    (t.labelPath n).drop 1 ≠ [] := by
  rcases wf.root_or_child hn with h | ⟨p, label, hlt, hp, hl⟩
  · exact absurd h hroot
  · have hlast := wf.labelPath_child hp hl
    have hpath := wf.labelPath_eq_cons (Nat.lt_trans hlt hn)
    rw [hlast, hpath]
    simp

end RuleTree

namespace RuleModel

variable {resolve : String → AbsPath} {sourceRoot : String} {l : Location} {m : RuleModel} {n : Nat}

/-- In a model where siblings have different labels that a text can hold, the full path of a node names
this node. So does its path below the root, unless that starts with the label of the root: then it is
taken for a full path, and names the node whose full path it is, if any. -/
theorem build_target_eq_ok_iff (h : RuleModel.build resolve sourceRoot l = .ok m)
    (distinct : m.tree.DistinctLabels)
    (hn : n < m.tree.size) (hroot : n ≠ root) (speakable : Speakable (m.tree.labelPath n)) :
    (∀ k, m.tree.target (String.intercalate "/" (m.tree.labelPath n)) = .ok k ↔ k = n) ∧
    (IsPathText (String.intercalate "/" (m.labelsBelow n)) →
      ∀ k, m.tree.target (String.intercalate "/" (m.labelsBelow n)) = .ok k ↔
        if (m.labelsBelow n).head? = some m.tree.rootLabel then
          k < m.tree.size ∧ m.tree.labelPath k = m.labelsBelow n
        else k = n) := by
  have wf := (build_consistent h).wellFormed
  have hfull := wf.labelPath_eq_cons hn
  obtain ⟨first, rest, hbelow⟩ := List.exists_cons_of_ne_nil (wf.labelPath_drop_ne_nil hn hroot)
  rw [hbelow] at hfull
  have hspeak : Speakable (m.tree.rootLabel :: first :: rest) := hfull ▸ speakable
  have hspeakBelow : Speakable (first :: rest) := fun label hl =>
    hspeak label (List.mem_cons_of_mem _ hl)
  have named : ∀ k, k < m.tree.size ∧ (m.tree.labelPath k).drop 1 = first :: rest ↔ k = n := by
    intro k
    constructor
    · rintro ⟨hk, hpath⟩
      exact wf.labelPath_injective distinct hn hk (hpath.trans hbelow.symm)
    · rintro rfl
      exact ⟨hn, hbelow⟩
  refine ⟨fun k => ?_, fun htext k => ?_⟩
  · have htarget := wf.target_intercalate_eq_ok_iff (k := k) distinct hspeak
      (isPathText_intercalate _ _ _)
    rw [hfull, htarget, if_pos rfl, ← named k]
    refine and_congr_right fun hk => ?_
    rw [wf.labelPath_eq_cons hk, List.cons.injEq]
    simp
  · have hlabels : m.labelsBelow n = first :: rest := hbelow
    rw [hlabels] at htext ⊢
    rw [wf.target_intercalate_eq_ok_iff distinct hspeakBelow htext]
    by_cases hfirst : first = m.tree.rootLabel
    · simp [hfirst]
    · rw [if_neg hfirst, if_neg (by simpa using hfirst)]
      exact named k

/-- An import with the label of the root, and a rule with the label of a rule below that import. -/
def echoLocation : Location :=
  ⟨"rules", 1, .imported none [], [
    ⟨"rules", 2, .imported none [], [
      ⟨"rate", 3, .rule ⟨27, by decide, by decide⟩ "rate > 0" [], []⟩]⟩,
    ⟨"rate", 4, .rule ⟨29, by decide, by decide⟩ "rate > 1" [], []⟩]⟩

theorem exists_build_echoLocation : ∃ m,
    build (AbsPath.lexical AbsPath.root) "/src" echoLocation = .ok m ∧ m.tree.DistinctLabels ∧
      m.tree.size = 4 ∧ m.tree.rootLabel = "rules" ∧
      m.tree.labelPath 2 = ["rules", "rules", "rate"] ∧ m.tree.labelPath 3 = ["rules", "rate"] := by
  have facts : ((build (AbsPath.lexical AbsPath.root) "/src" echoLocation).toOption.map
      fun m : RuleModel => decide (m.tree.DistinctLabels ∧ m.tree.size = 4 ∧
        m.tree.rootLabel = "rules" ∧ m.tree.labelPath 2 = ["rules", "rules", "rate"] ∧
        m.tree.labelPath 3 = ["rules", "rate"])) = some true := by
    decide +kernel
  obtain ⟨m, hm, hfacts⟩ := Option.map_eq_some_iff.mp facts
  exact ⟨m, eq_ok_of_toOption hm, of_decide_eq_true hfacts⟩

/-- The inner rule is found by its full path, but its path below the root is the full path of the
other rule. -/
theorem build_echo_target : ∃ m,
    build (AbsPath.lexical AbsPath.root) "/src" echoLocation = .ok m ∧
      m.tree.target "rules/rules/rate" = .ok 2 ∧ m.tree.target "rules/rate" = .ok 3 ∧
      m.tree.target "rate" = .ok 3 := by
  obtain ⟨m, h, distinct, hsize, hlabel, hinner, houter⟩ := exists_build_echoLocation
  obtain ⟨hfull, hbelow⟩ := build_target_eq_ok_iff (n := 2) h distinct (by omega) (by decide)
    (by rw [hinner]; decide)
  obtain ⟨-, hother⟩ := build_target_eq_ok_iff (n := 3) h distinct (by omega) (by decide)
    (by rw [houter]; decide)
  have innerBelow : m.labelsBelow 2 = ["rules", "rate"] := by rw [labelsBelow, hinner]; rfl
  have outerBelow : m.labelsBelow 3 = ["rate"] := by rw [labelsBelow, houter]; rfl
  rw [hinner] at hfull
  rw [innerBelow, hlabel] at hbelow
  rw [outerBelow, hlabel] at hother
  refine ⟨m, h, (hfull 2).mpr rfl, ?_, ?_⟩
  · have hfirst : ["rules", "rate"].head? = some "rules" := rfl
    have hread := (hbelow (by decide +kernel) 3).mpr
    rw [if_pos hfirst] at hread
    exact hread ⟨by omega, houter⟩
  · have hread := (hother (by decide +kernel) 3).mpr
    rw [if_neg (by decide)] at hread
    exact hread rfl

/-- So a path below the root can name another node than the one it leads to. -/
theorem not_target_labelsBelow_echo : ¬ ∀ (m : RuleModel) (n : Nat),
    build (AbsPath.lexical AbsPath.root) "/src" echoLocation = .ok m → m.tree.DistinctLabels →
      n < m.tree.size → n ≠ root → Speakable (m.tree.labelPath n) →
      IsPathText (String.intercalate "/" (m.labelsBelow n)) →
      m.tree.target (String.intercalate "/" (m.labelsBelow n)) = .ok n := by
  intro claim
  obtain ⟨m, h, distinct, hsize, hlabel, hinner, houter⟩ := exists_build_echoLocation
  have innerBelow : m.labelsBelow 2 = ["rules", "rate"] := by rw [labelsBelow, hinner]; rfl
  have hspeak : Speakable (m.tree.labelPath 2) := by rw [hinner]; decide
  have hread := claim m 2 h distinct (by omega) (by decide) hspeak (by rw [innerBelow]; decide +kernel)
  have wf := (build_consistent h).wellFormed
  rw [innerBelow, wf.target_intercalate_eq_ok_iff distinct (by decide) (by decide +kernel), hlabel,
    if_pos rfl, hinner] at hread
  simp at hread

end RuleModel

end RuleScope
