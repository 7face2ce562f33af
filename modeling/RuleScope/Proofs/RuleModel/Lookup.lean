import RuleScope.Proofs.Path.Written
import RuleScope.Proofs.RuleModel.Runs
import RuleScope.Proofs.RuleTree.Paths
import RuleScope.Proofs.RuleTree.PreOrder

namespace RuleScope

namespace RuleTree

/-- The nearest import at or above a node: every other import there is above it too. -/
structure Encloses (t : RuleTree) (a n : Nat) : Prop where
  isImport : t.isImport a = true
  within : t.Within a n
  nearest : ∀ b, t.isImport b = true → t.Within b n → t.Within b a

/-- The last node with this place. -/
def LastWith (t : RuleTree) (place : AbsPath) (n : Nat) : Prop :=
  t.path? n = some place ∧ ∀ k, n < k → t.path? k ≠ some place

variable {t : RuleTree}

theorem isImport_iff_path? {n : Nat} : t.isImport n = true ↔ (t.path? n).isSome = true := by
  unfold isImport path?
  cases hnode : t.node? n with
  | none => simp
  | some node =>
    cases hcontent : node.content <;> simp [Node.isImport, Node.path?, hcontent]

theorem Sound.rule?_eq_some_iff (h : t.Sound) {id : RuleId} {n : Nat} :
    t.rule? id = some n ↔ t.ruleId? n = some id := by
  rw [← h.mem_rules_iff id n]
  exact ⟨Table.mem_of_get?, Table.get?_of_mem h.rules_nodup⟩

/-- No two rules have the same id, so their order is strict. -/
theorem Sound.rulesById_sorted (h : t.Sound) :
    t.rulesById.Pairwise fun a b => a.1.value < b.1.value := by
  have hle : t.rulesById.Pairwise fun a b => a.1.le b.1 = true := by
    refine List.pairwise_mergeSort (fun a b c hab hbc => ?_) (fun a b => ?_) t.rules
    · simp only [RuleId.le, decide_eq_true_eq] at hab hbc ⊢
      omega
    · simp only [RuleId.le, Bool.or_eq_true, decide_eq_true_eq]
      omega
  have hne : t.rulesById.Pairwise fun a b => a.1 ≠ b.1 := by
    have hnodup : (t.rulesById.map Prod.fst).Nodup :=
      ((List.mergeSort_perm t.rules _).map Prod.fst).nodup_iff.mpr h.rules_nodup
    exact List.pairwise_map.mp hnodup
  refine (hle.and hne).imp fun {a b} ⟨hab, hne⟩ => ?_
  have hvalue : a.1.value ≠ b.1.value := fun he => hne (RuleId.ext_value he)
  simp only [RuleId.le, decide_eq_true_eq] at hab
  omega

theorem Sound.mem_rulesById_iff (h : t.Sound) {id : RuleId} {n : Nat} :
    (id, n) ∈ t.rulesById ↔ t.ruleId? n = some id := by
  rw [rulesById, List.mem_mergeSort]
  exact h.mem_rules_iff id n

theorem WellFormed.exists_enclosing (wf : t.WellFormed) {n : Nat} (hn : n < t.size) :
    ∃ a, t.enclosingImport? n = some a ∧ t.Encloses a n := by
  induction n using Nat.strongRecOn with
  | ind n ih =>
    cases hi : t.isImport n with
    | true =>
      have hfirst : t.enclosingImport? n = some n := by
        rw [enclosingImport?, lineage]
        split <;> simp [hi]
      exact ⟨n, hfirst, hi, .refl, fun b _ hb => hb⟩
    | false =>
      rcases wf.root_or_child hn with rfl | ⟨p, label, hlt, hp, -⟩
      · rw [wf.root_isImport] at hi
        cases hi
      · obtain ⟨a, ha, himport, hwithin, hnearest⟩ := ih p hlt (Nat.lt_trans hlt hn)
        have hskip : t.enclosingImport? n = t.enclosingImport? p := by
          rw [enclosingImport?, wf.lineage_child hp, List.find?_cons_of_neg (by simp [hi]),
            enclosingImport?]
        refine ⟨a, hskip.trans ha, himport, hwithin.tail hp, fun b hb hbn => ?_⟩
        rcases withinIn_cases hbn with rfl | ⟨q, hq, hbq⟩
        · rw [hb] at hi
          cases hi
        · obtain rfl : q = p := Option.some.inj (hq.symm.trans hp)
          exact hnearest b hb hbq

theorem Indexed.importAt?_eq_none_iff (h : t.Indexed) {place : AbsPath} :
    t.importAt? place = none ↔ ∀ n, t.path? n ≠ some place := by
  constructor
  · intro hnone n
    -- From the last node down: a node with the place and none behind it would have been found.
    induction hbehind : t.size - n using Nat.strongRecOn generalizing n with
    | ind k ih =>
      intro hn
      have hlt : n < t.size := by
        by_contra hge
        rw [path?_eq_none_of_le (by omega)] at hn
        cases hn
      have hlast := (h.importAt?_iff place n).mpr
        ⟨hn, fun m hm => ih (t.size - m) (by omega) m rfl⟩
      rw [hnone] at hlast
      cases hlast
  · intro hall
    rw [Option.eq_none_iff_forall_ne_some]
    exact fun n hn => hall n ((h.importAt?_iff place n).mp hn).1

end RuleTree

namespace RuleModel

open RuleTree

/-- What is found in a model of a location file: `place` tells where a written source path leads from the
source root, and `resolve` where a path leads that is asked for. -/
structure LooksUp (m : RuleModel) (place resolve : String → AbsPath) (l : Location) : Prop where
  rule?_iff : ∀ id n, m.tree.rule? id = some n ↔ m.tree.ruleId? n = some id
  ruleStates_sorted : m.ruleStates.Pairwise fun a b => a.1.value < b.1.value
  mem_ruleStates_iff : ∀ id s, (id, s) ∈ m.ruleStates ↔
    ∃ n, m.tree.ruleId? n = some id ∧ m.state n = s
  ruleNodes_eq : m.tree.ruleNodes.map (fun n => (m.tree.ruleId? n, m.state n)) =
    m.ruleStates.map fun r => (some r.1, r.2)
  definition?_rule : ∀ id n, m.tree.ruleId? n = some id → ∃ node a file, m.tree.node? n = some node ∧
    m.tree.Encloses a n ∧ m.tree.path? a = some file ∧
    m.tree.definition? id = some (file, node.line)
  definition?_unknown : ∀ id, (∀ n, m.tree.ruleId? n ≠ some id) → m.tree.definition? id = none
  path?_eq : ∀ n, m.tree.path? n = l.preOrder[n]?.bind (Location.place? place)
  importAt?_iff : ∀ path n,
    m.tree.importAt? (resolve path) = some n ↔ m.tree.LastWith (resolve path) n
  importAt?_unknown : ∀ path, m.tree.importAt? (resolve path) = none ↔
    ∀ n, m.tree.path? n ≠ some (resolve path)

variable {m : RuleModel}

theorem definition?_of_encloses {id : RuleId} {n a : Nat} {node : Node} {file : AbsPath}
    (hrule : m.tree.rule? id = some n) (hnode : m.tree.node? n = some node)
    (ha : m.tree.enclosingImport? n = some a) (hfile : m.tree.path? a = some file) :
    m.tree.definition? id = some (file, node.line) := by
  have hsource : m.tree.sourceFile? n = some file := by
    rw [sourceFile?, ha]
    exact hfile
  simp [definition?, hrule, hsource, hnode]

theorem Consistent.looksUp (h : m.Consistent) {place : String → AbsPath} {l : Location}
    (represents : m.tree.Represents place l) (indexed : m.tree.Indexed)
    (resolve : String → AbsPath) : m.LooksUp place resolve l := by
  have wf := h.wellFormed
  have hrule : ∀ id n, m.tree.rule? id = some n ↔ m.tree.ruleId? n = some id :=
    fun _ _ => wf.sound.rule?_eq_some_iff
  refine ⟨hrule, ?_, fun id s => ?_, ?_, fun id n hid => ?_, fun id hid => ?_, represents.path?_eq,
    fun path n => indexed.importAt?_iff (resolve path) n, fun path => indexed.importAt?_eq_none_iff⟩
  · rw [ruleStates, List.pairwise_map]
    exact wf.sound.rulesById_sorted
  · rw [ruleStates, List.mem_map]
    constructor
    · rintro ⟨⟨id', n⟩, hmem, he⟩
      obtain ⟨rfl, hs⟩ := Prod.mk.inj he
      exact ⟨n, wf.sound.mem_rulesById_iff.mp hmem, hs⟩
    · rintro ⟨n, hid, rfl⟩
      exact ⟨(id, n), wf.sound.mem_rulesById_iff.mpr hid, rfl⟩
  · rw [ruleNodes, ruleStates, List.map_map, List.map_map]
    refine List.map_congr_left fun r hr => ?_
    have hid : m.tree.ruleId? r.2 = some r.1 := wf.sound.mem_rulesById_iff.mp hr
    simp [hid]
  · have hn : n < m.tree.size := lt_size_of_isRule (isRule_iff_ruleId?.mpr (by simp [hid]))
    have hnode : m.tree.node? n = some m.tree.nodes[n] := Array.getElem?_eq_getElem hn
    obtain ⟨a, ha, hencloses⟩ := wf.exists_enclosing hn
    obtain ⟨file, hfile⟩ := Option.isSome_iff_exists.mp (isImport_iff_path?.mp hencloses.isImport)
    exact ⟨_, a, file, hnode, hencloses, hfile,
      definition?_of_encloses ((hrule id n).mpr hid) hnode ha hfile⟩
  · have hnone : m.tree.rule? id = none := by
      rw [Option.eq_none_iff_forall_ne_some]
      exact fun n hn => hid n ((hrule id n).mp hn)
    simp [definition?, hnone]

/-- Rules are found by their ids and imports by their files, after any changes of states. The file of a
rule is that of the nearest import around it, and a file that is listed more than once is found at the
last in pre-order. Seen from a proper working directory, an import's own place names it too. -/
theorem build_run_looksUp {cwd : AbsPath} {sourceRoot : String} {l : Location}
    (h : build (AbsPath.lexical cwd) sourceRoot l = .ok m) (actions : List Action) :
    (m.run actions).LooksUp (placeUnder (AbsPath.lexical cwd) (AbsPath.lexical cwd sourceRoot))
      (AbsPath.lexical cwd) l ∧
    (cwd.Proper → ∀ n place, (m.run actions).tree.path? n = some place →
      AbsPath.lexical cwd place.text = place) := by
  obtain ⟨t, ht, rfl⟩ := build_eq_ofTree h
  obtain ⟨consistent, htree⟩ := run_consistent (build_consistent h) actions
  have represents : (ofTree t).tree.Represents _ l := build_represents ht
  have indexed : (ofTree t).tree.Indexed := build_indexed ht
  refine ⟨consistent.looksUp (htree ▸ represents) (htree ▸ indexed) _, fun hcwd n place hplace => ?_⟩
  rw [htree, represents.path?_eq] at hplace
  obtain ⟨c, -, hc⟩ := Option.bind_eq_some_iff.mp hplace
  unfold Location.place? at hc
  split at hc
  next =>
    cases hc
    exact AbsPath.lexical_text (AbsPath.lexical_proper hcwd _) cwd
  next => cases hc

/-- Two imports of one file, and a rule inside a rule. -/
def sharedLocation : Location :=
  ⟨"rules", 1, .imported none [], [
    ⟨"taxes", 2, .imported (some "shared/./tax.rudi") [], [
      ⟨"rate", 3, .rule ⟨37, by decide, by decide⟩ "rate > 0" [], [
        ⟨"band", 4, .rule ⟨-5, by decide, by decide⟩ "low < high" [], []⟩]⟩]⟩,
    ⟨"fees", 5, .imported (some "/src/old/../shared/tax.rudi") [], []⟩]⟩

theorem build_shared_looksUp : ∃ m : RuleModel,
    build (AbsPath.lexical AbsPath.root) "/src" sharedLocation = .ok m ∧
      (m.run [.edit (.setRuleState ⟨37, by decide, by decide⟩ .always)]).LooksUp
        (placeUnder (AbsPath.lexical AbsPath.root) ⟨["src"]⟩) (AbsPath.lexical AbsPath.root)
        sharedLocation ∧
      m.tree.definition? ⟨-5, by decide, by decide⟩ = some (⟨["src", "shared", "tax.rudi"]⟩, 4) ∧
      m.tree.LastWith ⟨["src", "shared", "tax.rudi"]⟩ 4 := by
  have facts : ((build (AbsPath.lexical AbsPath.root) "/src" sharedLocation).toOption.map
      fun m : RuleModel => decide (m.tree.definition? ⟨-5, by decide, by decide⟩ =
          some (⟨["src", "shared", "tax.rudi"]⟩, 4) ∧
        m.tree.importAt? (AbsPath.lexical AbsPath.root "src/shared//tax.rudi") = some 4)) =
          some true := by
    decide +kernel
  obtain ⟨m, hm, facts⟩ := Option.map_eq_some_iff.mp facts
  obtain ⟨hdefinition, hlast⟩ := of_decide_eq_true facts
  have hbuild := eq_ok_of_toOption hm
  have hfound := (build_run_looksUp hbuild []).1
  have hplace : AbsPath.lexical AbsPath.root "src/shared//tax.rudi" =
      ⟨["src", "shared", "tax.rudi"]⟩ := by
    decide +kernel
  have hroot : AbsPath.lexical AbsPath.root "/src" = ⟨["src"]⟩ := by decide +kernel
  refine ⟨m, hbuild, hroot ▸ (build_run_looksUp hbuild _).1, hdefinition, ?_⟩
  rw [← hplace]
  exact (hfound.importAt?_iff _ 4).mp hlast

end RuleModel

end RuleScope
