import RuleScope.Proofs.RuleModel.Determined

namespace RuleScope

open RuleTree Snapshot

namespace Snapshot

theorem find?_self {α : Type} (label : String) (a : α) (rest : List (String × α)) :
    find? label ((label, a) :: rest) = some a := by simp [find?]

/-- What stands before all labels of a list is not in it. -/
theorem Sorted.find?_eq_none {α : Type} {label : String} {b : String × α}
    {rest : List (String × α)} (h : Sorted (b :: rest)) (hlt : label < b.1) :
    find? label (b :: rest) = none := by
  refine find?_eq_none_of_lt fun c hc => ?_
  rcases List.mem_cons.mp hc with rfl | hc
  · exact hlt
  · exact hlt.trans ((List.pairwise_cons.mp h).1 c hc)

mutual

/-- Entries in order are the same when they say the same of every label path. -/
theorem Entry.eq_of_known? {e e' : Entry} (h : e.Ordered) (h' : e'.Ordered)
    (same : ∀ labels, e.known? labels = e'.known? labels) : e = e' := by
  obtain ⟨expanded, state, isImport, children⟩ := e
  obtain ⟨expanded', state', isImport', children'⟩ := e'
  have hself : (⟨isImport, state, expanded⟩ : Known) = ⟨isImport', state', expanded'⟩ :=
    Option.some.inj (same [])
  have hchildren : children = children' := by
    refine eq_of_known?_below (Entry.ordered_iff.mp h) (Entry.ordered_iff.mp h') fun label rest => ?_
    have := same (label :: rest)
    rwa [Entry.known?_cons, Entry.known?_cons] at this
  cases hself
  rw [hchildren]

theorem eq_of_known?_below {entries entries' : List (String × Entry)} (h : AllOrdered entries)
    (h' : AllOrdered entries')
    (same : ∀ label rest, ((find? label entries).bind fun e => e.known? rest) =
      (find? label entries').bind fun e => e.known? rest) : entries = entries' := by
  match entries, entries' with
  | [], [] => rfl
  | [], (label, e) :: rest =>
    have := same label []
    simp [find?] at this
  | (label, e) :: rest, [] =>
    have := same label []
    simp [find?] at this
  | (label, e) :: rest, (label', e') :: rest' =>
    obtain ⟨hlt, hrest⟩ := List.pairwise_cons.mp h.1
    obtain ⟨hlt', hrest'⟩ := List.pairwise_cons.mp h'.1
    have hlabel : label = label' := by
      rcases lt_trichotomy label label' with hl | hl | hl
      · have := same label []
        rw [find?_self, h'.1.find?_eq_none hl] at this
        simp at this
      · exact hl
      · have := same label' []
        rw [find?_self, h.1.find?_eq_none hl] at this
        simp at this
    subst hlabel
    have he : e = e' := by
      refine Entry.eq_of_known? (h.2 label e (find?_self ..)) (h'.2 label e' (find?_self ..))
        fun labels => ?_
      have := same label labels
      rwa [find?_self, find?_self] at this
    -- Behind the first label neither list has it again.
    have tail : ∀ {e : Entry} {rest : List (String × Entry)}, (∀ b ∈ rest, label < b.1) → ∀ l,
        find? l rest = if l = label then none else find? l ((label, e) :: rest) := by
      intro e rest hlt l
      by_cases hl : l = label
      · rw [if_pos hl, hl, find?_eq_none_of_lt hlt]
      · rw [if_neg hl, find?, if_neg hl]
    have ordered : ∀ {e : Entry} {rest : List (String × Entry)}, AllOrdered ((label, e) :: rest) →
        (∀ b ∈ rest, label < b.1) → Sorted rest → AllOrdered rest := by
      intro e rest h hlt hs
      refine ⟨hs, fun l c hc => h.2 l c ?_⟩
      rw [tail (e := e) hlt l] at hc
      split at hc
      next => cases hc
      next => exact hc
    have hentries : rest = rest' := by
      refine eq_of_known?_below (ordered h hlt hrest) (ordered h' hlt' hrest') fun l labels => ?_
      rw [tail (e := e) hlt l, tail (e := e') hlt' l]
      by_cases hl : l = label
      · simp [hl]
      · rw [if_neg hl, if_neg hl]
        exact same l labels
    rw [he, hentries]

end

end Snapshot

namespace RuleModel

variable {m m' : RuleModel}

/-- The last node with the label path of `n`. -/
def lastTwin (m : RuleModel) (n : Nat) : Nat :=
  (m.lastWith? m.tree.size (m.labelsBelow n)).getD n

/-- Every node is expanded as the last node of its label path is, and a rule has its state if that
node is a rule too. -/
def TwinsAgree (m : RuleModel) : Prop :=
  ∀ n < m.tree.size, m.isExpanded n = m.isExpanded (m.lastTwin n) ∧
    (m.tree.isRule n = true → m.tree.isRule (m.lastTwin n) = true →
      m.state n = m.state (m.lastTwin n))

instance (m : RuleModel) : Decidable m.TwinsAgree :=
  inferInstanceAs (Decidable (∀ n < m.tree.size, _))

theorem lastWith?_lastTwin {n : Nat} (hn : n < m.tree.size) :
    m.lastWith? m.tree.size (m.labelsBelow n) = some (m.lastTwin n) := by
  obtain ⟨k, hk⟩ := Option.isSome_iff_exists.mp (lastWith?_isSome (m := m) hn)
  rw [lastTwin, hk, Option.getD_some]

theorem lastTwin_lt {n : Nat} (hn : n < m.tree.size) : m.lastTwin n < m.tree.size := by
  have := List.mem_of_find?_eq_some (lastWith?_lastTwin hn)
  simpa using this

/-- Where siblings have different labels, a node is the only one of its label path. -/
theorem lastTwin_eq_self (wf : m.tree.WellFormed) (distinct : m.tree.DistinctLabels) {n : Nat}
    (hn : n < m.tree.size) : m.lastTwin n = n := by
  have hat : m.tree.at? (m.labelsBelow n) = some n :=
    (wf.at?_eq_some_iff distinct).mpr ⟨hn, rfl⟩
  rw [lastTwin, lastWith?_eq_at? wf distinct, hat, Option.getD_some]

theorem twinsAgree_of_distinctLabels (wf : m.tree.WellFormed) (distinct : m.tree.DistinctLabels) :
    m.TwinsAgree := by
  intro n hn
  rw [lastTwin_eq_self wf distinct hn]
  exact ⟨rfl, fun _ _ => rfl⟩

/-- What is recorded for the label path of a node is what the last twin shows. -/
theorem known?_record_lastTwin (wf : m.tree.WellFormed) {n : Nat} (hn : n < m.tree.size)
    (e : Entry) : (m.record e).known? (m.labelsBelow n) = some (m.known (m.lastTwin n)) := by
  rw [record, known?_recordNodes wf e (Nat.le_refl _), lastWith?_lastTwin hn, Option.map_some,
    Option.some_or]

theorem record_ordered {e : Entry} (h : e.Ordered) (m : RuleModel) : (m.record e).Ordered := by
  have : (⟨0, some m.tree.rootLabel, some e⟩ : Snapshot).Ordered := fun _ he => by
    cases he
    exact h
  have := retrieve_ordered this m
  refine this _ ?_
  simp [retrieve]

/-- Two models of one tree that agree at every node are recorded alike. -/
theorem record_record (wf : m.tree.WellFormed) (tree : m'.tree = m.tree)
    (known : ∀ n < m.tree.size, m'.known n = m.known n) {e : Entry} (h : e.Ordered) :
    m'.record (m.record e) = m.record e := by
  refine Entry.eq_of_known? (record_ordered (record_ordered h m) m') (record_ordered h m)
    fun labels => ?_
  rw [record, known?_recordNodes (m := m') (tree ▸ wf) _ (Nat.le_refl _), lastWith?_congr tree, tree,
    record, known?_recordNodes wf e (Nat.le_refl _)]
  cases hl : m.lastWith? m.tree.size labels with
  | none => simp
  | some k =>
    have hk : k < m.tree.size := by simpa using List.mem_of_find?_eq_some hl
    simp [known k hk]

end RuleModel

namespace Snapshot

variable {m : RuleModel}

/-- The entry that a capture has for the root, with all below it. -/
def rootEntry (m : RuleModel) : Entry :=
  m.record (.leaf (m.state RuleTree.root) (m.tree.isImport RuleTree.root))

theorem capture_eq (m : RuleModel) :
    capture m = ⟨formatVersion, some m.tree.rootLabel, some (rootEntry m)⟩ := by
  simp [capture, retrieve, empty, rootEntry]

theorem capture_ordered (m : RuleModel) : (capture m).Ordered := by
  have hempty : empty.Ordered := by simp [Ordered, empty]
  exact retrieve_ordered hempty m

/-- A snapshot is always restored on the model it was taken from: each node gets the flag of its
last twin, and a rule gets its state if that is a rule. -/
theorem restore?_capture (h : m.Consistent) : ∃ u,
    (capture m).restore? m = some ((capture m).retrieve u.model, u) ∧ u.From m ∧
    ∀ n < m.tree.size, u.model.isExpanded n = m.isExpanded (m.lastTwin n) ∧
      (m.tree.isRule n = true → u.model.state n =
        if m.tree.isRule (m.lastTwin n) = true then m.state (m.lastTwin n) else m.state n) := by
  obtain ⟨⟨s', u⟩, hs⟩ : ∃ r, (capture m).restore? m = some r := by
    rw [capture_eq]
    exact ⟨_, by rw [restore?, if_pos rfl, Option.map_some]⟩
  obtain ⟨_, _, rfl, hfrom, hat⟩ := restore?_spec h hs
  refine ⟨u, hs, hfrom, fun n hn => ?_⟩
  have hn' := RuleModel.lastTwin_lt hn
  obtain ⟨_, hexpanded, hstate⟩ := hat (rootEntry m) (by rw [capture_eq]; rfl) n hn
  have hknown := RuleModel.known?_record_lastTwin h.wellFormed hn
    (.leaf (m.state RuleTree.root) (m.tree.isImport RuleTree.root))
  rw [← rootEntry] at hknown
  refine ⟨by rw [hexpanded, hknown]; rfl, fun hr => ?_⟩
  rw [hstate hr, hknown, Option.bind_some]
  by_cases htwin : m.tree.isRule (m.lastTwin n) = true
  · have hsel := h.statesFollowRules.rule_selectable _ htwin
    have himport := isImport_eq_false_of_isRule htwin
    simp [Known.choice?, RuleModel.known, himport, hsel, htwin]
  · have himport : m.tree.isImport (m.lastTwin n) = true := by
      by_contra hi
      exact htwin (isRule_of_not_isImport hn' (by simpa using hi))
    simp [Known.choice?, RuleModel.known, himport, htwin]

theorem retrieve_capture_eq {u : Update} (h : m.Consistent) (hu : u.From m)
    (state : ∀ n, u.model.state n = m.state n)
    (expanded : ∀ n, u.model.isExpanded n = m.isExpanded n) :
    (capture m).retrieve u.model = capture m := by
  have known : ∀ n < m.tree.size, u.model.known n = m.known n := fun n _ => by
    simp [RuleModel.known, hu.tree_eq, state n, expanded n]
  have hrecord := RuleModel.record_record h.wellFormed hu.tree_eq known
    (Entry.leaf_ordered (m.state RuleTree.root) (m.tree.isImport RuleTree.root))
  rw [← rootEntry] at hrecord
  simp [capture_eq, retrieve, hu.tree_eq, hrecord]

/-- A model of any location tree, after any run, is restored from its own snapshot, which leaves all
nodes as they were if and only if twins agree; then the snapshot stays what it was too. Twins agree
where siblings have different labels. -/
theorem build_run_restore?_capture {resolve : String → AbsPath} {sourceRoot : String} {l : Location}
    {m₀ : RuleModel} (h : RuleModel.build resolve sourceRoot l = .ok m₀) (actions : List Action) :
    ∃ s u, (capture (m₀.run actions)).restore? (m₀.run actions) = some (s, u) ∧
      ((∀ n, u.model.state n = (m₀.run actions).state n ∧
        u.model.isExpanded n = (m₀.run actions).isExpanded n) ↔ (m₀.run actions).TwinsAgree) ∧
      ((m₀.run actions).TwinsAgree → s = capture (m₀.run actions)) ∧
      (m₀.tree.DistinctLabels → (m₀.run actions).TwinsAgree) := by
  obtain ⟨hc, htree⟩ := RuleModel.run_consistent (RuleModel.build_consistent h) actions
  generalize m₀.run actions = m at hc htree ⊢
  obtain ⟨u, hu, hfrom, hat⟩ := restore?_capture hc
  have same_of_agree : m.TwinsAgree →
      ∀ n, u.model.state n = m.state n ∧ u.model.isExpanded n = m.isExpanded n := by
    intro agree n
    constructor
    · have shape : m.tree.SameShape u.model.tree := by
        rw [hfrom.tree_eq]
        exact ⟨rfl, fun _ => rfl, rfl⟩
      refine hc.state_eq_of_rules hfrom.consistent shape (fun r hr => ?_) n
      have hlt := lt_size_of_isRule hr
      rw [(hat r hlt).2 hr]
      split
      next htwin => exact ((agree r hlt).2 hr htwin).symm
      next => rfl
    · rcases Nat.lt_or_ge n m.tree.size with hn | hn
      · rw [(hat n hn).1, (agree n hn).1]
      · have beyond : ∀ {m' : RuleModel}, m'.Consistent → m'.tree = m.tree →
            m'.isExpanded n = false := fun hm' htree' => by
          have := hm'.expanded_size
          rw [htree'] at this
          simp [RuleModel.isExpanded, Array.getD_eq_getD_getElem?, this, hn]
        rw [beyond hfrom.consistent hfrom.tree_eq, beyond hc rfl]
  refine ⟨(capture m).retrieve u.model, u, hu, ⟨fun same n hn => ?_, same_of_agree⟩, fun agree => ?_,
    fun distinct => ?_⟩
  · refine ⟨by rw [← (same n).2, (hat n hn).1], fun hr htwin => ?_⟩
    rw [← (same n).1, (hat n hn).2 hr, if_pos htwin]
  · exact retrieve_capture_eq hc hfrom (fun n => (same_of_agree agree n).1)
      fun n => (same_of_agree agree n).2
  · rw [← htree] at distinct
    exact RuleModel.twinsAgree_of_distinctLabels hc.wellFormed distinct

/-- Two rules of one label. -/
def twinLocation : Location :=
  ⟨"rules", 1, .imported none [], [
    ⟨"rate", 2, .rule ⟨17, by decide, by decide⟩ "rate > 0" [], []⟩,
    ⟨"rate", 3, .rule ⟨19, by decide, by decide⟩ "rate > 1" [], []⟩]⟩

theorem exists_build_twinLocation :
    ∃ m, RuleModel.build (AbsPath.lexical AbsPath.root) "/src" twinLocation = .ok m := by
  have hsome : (RuleModel.build (AbsPath.lexical AbsPath.root) "/src" twinLocation).toOption.isSome =
      true := by
    decide +kernel
  obtain ⟨m, hm⟩ := Option.isSome_iff_exists.mp hsome
  exact ⟨m, eq_ok_of_toOption hm⟩

/-- Twins that are set together come back as they were. -/
theorem build_twins_restore?_capture : ∃ m₀,
    RuleModel.build (AbsPath.lexical AbsPath.root) "/src" twinLocation = .ok m₀ ∧
    ∃ u, (capture (m₀.run [.edit (.setAllBelow 0 .always), .setExpanded 0 true])).restore?
        (m₀.run [.edit (.setAllBelow 0 .always), .setExpanded 0 true]) =
          some (capture (m₀.run [.edit (.setAllBelow 0 .always), .setExpanded 0 true]), u) ∧
      ∀ n, u.model.state n =
        (m₀.run [.edit (.setAllBelow 0 .always), .setExpanded 0 true]).state n := by
  obtain ⟨m₀, h⟩ := exists_build_twinLocation
  have agree : (m₀.run [.edit (.setAllBelow 0 .always), .setExpanded 0 true]).TwinsAgree := by
    have facts : ((RuleModel.build (AbsPath.lexical AbsPath.root) "/src" twinLocation).toOption.map
        fun m : RuleModel => decide
          (m.run [.edit (.setAllBelow 0 .always), .setExpanded 0 true]).TwinsAgree) = some true := by
      decide +kernel
    rw [h] at facts
    exact of_decide_eq_true (Option.some.inj facts)
  obtain ⟨s, u, hu, same, hs, -⟩ := build_run_restore?_capture h
    [.edit (.setAllBelow 0 .always), .setExpanded 0 true]
  obtain rfl := hs agree
  exact ⟨m₀, h, u, hu, fun n => (same.mpr agree n).1⟩

/-- Of two rules with one label the second alone is remembered: when only the first is logged, its
own snapshot turns it off, and then the root is no longer mixed. -/
theorem not_restore?_capture_twins : ∃ m₀,
    RuleModel.build (AbsPath.lexical AbsPath.root) "/src" twinLocation = .ok m₀ ∧
    ∃ s u, (capture (m₀.run [.edit (.setState 1 .always)])).restore?
        (m₀.run [.edit (.setState 1 .always)]) = some (s, u) ∧
      (m₀.run [.edit (.setState 1 .always)]).state 1 = .always ∧ u.model.state 1 = .never ∧
      s ≠ capture (m₀.run [.edit (.setState 1 .always)]) := by
  obtain ⟨m₀, h⟩ := exists_build_twinLocation
  have facts : ((RuleModel.build (AbsPath.lexical AbsPath.root) "/src" twinLocation).toOption.bind
      fun m₀ : RuleModel =>
        let m := m₀.run [.edit (.setState 1 .always)]
        ((capture m).restore? m).map fun r => decide (m.state 1 = .always ∧
          r.2.model.state 1 = .never ∧ r.1.known? [] ≠ (capture m).known? [])) = some true := by
    decide +kernel
  rw [h] at facts
  obtain ⟨⟨s, u⟩, hu, hfacts⟩ := Option.map_eq_some_iff.mp facts
  obtain ⟨hbefore, hafter, hknown⟩ := of_decide_eq_true hfacts
  exact ⟨m₀, h, s, u, hu, hbefore, hafter, fun he => hknown (by rw [he])⟩

end Snapshot

end RuleScope
