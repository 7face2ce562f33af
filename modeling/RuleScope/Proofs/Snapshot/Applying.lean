import RuleScope.Proofs.RuleModel.Notices
import RuleScope.Proofs.Snapshot.Recapture

namespace RuleScope

open RuleTree Snapshot

namespace RuleModel

variable {m : RuleModel}

theorem setExpanded_self (m : RuleModel) (n : Nat) : m.setExpanded n (m.isExpanded n) = m := by
  have hsame : m.expanded.setIfInBounds n (m.expanded.getD n false) = m.expanded := by
    refine Array.ext_getElem? fun k => ?_
    rw [Array.getElem?_setIfInBounds]
    split
    next he =>
      subst he
      split
      next hlt => simp [hlt]
      next hlt => simp [hlt]
    next => rfl
  unfold setExpanded isExpanded
  rw [hsame]

/-- A rule that is given its own state is left alone. -/
theorem setState_self {n : Nat} (hn : m.tree.isRule n = true)
    (hs : m.state n ∈ LoggingState.selectable) : m.setState n (m.state n) = .ok ⟨m, []⟩ := by
  have hs : (m.state n).isDerived = false := (LoggingState.isDerived_eq_false_iff _).mpr hs
  have hlt := lt_size_of_isRule hn
  have hnode : m.tree.node? n = some m.tree.nodes[n] := Array.getElem?_eq_getElem hlt
  have hrule : m.tree.nodes[n].isRule = true := by simpa [isRule, hnode] using hn
  have hassign : m.sweep.assign m.tree n (m.state n) = m.sweep := if_pos rfl
  simp only [setState, setAllBelow, hs, hnode, hrule, hassign, if_true]
  rfl

end RuleModel

namespace Snapshot

variable {m : RuleModel} {e : Entry} {u : Update}

/-- What restoring a node adds to the changes comes from one call that sets the state of the node. -/
theorem restoreNode_changes (e : Entry) (u : Update) (n : Nat) :
    (restoreNode e u n).changes = u.changes ∨
      ∃ b s v, (u.model.setExpanded n b).setState n s = .ok v ∧
        restoreNode e u n = ⟨v.model, u.changes ++ v.changes⟩ := by
  unfold restoreNode
  split
  next => exact Or.inl rfl
  next found _ =>
    dsimp only
    split
    next => exact Or.inl rfl
    next s _ =>
      split
      next v hv => exact Or.inr ⟨_, s, v, hv, rfl⟩
      next => exact Or.inl rfl

/-- A rule is changed only when it is restored itself, and then once. -/
theorem length_changes_restoreNode (h : u.model.Consistent) {n r : Nat}
    (hn : n < u.model.tree.size) (hr : u.model.tree.isRule r = true) :
    ((restoreNode e u n).changes.filter (·.node = r)).length ≤
      (u.changes.filter (·.node = r)).length + if n = r then 1 else 0 := by
  rcases restoreNode_changes e u n with hsame | ⟨b, s, v, hv, hnext⟩
  · rw [hsame]
    exact Nat.le_add_right _ _
  · have hexpanded := RuleModel.setExpanded_consistent h n b
    have hcall : (u.model.setExpanded n b).edit? (.setState n s) = some v := by
      simp [RuleModel.edit?, hv, Except.toOption]
    have hchanges := RuleModel.edit?_changes hexpanded (e := .setState n s) trivial hcall r
    rw [hnext, List.filter_append, List.length_append]
    refine Nat.add_le_add_left ?_ _
    rw [hchanges]
    split
    next => exact Nat.zero_le _
    next hmoved =>
      split
      next => exact Nat.le_refl _
      next hne =>
        obtain ⟨-, hother⟩ := restoreNode_spec (e := e) h hn
        have hstate := (hother r (Ne.symm hne)).state hr
        rw [hnext] at hstate
        exact absurd hstate hmoved

theorem length_changes_restoreNodes {nodes : List Nat} (hnodes : ∀ n ∈ nodes, n < m.tree.size)
    (hu : u.From m) {r : Nat} (hr : m.tree.isRule r = true) :
    ((nodes.foldl (restoreNode e) u).changes.filter (·.node = r)).length ≤
      (u.changes.filter (·.node = r)).length + nodes.count r := by
  induction nodes generalizing u with
  | nil => exact Nat.le_refl _
  | cons n rest ih =>
    have hn : n < u.model.tree.size := hu.tree_eq ▸ hnodes n List.mem_cons_self
    have hr' : u.model.tree.isRule r = true := hu.tree_eq ▸ hr
    have hfirst := length_changes_restoreNode (e := e) hu.consistent hn hr'
    have hrest := ih (fun k hk => hnodes k (List.mem_cons_of_mem _ hk))
      (restoreNode_from (e := e) hu n)
    rw [List.foldl_cons, List.count_cons]
    simp only [beq_iff_eq]
    omega

/-- A node of which an entry knows what it shows is left alone. -/
theorem restoreNode_eq_self {n : Nat}
    (known : e.known? (u.model.labelsBelow n) = some (u.model.known n)) : restoreNode e u n = u := by
  obtain ⟨found, hfound, hknown⟩ := Option.map_eq_some_iff.mp known
  have hexpanded : u.model.setExpanded n found.known.expanded = u.model := by
    rw [hknown]
    exact RuleModel.setExpanded_self u.model n
  unfold restoreNode
  simp only [hfound, Entry.restored_eq, hexpanded]
  split
  next => rfl
  next s hs =>
    obtain ⟨hr, hs⟩ : u.model.tree.isRule n = true ∧ found.known.choice? = some s := by
      split at hs
      next hr => exact ⟨hr, hs⟩
      next => cases hs
    have hselectable := Known.choice?_selectable hs
    obtain rfl : u.model.state n = s := by
      rw [hknown, Known.choice?] at hs
      split at hs
      next => exact Option.some.inj hs
      next => cases hs
    rw [RuleModel.setState_self hr hselectable]
    simp

theorem restoreNodes_eq_self {nodes : List Nat}
    (known : ∀ n ∈ nodes, e.known? (u.model.labelsBelow n) = some (u.model.known n)) :
    nodes.foldl (restoreNode e) u = u := by
  induction nodes with
  | nil => rfl
  | cons n rest ih =>
    rw [List.foldl_cons, restoreNode_eq_self (known n List.mem_cons_self)]
    exact ih fun k hk => known k (List.mem_cons_of_mem _ hk)

variable {s s' : Snapshot}

theorem restore?_eq_none_iff :
    s.restore? m = none ↔ s.root = none ∨ s.rootLabel ≠ some m.tree.rootLabel := by
  unfold restore?
  split
  next hlabel => simp [hlabel]
  next hlabel => simp [hlabel]

theorem restore?_eq_some (hs : s.restore? m = some (s', u)) :
    s.rootLabel = some m.tree.rootLabel ∧ s' = s.retrieve u.model ∧ ∃ e, s.root = some e ∧
      u = (List.range m.tree.size).foldl (restoreNode e) ⟨m, []⟩ := by
  unfold restore? at hs
  split at hs
  next hlabel =>
    obtain ⟨e, he, heq⟩ := Option.map_eq_some_iff.mp hs
    cases heq
    exact ⟨hlabel, rfl, e, he, rfl⟩
  next => cases hs

theorem changes_of_restore? (h : m.Consistent) (hs : s.restore? m = some (s', u)) {r : Nat}
    (hr : m.tree.isRule r = true) : u.changes.filter (·.node = r) =
      if u.model.state r = m.state r then []
      else [⟨r, m.tree.ruleId? r, m.state r, u.model.state r⟩] := by
  refine (restore?_from h hs).changes_of_once h ?_
  obtain ⟨-, -, e, -, hu⟩ := restore?_eq_some hs
  have hfirst : (⟨m, []⟩ : Update).From m := ⟨rfl, rfl, h, .refl⟩
  have hcount := length_changes_restoreNodes (e := e) (fun n hn => List.mem_range.mp hn) hfirst hr
  have honce := List.nodup_iff_count_le_one.mp (List.nodup_range (n := m.tree.size)) r
  rw [hu]
  simp only [List.filter_nil, List.length_nil] at hcount
  omega

/-- Of the entries of the same root, those at the paths of the model get its values. -/
theorem known?_retrieve (wf : m.tree.WellFormed) (label : s.rootLabel = some m.tree.rootLabel)
    {e : Entry} (root : s.root = some e) (labels : List String) : (s.retrieve m).known? labels =
      ((m.lastWith? m.tree.size labels).map m.known).or (s.known? labels) := by
  have hentry : (s.retrieve m).root = some (m.record e) := by simp [retrieve, label, root]
  rw [known?_eq, hentry, Option.bind_some, RuleModel.record,
    RuleModel.known?_recordNodes wf e (Nat.le_refl _), known?_eq, root, Option.bind_some]

/-- Taking a model over twice is taking it over once. -/
theorem retrieve_retrieve (wf : m.tree.WellFormed) (hs : s.Ordered)
    (label : s.rootLabel = some m.tree.rootLabel) {e : Entry} (root : s.root = some e) :
    (s.retrieve m).retrieve m = s.retrieve m := by
  have hrecord := RuleModel.record_record wf rfl (fun n _ => rfl) (hs e root)
  simp [retrieve, label, root, hrecord]

/-- A snapshot that has been applied fits the model, where siblings have different labels. -/
theorem restore?_again (h : m.Consistent) (ordered : s.Ordered) (distinct : m.tree.DistinctLabels)
    (hs : s.restore? m = some (s', u)) : s'.restore? u.model = some (s', ⟨u.model, []⟩) := by
  obtain ⟨hlabel, rfl, e, hroot, -⟩ := restore?_eq_some hs
  have hfrom := restore?_from h hs
  have hc := hfrom.consistent
  have hlabel : s.rootLabel = some u.model.tree.rootLabel := by rw [hlabel, hfrom.tree_eq]
  have hdistinct : u.model.tree.DistinctLabels := hfrom.tree_eq ▸ distinct
  have hentry : (s.retrieve u.model).root = some (u.model.record e) := by
    simp [retrieve, hlabel, hroot]
  have hlabel' : (s.retrieve u.model).rootLabel = some u.model.tree.rootLabel := rfl
  have hfold : (List.range u.model.tree.size).foldl (restoreNode (u.model.record e)) ⟨u.model, []⟩ =
      ⟨u.model, []⟩ := by
    refine restoreNodes_eq_self (u := ⟨u.model, []⟩) fun n hn => ?_
    have hn := List.mem_range.mp hn
    have hknown := RuleModel.known?_record_lastTwin hc.wellFormed hn e
    rwa [RuleModel.lastTwin_eq_self hc.wellFormed hdistinct hn] at hknown
  have hsame := retrieve_retrieve hc.wellFormed ordered hlabel hroot
  rw [restore?, if_pos hlabel', hentry, Option.map_some]
  simp only [hfold, hsame]

/-- What applying a snapshot makes of a model, and then of the snapshot. -/
structure Applied (s : Snapshot) (m : RuleModel) (s' : Snapshot) (u : Update) : Prop where
  tree_eq : u.model.tree = m.tree
  observers_eq : u.model.observers = m.observers
  expanded : ∀ n < m.tree.size, ∀ v, s.known? (m.labelsBelow n) = some v →
    u.model.isExpanded n = v.expanded
  expanded_kept : ∀ n < m.tree.size, s.known? (m.labelsBelow n) = none →
    u.model.isExpanded n = m.isExpanded n
  chosen : ∀ r, m.tree.isRule r = true → ∀ v, s.known? (m.labelsBelow r) = some v →
    v.isImport = false → v.state ∈ LoggingState.selectable → u.model.state r = v.state
  kept : ∀ r, m.tree.isRule r = true → (∀ v, s.known? (m.labelsBelow r) = some v →
    v.isImport = false → v.state ∉ LoggingState.selectable) → u.model.state r = m.state r
  follow : u.model.StatesFollowRules
  told : ∀ r, m.tree.isRule r = true → ∀ id, RuleModel.toldOf id r u.notices =
    if u.model.state r = m.state r then []
    else List.replicate (m.observers.weight id r)
      ⟨id, r, m.tree.ruleId? r, m.state r, u.model.state r⟩
  version_eq : s'.version = s.version
  rootLabel_eq : s'.rootLabel = s.rootLabel
  unmet : ∀ labels, (∀ n < m.tree.size, m.labelsBelow n ≠ labels) →
    s'.known? labels = s.known? labels
  recorded : ∀ n < m.tree.size, s'.known? (m.labelsBelow n) = some (u.model.known (m.lastTwin n))
  again : m.tree.DistinctLabels → s'.restore? u.model = some (s', ⟨u.model, []⟩)

theorem restore?_applied (h : m.Consistent) (ordered : s.Ordered)
    (hs : s.restore? m = some (s', u)) : s.Applied m s' u := by
  obtain ⟨hlabel, hs', e, hroot, -⟩ := restore?_eq_some hs
  obtain ⟨-, -, -, hfrom, hrestored⟩ := restore?_spec h hs
  have hat := hrestored e hroot
  have hknown : ∀ labels, s.known? labels = e.known? labels := fun labels => by
    rw [known?_eq, hroot, Option.bind_some]
  have hlabel' : s.rootLabel = some u.model.tree.rootLabel := by rw [hlabel, hfrom.tree_eq]
  have hafter : ∀ labels, s'.known? labels =
      ((m.lastWith? m.tree.size labels).map u.model.known).or (s.known? labels) := fun labels => by
    rw [hs', known?_retrieve hfrom.consistent.wellFormed hlabel' hroot,
      RuleModel.lastWith?_congr hfrom.tree_eq, hfrom.tree_eq]
  constructor
  case tree_eq => exact hfrom.tree_eq
  case observers_eq => exact hfrom.observers_eq
  case expanded =>
    intro n hn v hv
    rw [(hat n hn).expanded, ← hknown, hv]
    rfl
  case expanded_kept =>
    intro n hn hnone
    rw [(hat n hn).expanded, ← hknown, hnone]
    rfl
  case chosen =>
    intro r hr v hv himport hselectable
    rw [(hat r (lt_size_of_isRule hr)).state hr, ← hknown, hv, Option.bind_some, Known.choice?,
      if_pos ⟨himport, hselectable⟩]
    rfl
  case kept =>
    intro r hr hunfit
    rw [(hat r (lt_size_of_isRule hr)).state hr, ← hknown, bind_choice?_eq_none hunfit]
    rfl
  case follow => exact hfrom.consistent.statesFollowRules
  case told =>
    intro r hr id
    rw [RuleModel.toldOf, Update.notices, hfrom.observers_eq, Observers.notices_filter,
      changes_of_restore? h hs hr]
    split <;> simp
  case version_eq => rw [hs', retrieve]
  case rootLabel_eq => rw [hs', hlabel', retrieve]
  case unmet =>
    intro labels hunmet
    have hnone : m.lastWith? m.tree.size labels = none := by
      rw [← Option.not_isSome_iff_eq_none, RuleModel.lastWith?_isSome_iff]
      rintro ⟨n, hn, hl⟩
      exact hunmet n hn hl
    rw [hafter, hnone]
    rfl
  case recorded =>
    intro n hn
    rw [hafter, RuleModel.lastWith?_lastTwin hn]
    rfl
  case again => exact fun distinct => restore?_again h ordered distinct hs

/-- A snapshot is applied to any model in any state unless it has no entries or another root label,
and then nothing changes. Otherwise each node takes what is known of its label path, imports follow,
and the snapshot takes the values of the model and keeps all other entries; each observer is told of
a changed rule once for each of its subscriptions to it. Applying again changes nothing where
siblings have different labels. -/
theorem build_run_applied {resolve : String → AbsPath} {sourceRoot : String} {l : Location}
    {m₀ : RuleModel} (h : RuleModel.build resolve sourceRoot l = .ok m₀) (actions : List Action)
    (ordered : s.Ordered) :
    (s.restore? (m₀.run actions) = none ↔
      s.root = none ∨ s.rootLabel ≠ some (m₀.run actions).tree.rootLabel) ∧
    ∀ s' u, s.restore? (m₀.run actions) = some (s', u) → s.Applied (m₀.run actions) s' u := by
  obtain ⟨hc, -⟩ := RuleModel.run_consistent (RuleModel.build_consistent h) actions
  exact ⟨restore?_eq_none_iff, fun s' u hs => restore?_applied hc ordered hs⟩

/-- What was chosen in a model of another shape and then in this one, where both rules are always
logged. -/
def bothChosen (m₀ twins : RuleModel) : Snapshot :=
  (capture (twins.run [.edit (.setAllBelow 0 .ifTrue)])).merge
    (capture (m₀.run [.edit (.setAllBelow 0 .always), .setExpanded 1 true]))

theorem bothChosen_ordered (m₀ twins : RuleModel) : (bothChosen m₀ twins).Ordered :=
  merge_ordered (capture_ordered _) (capture_ordered _)

theorem exists_bothChosen_restored : ∃ m₀ twins s' u,
    RuleModel.build (AbsPath.lexical AbsPath.root) "/src" RuleModel.nestedLocation = .ok m₀ ∧
    RuleModel.build (AbsPath.lexical AbsPath.root) "/src" twinLocation = .ok twins ∧
    (bothChosen m₀ twins).restore? (m₀.run [RuleModel.followOuterTwice]) = some (s', u) ∧
    ((m₀.run [RuleModel.followOuterTwice]).tree.DistinctLabels ∧ m₀.tree.isRule 2 = true ∧
      u.model.state 2 = .always ∧ u.model.isExpanded 1 = true ∧
      s'.known? ["rate"] = some ⟨false, .ifTrue, false⟩ ∧
      (RuleModel.toldOf ⟨0⟩ 2 u.notices).length = 2) := by
  obtain ⟨m₀, h⟩ := RuleModel.exists_build_nestedLocation
  obtain ⟨twins, ht⟩ := exists_build_twinLocation
  have facts : ((RuleModel.build (AbsPath.lexical AbsPath.root) "/src"
      RuleModel.nestedLocation).toOption.bind fun m₀ : RuleModel =>
        (RuleModel.build (AbsPath.lexical AbsPath.root) "/src" twinLocation).toOption.bind
          fun twins : RuleModel =>
            ((bothChosen m₀ twins).restore? (m₀.run [RuleModel.followOuterTwice])).map fun r =>
              decide ((m₀.run [RuleModel.followOuterTwice]).tree.DistinctLabels ∧
                m₀.tree.isRule 2 = true ∧ r.2.model.state 2 = .always ∧
                r.2.model.isExpanded 1 = true ∧
                r.1.known? ["rate"] = some ⟨false, .ifTrue, false⟩ ∧
                (RuleModel.toldOf ⟨0⟩ 2 r.2.notices).length = 2)) = some true := by
    decide +kernel
  rw [h, ht] at facts
  obtain ⟨⟨s', u⟩, hs, hfacts⟩ := Option.map_eq_some_iff.mp facts
  exact ⟨m₀, twins, s', u, h, ht, hs, of_decide_eq_true hfacts⟩

/-- The rule that is followed twice changes, and keeps its choice; what the twins chose stays known. -/
theorem build_nested_applied : ∃ m₀ twins s' u,
    RuleModel.build (AbsPath.lexical AbsPath.root) "/src" RuleModel.nestedLocation = .ok m₀ ∧
    RuleModel.build (AbsPath.lexical AbsPath.root) "/src" twinLocation = .ok twins ∧
    (bothChosen m₀ twins).restore? (m₀.run [RuleModel.followOuterTwice]) = some (s', u) ∧
    (bothChosen m₀ twins).Applied (m₀.run [RuleModel.followOuterTwice]) s' u ∧
    u.model.state 2 = .always ∧ u.model.isExpanded 1 = true ∧
    s'.known? ["rate"] = some ⟨false, .ifTrue, false⟩ ∧
    s'.restore? u.model = some (s', ⟨u.model, []⟩) := by
  obtain ⟨m₀, twins, s', u, h, ht, hs, distinct, -, hstate, hexpanded, hknown, -⟩ :=
    exists_bothChosen_restored
  obtain ⟨-, happlied⟩ :=
    build_run_applied h [RuleModel.followOuterTwice] (bothChosen_ordered m₀ twins)
  have applied := happlied s' u hs
  exact ⟨m₀, twins, s', u, h, ht, hs, applied, hstate, hexpanded, hknown, applied.again distinct⟩

/-- An observer that has subscribed to a rule twice is told of it twice. -/
theorem not_applied_tells_once : ∃ m₀ twins s' u,
    RuleModel.build (AbsPath.lexical AbsPath.root) "/src" RuleModel.nestedLocation = .ok m₀ ∧
    RuleModel.build (AbsPath.lexical AbsPath.root) "/src" twinLocation = .ok twins ∧
    (bothChosen m₀ twins).restore? (m₀.run [RuleModel.followOuterTwice]) = some (s', u) ∧
    m₀.tree.isRule 2 = true ∧ (RuleModel.toldOf ⟨0⟩ 2 u.notices).length = 2 := by
  obtain ⟨m₀, twins, s', u, h, ht, hs, -, hrule, -, -, -, htold⟩ := exists_bothChosen_restored
  exact ⟨m₀, twins, s', u, h, ht, hs, hrule, htold⟩

end Snapshot

end RuleScope
