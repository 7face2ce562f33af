import RuleScope.Proofs.RuleModel.Sweep
import RuleScope.Snapshot.Model

namespace RuleScope

open RuleTree

theorem eq_ok_of_toOption {ε α : Type} {r : Except ε α} {a : α} (h : r.toOption = some a) :
    r = .ok a := by
  cases r with
  | error => simp [Except.toOption] at h
  | ok b => simpa [Except.toOption] using h

/-- `n` lies somewhere below `a`. -/
def RuleTree.Below (t : RuleTree) (a n : Nat) : Prop :=
  Relation.TransGen (fun p c => c ∈ t.children p) a n

/-- A change of states. -/
inductive Edit where
  | setState (n : Nat) (s : LoggingState)
  | setRuleState (id : RuleId) (s : LoggingState)
  | setAllBelow (n : Nat) (s : LoggingState)
  | restore (snapshot : Snapshot)

inductive Action where
  | edit (e : Edit)
  | setExpanded (n : Nat) (expanded : Bool)
  | subscribe (receiver : Receiver) (nodes : List Nat)
  | unsubscribe (id : ObserverId)

namespace RuleModel

/-- What a change of states makes of a model, unless it fails. -/
def edit? (m : RuleModel) : Edit → Option Update
  | .setState n s => (m.setState n s).toOption
  | .setRuleState id s => (m.setRuleState id s).toOption
  | .setAllBelow n s => (m.setAllBelow n s).toOption
  | .restore snapshot => (snapshot.restore? m).map Prod.snd

/-- A failed change leaves the model as it is. -/
def act (m : RuleModel) : Action → RuleModel
  | .edit e => ((m.edit? e).map Update.model).getD m
  | .setExpanded n expanded => m.setExpanded n expanded
  | .subscribe receiver nodes => (m.subscribe receiver nodes).1
  | .unsubscribe id => (m.unsubscribe id).1

def run (m : RuleModel) (actions : List Action) : RuleModel := actions.foldl act m

/-- A model whose states fit its tree. -/
structure Consistent (m : RuleModel) : Prop where
  wellFormed : m.tree.WellFormed
  settled : m.tree.Settled m.states
  expanded_size : m.expanded.size = m.tree.size

/-- Every rule holds a state that can be selected, an import without rules below it is `ruleLess`,
and every other import holds the common state of those of its children that are not. -/
structure StatesFollowRules (m : RuleModel) : Prop where
  rule_selectable : ∀ r, m.tree.isRule r = true → m.state r ∈ LoggingState.selectable
  import_ruleLess : ∀ n, m.tree.isImport n = true →
    (∀ r, m.tree.Below n r → m.tree.isRule r = false) → m.state n = .ruleLess
  import_live : ∀ n, m.tree.isImport n = true → (∃ r, m.tree.Below n r ∧ m.tree.isRule r = true) →
    ∃ c ∈ m.tree.children n, m.state c ≠ .ruleLess
  import_common : ∀ n, m.tree.isImport n = true → (∃ r, m.tree.Below n r ∧ m.tree.isRule r = true) →
    ∀ s, (∀ c ∈ m.tree.children n, m.state c ≠ .ruleLess → m.state c = s) → m.state n = s
  import_mixed : ∀ n, m.tree.isImport n = true → ∀ c ∈ m.tree.children n,
    ∀ d ∈ m.tree.children n, m.state c ≠ .ruleLess → m.state d ≠ .ruleLess →
    m.state c ≠ m.state d → m.state n = .mixed

theorem ofTree_consistent {t : RuleTree} (wf : t.WellFormed) : (ofTree t).Consistent :=
  ⟨wf, initialStates_settled wf, by simp [ofTree]⟩

theorem build_eq_ofTree {resolve : String → AbsPath} {sourceRoot : String} {l : Location}
    {m : RuleModel} (h : build resolve sourceRoot l = .ok m) :
    ∃ t, RuleTree.build resolve sourceRoot l = .ok t ∧ m = ofTree t := by
  unfold build at h
  cases ht : RuleTree.build resolve sourceRoot l with
  | error e => simp [ht, Except.map] at h
  | ok t =>
    obtain rfl : ofTree t = m := by simpa [ht, Except.map] using h
    exact ⟨t, rfl, rfl⟩

theorem build_consistent {resolve : String → AbsPath} {sourceRoot : String} {l : Location}
    {m : RuleModel} (h : build resolve sourceRoot l = .ok m) : m.Consistent := by
  obtain ⟨t, ht, rfl⟩ := build_eq_ofTree h
  exact ofTree_consistent (build_wellFormed ht)

theorem Consistent.withObservers {m : RuleModel} (h : m.Consistent) (observers : Observers) :
    ({ m with observers } : RuleModel).Consistent :=
  ⟨h.wellFormed, h.settled, h.expanded_size⟩

end RuleModel

/-- `u` comes from `m` by writes that the tree allows, and fits the tree. -/
structure Update.From (m : RuleModel) (u : Update) : Prop where
  tree_eq : u.model.tree = m.tree
  observers_eq : u.model.observers = m.observers
  consistent : u.model.Consistent
  writes : Sweep.Writes m.tree ⟨m.states, []⟩ ⟨u.model.states, u.changes⟩

theorem Sweep.Writes.prepend {t : RuleTree} {w w' : Sweep} (h : Sweep.Writes t w w')
    (changes : List Change) :
    Sweep.Writes t ⟨w.states, changes ++ w.changes⟩ ⟨w'.states, changes ++ w'.changes⟩ := by
  induction h with
  | refl => exact .refl
  | @write w' n s _ hs ih =>
    have same : (Sweep.write t ⟨w'.states, changes ++ w'.changes⟩ n s) =
        ⟨(w'.write t n s).states, changes ++ (w'.write t n s).changes⟩ := by
      unfold Sweep.write Sweep.state
      split <;> simp
    rw [← same]
    exact ih.write hs

namespace RuleModel

variable {m : RuleModel}

theorem setExpanded_consistent (h : m.Consistent) (n : Nat) (expanded : Bool) :
    (m.setExpanded n expanded).Consistent :=
  ⟨h.wellFormed, h.settled, by simpa [setExpanded] using h.expanded_size⟩

/-- A sweep that settles the tree makes an update. -/
theorem finish_from (h : m.Consistent) {w : Sweep} (hs : m.tree.Settled w.states)
    (hw : Sweep.Writes m.tree m.sweep w) : (m.finish w).From m :=
  ⟨rfl, rfl, ⟨h.wellFormed, hs, h.expanded_size⟩, hw⟩

theorem setAllBelow_from (h : m.Consistent) {n : Nat} {s : LoggingState} {u : Update}
    (hu : m.setAllBelow n s = .ok u) : u.From m := by
  unfold setAllBelow at hu
  split at hu
  next => cases hu
  next hs =>
    have hs : s.isDerived = false := by simpa using hs
    split at hu
    next => cases hu
    next node hnode =>
      have hn : n < m.tree.size := (Array.getElem?_eq_some_iff.mp hnode).1
      cases hu
      split
      next hr =>
        have hr : m.tree.isRule n = true := by simpa [isRule, hnode] using hr
        obtain ⟨hsettled, hw⟩ := Sweep.assign_settled h.wellFormed (w := m.sweep) h.settled hr hs
        exact finish_from h hsettled hw
      next =>
        obtain ⟨hsettled, hw⟩ :=
          Sweep.assignBelow_settled h.wellFormed (w := m.sweep) h.settled hn hs
        exact finish_from h hsettled hw

theorem setState_from (h : m.Consistent) {n : Nat} {s : LoggingState} {u : Update}
    (hu : m.setState n s = .ok u) : u.From m :=
  setAllBelow_from h hu

theorem setRuleState_from (h : m.Consistent) {id : RuleId} {s : LoggingState} {u : Update}
    (hu : m.setRuleState id s = .ok u) : u.From m := by
  unfold setRuleState at hu
  split at hu
  next => exact setState_from h hu
  next => cases hu

end RuleModel

namespace Snapshot

variable {m : RuleModel}

/-- Restoring one node continues an update. -/
theorem restoreNode_from {e : Entry} {u : Update} (hu : u.From m) (n : Nat) :
    (restoreNode e u n).From m := by
  have expanded : ∀ b, (⟨u.model.setExpanded n b, u.changes⟩ : Update).From m := fun b =>
    ⟨hu.tree_eq, hu.observers_eq, RuleModel.setExpanded_consistent hu.consistent n b, hu.writes⟩
  unfold restoreNode
  split
  next => exact hu
  next found _ =>
    dsimp only
    split
    next => exact expanded _
    next s _ =>
      split
      next v hv =>
        have hx := expanded (found.restored (u.model.tree.isRule n)).1
        have hfrom := RuleModel.setState_from hx.consistent hv
        have hw := hfrom.writes.prepend u.changes
        rw [hx.tree_eq] at hw
        rw [List.append_nil] at hw
        exact ⟨hfrom.tree_eq.trans hx.tree_eq, hfrom.observers_eq.trans hx.observers_eq,
          hfrom.consistent, hx.writes.trans hw⟩
      next => exact expanded _

theorem restore?_from (h : m.Consistent) {s s' : Snapshot} {u : Update}
    (hs : s.restore? m = some (s', u)) : u.From m := by
  unfold restore? at hs
  split at hs
  next =>
    obtain ⟨e, _, he⟩ := Option.map_eq_some_iff.mp hs
    have key : ∀ (nodes : List Nat) (u : Update), u.From m → (nodes.foldl (restoreNode e) u).From m := by
      intro nodes
      induction nodes with
      | nil => exact fun u hu => hu
      | cons n rest ih => exact fun u hu => ih _ (restoreNode_from hu n)
    cases he
    exact key _ _ ⟨rfl, rfl, h, .refl⟩
  next => cases hs

end Snapshot

namespace RuleModel

variable {m : RuleModel}

theorem edit?_from (h : m.Consistent) {e : Edit} {u : Update} (hu : m.edit? e = some u) :
    u.From m := by
  cases e with
  | setState n s => exact setState_from h (eq_ok_of_toOption hu)
  | setRuleState id s => exact setRuleState_from h (eq_ok_of_toOption hu)
  | setAllBelow n s => exact setAllBelow_from h (eq_ok_of_toOption hu)
  | restore snapshot =>
    obtain ⟨⟨s', u'⟩, hs, rfl⟩ := Option.map_eq_some_iff.mp hu
    exact Snapshot.restore?_from h hs

theorem act_consistent (h : m.Consistent) (a : Action) :
    (m.act a).Consistent ∧ (m.act a).tree = m.tree := by
  cases a with
  | edit e =>
    cases hu : m.edit? e with
    | none => simpa [act, hu] using h
    | some u =>
      have := edit?_from h hu
      simpa [act, hu] using ⟨this.consistent, this.tree_eq⟩
  | setExpanded n expanded => exact ⟨setExpanded_consistent h n expanded, rfl⟩
  | subscribe receiver nodes => exact ⟨⟨h.wellFormed, h.settled, h.expanded_size⟩, rfl⟩
  | unsubscribe id => exact ⟨⟨h.wellFormed, h.settled, h.expanded_size⟩, rfl⟩

theorem run_consistent (h : m.Consistent) (actions : List Action) :
    (m.run actions).Consistent ∧ (m.run actions).tree = m.tree := by
  induction actions generalizing m with
  | nil => exact ⟨h, rfl⟩
  | cons a rest ih =>
    obtain ⟨ha, htree⟩ := act_consistent h a
    obtain ⟨hrun, htree'⟩ := ih ha
    exact ⟨hrun, htree'.trans htree⟩

theorem within_of_below (wf : m.tree.WellFormed) {n r : Nat} (h : m.tree.Below n r) :
    m.tree.Within n r := by
  induction h with
  | single h => exact wf.within_of_mem_children h
  | tail _ h ih => exact ih.tail ((wf.mem_children_iff _ _).mp h)

theorem below_of_within (wf : m.tree.WellFormed) {n r : Nat} (h : m.tree.Within n r) (hne : n ≠ r) :
    m.tree.Below n r := by
  rcases Relation.reflTransGen_iff_eq_or_transGen.mp h with he | ht
  · exact absurd he.symm hne
  · exact Relation.TransGen.mono (fun p c hp => (wf.mem_children_iff p c).mpr hp) _ _ ht

theorem hasRules_iff_below (wf : m.tree.WellFormed) {n : Nat} (hi : m.tree.isImport n = true) :
    m.tree.HasRules n ↔ ∃ r, m.tree.Below n r ∧ m.tree.isRule r = true := by
  constructor
  · rintro ⟨r, hr, hw⟩
    refine ⟨r, below_of_within wf hw ?_, hr⟩
    rintro rfl
    simp [isImport_eq_false_of_isRule hr] at hi
  · rintro ⟨r, hb, hr⟩
    exact ⟨r, hr, within_of_below wf hb⟩

theorem Consistent.statesFollowRules (h : m.Consistent) : m.StatesFollowRules := by
  have wf := h.wellFormed
  have settled : ∀ n, m.tree.isImport n = true → m.state n =
      (LoggingState.common? ((m.tree.children n).map m.state)).getD .ruleLess := by
    intro n hi
    have hs := h.settled.settledAt n hi
    rwa [SettledAt, derived?, wf.members_eq n, if_pos hi] at hs
  have follows : ∀ n, m.tree.isImport n = true →
      (∃ r, m.tree.Below n r ∧ m.tree.isRule r = true) →
      LoggingState.common? ((m.tree.children n).map m.state) = some (m.state n) := by
    intro n hi hr
    have hne := h.settled.live.derived?_eq_none_iff wf hi
    rw [derived?, wf.members_eq n, if_pos hi, hasRules_iff_below wf hi] at hne
    have hsn := settled n hi
    cases hc : LoggingState.common? ((m.tree.children n).map m.state) with
    | none => exact absurd hr (hne.mp hc)
    | some s =>
      rw [hc, Option.getD_some] at hsn
      rw [hsn]
  refine ⟨?_, ?_, ?_, ?_, ?_⟩
  · intro r hr
    exact (LoggingState.isDerived_eq_false_iff _).mp (h.settled.live.selectable r hr)
  · intro n hi hnone
    refine (h.settled.live.ruleLess_iff n (lt_size_of_isImport hi)).mpr fun hr => ?_
    obtain ⟨r, hb, hrule⟩ := (hasRules_iff_below wf hi).mp hr
    rw [hnone r hb] at hrule
    cases hrule
  · intro n hi hr
    obtain ⟨⟨x, hx, hne⟩, _⟩ := LoggingState.common?_eq_some (follows n hi hr)
    obtain ⟨c, hc, rfl⟩ := List.mem_map.mp hx
    exact ⟨c, hc, hne⟩
  · intro n hi hr s hall
    have hall : ∀ x ∈ (m.tree.children n).map m.state, x ≠ .ruleLess → x = s := by
      intro x hx
      obtain ⟨c, hc, rfl⟩ := List.mem_map.mp hx
      exact hall c hc
    obtain ⟨⟨x, hx, hne⟩, same | ⟨_, y, hy, z, hz, hny, hnz, hyz⟩⟩ :=
      LoggingState.common?_eq_some (follows n hi hr)
    · exact (same x hx hne).symm.trans (hall x hx hne)
    · exact absurd ((hall y hy hny).trans (hall z hz hnz).symm) hyz
  · intro n hi c hc d hd hnc hnd hcd
    have hx := List.mem_map_of_mem (f := m.state) hc
    have hy := List.mem_map_of_mem (f := m.state) hd
    have hsn := settled n hi
    cases hs : LoggingState.common? ((m.tree.children n).map m.state) with
    | none => exact absurd (LoggingState.common?_eq_none_iff.mp hs _ hx) hnc
    | some s =>
      rw [hs, Option.getD_some] at hsn
      rcases (LoggingState.common?_eq_some hs).2 with same | ⟨hm, _⟩
      · exact absurd ((same _ hx hnc).trans (same _ hy hnd).symm) hcd
      · exact hsn.trans hm

/-- After any run on a built model, rules hold selectable states and imports follow them. -/
theorem build_run_statesFollowRules {resolve : String → AbsPath} {sourceRoot : String}
    {l : Location} (h : build resolve sourceRoot l = .ok m) (actions : List Action) :
    (m.run actions).tree = m.tree ∧ (m.run actions).StatesFollowRules := by
  obtain ⟨hc, htree⟩ := run_consistent (build_consistent h) actions
  exact ⟨htree, hc.statesFollowRules⟩

/-- An import with a rule that has an import with a rule below it, beside an import without rules. -/
def nestedLocation : Location :=
  ⟨"rules", 1, .imported none [], [
    ⟨"taxes", 2, .imported none [], [
      ⟨"rate", 3, .rule ⟨7, by decide, by decide⟩ "rate > 0" [], [
        ⟨"bands", 4, .imported none [], [
          ⟨"low", 5, .rule ⟨9, by decide, by decide⟩ "low < high" [], []⟩]⟩]⟩]⟩,
    ⟨"drafts", 6, .imported none [], []⟩]⟩

theorem exists_build_nestedLocation :
    ∃ m, build (AbsPath.lexical AbsPath.root) "/src" nestedLocation = .ok m := ⟨_, rfl⟩

theorem build_nested_statesFollowRules : ∃ m,
    build (AbsPath.lexical AbsPath.root) "/src" nestedLocation = .ok m ∧
      (m.run [.edit (.setAllBelow 1 .always), .edit (.setState 2 .mixed), .subscribe .listener [2, 4],
        .edit (.setState 4 .never), .setExpanded 0 true]).StatesFollowRules := by
  obtain ⟨m, hm⟩ : ∃ m, build (AbsPath.lexical AbsPath.root) "/src" nestedLocation = .ok m :=
    ⟨_, rfl⟩
  exact ⟨m, hm, (build_run_statesFollowRules hm _).2⟩

end RuleModel

end RuleScope
