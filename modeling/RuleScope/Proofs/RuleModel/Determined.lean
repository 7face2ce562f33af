import RuleScope.Proofs.RuleModel.Changes
import RuleScope.Proofs.RuleTree.Outline
import RuleScope.Proofs.Snapshot.Restoring

namespace RuleScope

namespace RuleTree

/-- Trees with the same nodes and dependencies, whatever their places on disk. -/
structure SameShape (t t' : RuleTree) : Prop where
  size_eq : t'.size = t.size
  ruleId?_eq : ∀ n, t'.ruleId? n = t.ruleId? n
  dependencies_eq : t'.dependencies = t.dependencies

namespace SameShape

variable {t t' : RuleTree} (h : t.SameShape t')
include h

theorem isRule_eq (n : Nat) : t'.isRule n = t.isRule n := by
  rw [Bool.eq_iff_iff, isRule_iff_ruleId?, isRule_iff_ruleId?, h.ruleId?_eq]

theorem isImport_eq (n : Nat) : t'.isImport n = t.isImport n := by
  have rule : ∀ {t : RuleTree}, n < t.size → (t.isImport n = true ↔ ¬ t.isRule n = true) := by
    intro t hn
    refine ⟨fun hi hr => ?_, fun hr => ?_⟩
    · simp [isImport_eq_false_of_isRule hr] at hi
    · by_contra hi
      exact hr (isRule_of_not_isImport hn (by simpa using hi))
  rw [Bool.eq_iff_iff]
  rcases Nat.lt_or_ge n t.size with hn | hn
  · rw [rule hn, rule (h.size_eq ▸ hn), h.isRule_eq]
  · refine iff_of_false (fun hi => ?_) (fun hi => ?_)
    · exact absurd (h.size_eq ▸ lt_size_of_isImport hi) (Nat.not_lt.mpr hn)
    · exact absurd (lt_size_of_isImport hi) (Nat.not_lt.mpr hn)

theorem derived?_eq (states : Array LoggingState) (n : Nat) :
    t'.derived? states n = t.derived? states n := by
  simp only [derived?, members, h.dependencies_eq]

end SameShape

theorem SameOutline.sameShape {t t' : RuleTree} (h : t.SameOutline t') : t.SameShape t' :=
  ⟨h.size_eq, h.ruleId?_eq, h.dependencies_eq⟩

/-- States that fit a tree are determined by those of its rules. -/
theorem Settled.eq_of_rules {t t' : RuleTree} (wf : t.WellFormed) (shape : t.SameShape t')
    {states states' : Array LoggingState} (h : t.Settled states) (h' : t'.Settled states')
    (rules : ∀ r, t.isRule r = true → stateAt states' r = stateAt states r) (n : Nat) :
    stateAt states' n = stateAt states n := by
  -- From the leaves up: an import holds what follows from its members.
  induction n using wf.leavesFirst with
  | step n ih =>
    rcases Nat.lt_or_ge n t.size with hn | hn
    · by_cases hi : t.isImport n = true
      · have members : t.derived? states' n = t.derived? states n := by
          refine derived?_congr fun c hc => ih c ?_
          rwa [wf.members_eq n, if_pos hi] at hc
        rw [h.settledAt n hi, h'.settledAt n (by rwa [shape.isImport_eq]), shape.derived?_eq,
          members]
      · exact rules n (isRule_of_not_isImport hn (by simpa using hi))
    · have beyond : ∀ states : Array LoggingState, states.size = t.size →
          stateAt states n = .never := fun states hsize => by
        simp [stateAt, Array.getD_eq_getD_getElem?, hsize, hn]
      rw [beyond states h.live.size_eq, beyond states' (h'.live.size_eq.trans shape.size_eq)]

end RuleTree

namespace RuleModel

open RuleTree

variable {m m' : RuleModel}

theorem build_sameShape {resolve resolve' : String → AbsPath} {sourceRoot sourceRoot' : String}
    {l : Location} (h : build resolve sourceRoot l = .ok m)
    (h' : build resolve' sourceRoot' l = .ok m') : m.tree.SameShape m'.tree := by
  obtain ⟨t, ht, rfl⟩ := build_eq_ofTree h
  obtain ⟨t', ht', rfl⟩ := build_eq_ofTree h'
  obtain ⟨s, hs, outline⟩ := build_outline ht
  obtain rfl : s = t' := Except.ok.inj (hs.symm.trans ht')
  exact outline.sameShape

theorem Consistent.state_eq_of_rules (h : m.Consistent) (h' : m'.Consistent)
    (shape : m.tree.SameShape m'.tree)
    (rules : ∀ r, m.tree.isRule r = true → m'.state r = m.state r) (n : Nat) :
    m'.state n = m.state n :=
  Settled.eq_of_rules h.wellFormed shape h.settled h'.settled rules n

/-- Gives rules a state, one after the other. -/
def setEach (m : RuleModel) (s : LoggingState) (ids : List RuleId) : Except ChangeFault RuleModel :=
  ids.foldlM (fun m id => (m.setRuleState id s).map Update.model) m

theorem setRuleState_rule (h : m.Consistent) {r : Nat} {id : RuleId} {s : LoggingState}
    (hr : m.tree.ruleId? r = some id) (hs : s ∈ LoggingState.selectable) :
    ∃ u, m.setRuleState id s = .ok u ∧ u.From m ∧
      ∀ k, m.tree.isRule k = true → u.model.state k = if k = r then s else m.state k := by
  have sound := h.wellFormed.sound
  have hnode : m.tree.rule? id = some r := by
    cases hget : m.tree.rule? id with
    | none =>
      have listed := List.mem_map_of_mem (f := Prod.fst) ((sound.mem_rules_iff id r).mpr hr)
      exact absurd listed (Table.get?_eq_none_iff.mp hget)
    | some k =>
      have hk := (sound.mem_rules_iff id k).mp (Table.mem_of_get? hget)
      rw [sound.ruleId?_inj hk hr]
  have hrule : m.tree.isRule r = true := isRule_iff_ruleId?.mpr (by simp [hr])
  obtain ⟨u, hu, _, _, hstate⟩ := setState_rule h hrule hs
  have hset : m.setRuleState id s = .ok u := by rw [setRuleState, hnode]; exact hu
  exact ⟨u, hset, setRuleState_from h hset, hstate⟩

/-- Every rule that is listed gets the state, and every other rule keeps its own. -/
theorem setEach_rules (h : m.Consistent) {s : LoggingState} (hs : s ∈ LoggingState.selectable)
    (ids : List RuleId) (known : ∀ id ∈ ids, ∃ r, m.tree.ruleId? r = some id) :
    ∃ m', m.setEach s ids = .ok m' ∧ m'.Consistent ∧ m'.tree = m.tree ∧
      ∀ r id, m.tree.ruleId? r = some id → m'.state r = if id ∈ ids then s else m.state r := by
  induction ids generalizing m with
  | nil => exact ⟨m, rfl, h, rfl, fun r id _ => by simp⟩
  | cons first rest ih =>
    obtain ⟨n, hn⟩ := known first List.mem_cons_self
    obtain ⟨u, hu, hfrom, hstate⟩ := setRuleState_rule h hn hs
    obtain ⟨m', hm', hc, htree, hrest⟩ := ih hfrom.consistent fun id hid => by
      rw [hfrom.tree_eq]
      exact known id (List.mem_cons_of_mem _ hid)
    refine ⟨m', ?_, hc, htree.trans hfrom.tree_eq, fun r id hr => ?_⟩
    · simp only [setEach, List.foldlM_cons, hu, Except.map]
      exact hm'
    · have hr' : u.model.tree.ruleId? r = some id := by rwa [hfrom.tree_eq]
      rw [hrest r id hr', hstate r (isRule_iff_ruleId?.mpr (by simp [hr]))]
      by_cases hrn : r = n
      · subst hrn
        obtain rfl : id = first := Option.some.inj (hr.symm.trans hn)
        simp
      · have hne : id ≠ first := fun he => by
          rw [he] at hr
          exact hrn (h.wellFormed.sound.ruleId?_inj hr hn)
        simp [hrn, hne]

/-- The rules below an import get the state, and every other rule keeps its own. -/
theorem setAllBelow_rules (h : m.Consistent) {n : Nat} (hn : m.tree.isImport n = true)
    {s : LoggingState} (hs : s ∈ LoggingState.selectable) [DecidablePred (m.tree.Below n)] :
    ∃ u, m.setAllBelow n s = .ok u ∧ u.From m ∧
      ∀ r, m.tree.isRule r = true → u.model.state r = if m.tree.Below n r then s else m.state r := by
  have hs : s.isDerived = false := (LoggingState.isDerived_eq_false_iff s).mpr hs
  have hlt := lt_size_of_isImport hn
  have hnode : m.tree.node? n = some m.tree.nodes[n] := Array.getElem?_eq_getElem hlt
  have hrule : m.tree.nodes[n].isRule = false := by
    simpa [isImport, hnode, Node.isRule] using hn
  have hset : m.setAllBelow n s = .ok (m.finish (m.sweep.assignBelow m.tree n s)) := by
    simp [setAllBelow, hs, hnode, hrule]
  refine ⟨_, hset, setAllBelow_from h hset, fun r hr => ?_⟩
  have below : m.tree.Within n r ↔ m.tree.Below n r := by
    refine ⟨fun hw => below_of_within h.wellFormed hw ?_, within_of_below h.wellFormed⟩
    rintro rfl
    simp [isImport_eq_false_of_isRule hr] at hn
  classical
  have states := Sweep.assignBelow_rule h.wellFormed (w := m.sweep) h.settled hlt hs hr
  simp only [below] at states
  exact states

theorem setAllBelow_eq_setEach (h : m.Consistent) {n : Nat} (hn : m.tree.isImport n = true)
    {s : LoggingState} (hs : s ∈ LoggingState.selectable) {u : Update}
    (hu : m.setAllBelow n s = .ok u) {ids : List RuleId}
    (hids : ∀ id, id ∈ ids ↔ ∃ r, m.tree.Below n r ∧ m.tree.ruleId? r = some id) :
    ∃ m', m.setEach s ids = .ok m' ∧ ∀ k, m'.state k = u.model.state k := by
  classical
  obtain ⟨_, hset, hfrom, hstate⟩ := setAllBelow_rules h hn hs
  cases hu.symm.trans hset
  obtain ⟨m', hm', hc, htree, hstate'⟩ := setEach_rules h hs ids fun id hid => by
    obtain ⟨r, _, hr⟩ := (hids id).mp hid
    exact ⟨r, hr⟩
  refine ⟨m', hm', hfrom.consistent.state_eq_of_rules hc ?_ fun r hr => ?_⟩
  · rw [htree, hfrom.tree_eq]
    exact ⟨rfl, fun _ => rfl, rfl⟩
  · rw [hfrom.tree_eq] at hr
    obtain ⟨id, hid⟩ := Option.isSome_iff_exists.mp (isRule_iff_ruleId?.mp hr)
    have listed : id ∈ ids ↔ m.tree.Below n r := by
      rw [hids]
      constructor
      · rintro ⟨k, hb, hk⟩
        rwa [h.wellFormed.sound.ruleId?_inj hid hk]
      · exact fun hb => ⟨r, hb, hid⟩
    rw [hstate' r id hid, hstate r hr]
    simp only [listed]

/-- Setting all rules below an import gives each of them the state and changes no other rule, and it
is setting each of them, in any order. Models of one location file that end with the same states of
the rules end with the same states of all nodes, whatever was done to each. -/
theorem build_run_state_eq_of_rules {resolve resolve' : String → AbsPath}
    {sourceRoot sourceRoot' : String} {l : Location} {m₀ m₀' : RuleModel}
    (h : build resolve sourceRoot l = .ok m₀) (h' : build resolve' sourceRoot' l = .ok m₀')
    (actions actions' : List Action) :
    (∀ n s, m₀.tree.isImport n = true → s ∈ LoggingState.selectable →
      ∃ u, (m₀.run actions).setAllBelow n s = .ok u ∧
        (∀ r, m₀.tree.isRule r = true → (m₀.tree.Below n r → u.model.state r = s) ∧
          (¬ m₀.tree.Below n r → u.model.state r = (m₀.run actions).state r)) ∧
        ∀ ids : List RuleId,
          (∀ id, id ∈ ids ↔ ∃ r, m₀.tree.Below n r ∧ m₀.tree.ruleId? r = some id) →
          ∃ m, (m₀.run actions).setEach s ids = .ok m ∧ ∀ k, m.state k = u.model.state k) ∧
    ((∀ r, m₀.tree.isRule r = true → (m₀'.run actions').state r = (m₀.run actions).state r) →
      ∀ k, (m₀'.run actions').state k = (m₀.run actions).state k) := by
  classical
  obtain ⟨hc, htree⟩ := run_consistent (build_consistent h) actions
  obtain ⟨hc', htree'⟩ := run_consistent (build_consistent h') actions'
  refine ⟨fun n s hn hs => ?_, fun rules => ?_⟩
  · rw [← htree] at hn
    obtain ⟨u, hu, _, hstate⟩ := setAllBelow_rules hc hn hs
    refine ⟨u, hu, fun r hr => ?_, fun ids hids => ?_⟩
    · rw [← htree] at hr ⊢
      exact ⟨fun hb => (hstate r hr).trans (if_pos hb), fun hb => (hstate r hr).trans (if_neg hb)⟩
    · rw [← htree] at hids
      exact setAllBelow_eq_setEach hc hn hs hu hids
  · refine hc.state_eq_of_rules hc' ?_ fun r hr => rules r (htree ▸ hr)
    rw [htree, htree']
    exact build_sameShape h h'

/-- The outer rule of the nested location. -/
def outerId : RuleId := (RuleId.ofInt? 7).getD default

def innerId : RuleId := (RuleId.ofInt? 9).getD default

/-- Both rules in one sweep, the inner one having been set before. -/
def sweptRules : List Action := [.edit (.setState 4 .ifFalse), .edit (.setAllBelow 0 .always)]

/-- The same rules one by one, the inner one first. -/
def singleRules : List Action :=
  [.edit (.setRuleState innerId .always), .setExpanded 1 true, .edit (.setRuleState outerId .always)]

theorem build_nested_state_eq_of_rules : ∃ m₀ m₀',
    build (AbsPath.lexical AbsPath.root) "/src" nestedLocation = .ok m₀ ∧
    build (AbsPath.lexical AbsPath.root) "/old/src" nestedLocation = .ok m₀' ∧
    (∃ u m, (m₀.run sweptRules).setAllBelow 1 .ifTrue = .ok u ∧
      (m₀.run sweptRules).setEach .ifTrue [innerId, outerId] = .ok m ∧
      ∀ k, m.state k = u.model.state k) ∧
    ∀ k, (m₀'.run singleRules).state k = (m₀.run sweptRules).state k := by
  obtain ⟨m₀, h⟩ : ∃ m, build (AbsPath.lexical AbsPath.root) "/src" nestedLocation = .ok m :=
    ⟨_, rfl⟩
  obtain ⟨m₀', h'⟩ : ∃ m, build (AbsPath.lexical AbsPath.root) "/old/src" nestedLocation = .ok m :=
    ⟨_, rfl⟩
  have facts : ((build (AbsPath.lexical AbsPath.root) "/src" nestedLocation).toOption.bind
      fun m : RuleModel =>
        (build (AbsPath.lexical AbsPath.root) "/old/src" nestedLocation).toOption.map
          fun m' : RuleModel => decide (m.tree.isImport 1 = true ∧
            (2 ∈ m.tree.children 1 ∧ 3 ∈ m.tree.children 2 ∧ 4 ∈ m.tree.children 3) ∧
            (m.tree.ruleId? 2 = some outerId ∧ m.tree.ruleId? 4 = some innerId) ∧
            (∀ r < m.tree.size, m.tree.isRule r = true → r = 2 ∨ r = 4) ∧
            ∀ r < m.tree.size, (m'.run singleRules).state r = (m.run sweptRules).state r)) =
      some true := by
    decide +kernel
  rw [h, h'] at facts
  obtain ⟨hi, ⟨h12, h23, h34⟩, ⟨h2, h4⟩, only, hstates⟩ := of_decide_eq_true (Option.some.inj facts)
  obtain ⟨hbelow, hsame⟩ := build_run_state_eq_of_rules h h' sweptRules singleRules
  obtain ⟨u, hu, -, heach⟩ := hbelow 1 .ifTrue hi (by decide)
  have below2 : m₀.tree.Below 1 2 := .single h12
  obtain ⟨m, hm, hstate⟩ := heach [innerId, outerId] fun id => by
    constructor
    · intro hid
      rcases List.mem_pair.mp hid with rfl | rfl
      · exact ⟨4, (below2.tail h23).tail h34, h4⟩
      · exact ⟨2, below2, h2⟩
    · rintro ⟨r, -, hr⟩
      have hrule : m₀.tree.isRule r = true := isRule_iff_ruleId?.mpr (by simp [hr])
      rcases only r (lt_size_of_isRule hrule) hrule with rfl | rfl
      · exact List.mem_pair.mpr (Or.inr (Option.some.inj (hr.symm.trans h2)))
      · exact List.mem_pair.mpr (Or.inl (Option.some.inj (hr.symm.trans h4)))
  exact ⟨m₀, m₀', h, h', ⟨u, m, hu, hm, hstate⟩,
    hsame fun r hr => hstates r (lt_size_of_isRule hr)⟩

end RuleModel

end RuleScope
