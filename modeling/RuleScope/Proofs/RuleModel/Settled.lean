import RuleScope.Proofs.RuleTree.WellFormed
import RuleScope.RuleModel.Change

namespace RuleScope

namespace LoggingState

theorem common?_eq_none_iff {states : List LoggingState} :
    common? states = none ↔ ∀ s ∈ states, s = ruleLess := by
  unfold common?
  split
  next h => simpa [List.filter_eq_nil_iff] using h
  next s rest h =>
    have hs : s ∈ states.filter (· ≠ ruleLess) := h ▸ List.mem_cons_self
    obtain ⟨hmem, hne⟩ := List.mem_filter.mp hs
    refine ⟨by simp, fun hall => ?_⟩
    simp [hall s hmem] at hne

/-- A common state is that of some live node; either all live nodes hold it, or it is `mixed` and
two of them disagree. -/
theorem common?_eq_some {states : List LoggingState} {s : LoggingState}
    (h : common? states = some s) :
    (∃ x ∈ states, x ≠ ruleLess) ∧ ((∀ x ∈ states, x ≠ ruleLess → x = s) ∨
      s = mixed ∧ ∃ x ∈ states, ∃ y ∈ states, x ≠ ruleLess ∧ y ≠ ruleLess ∧ x ≠ y) := by
  have live : ∀ x, x ∈ states.filter (· ≠ ruleLess) ↔ x ∈ states ∧ x ≠ ruleLess := by simp
  unfold common? at h
  split at h
  next => cases h
  next first rest hl =>
    have hfirst := (live first).mp (hl ▸ List.mem_cons_self)
    refine ⟨⟨first, hfirst⟩, ?_⟩
    cases h
    split
    next hall =>
      refine Or.inl fun x hx hne => ?_
      have hm : x ∈ first :: rest := hl ▸ (live x).mpr ⟨hx, hne⟩
      rcases List.mem_cons.mp hm with rfl | hm
      · rfl
      · simpa using List.all_eq_true.mp hall x hm
    next hall =>
      obtain ⟨y, hy, hne⟩ : ∃ y ∈ rest, y ≠ first := by simpa using hall
      have hylive := (live y).mp (hl ▸ List.mem_cons_of_mem _ hy)
      exact Or.inr ⟨rfl, first, hfirst.1, y, hylive.1, hfirst.2, hylive.2, hne.symm⟩

theorem common?_ne_ruleLess {states : List LoggingState} {s : LoggingState}
    (h : common? states = some s) : s ≠ ruleLess := by
  obtain ⟨⟨x, hx, hne⟩, hall | ⟨rfl, _⟩⟩ := common?_eq_some h
  · exact hall x hx hne ▸ hne
  · decide

theorem ne_ruleLess_of_not_derived {s : LoggingState} (h : s.isDerived = false) : s ≠ ruleLess := by
  rintro rfl
  cases h

end LoggingState

namespace RuleTree

def HasRules (t : RuleTree) (n : Nat) : Prop := ∃ r, t.isRule r = true ∧ t.Within n r

/-- States that tell where the rules are. -/
structure Live (t : RuleTree) (states : Array LoggingState) : Prop where
  size_eq : states.size = t.size
  ruleLess_iff : ∀ n < t.size, stateAt states n = .ruleLess ↔ ¬t.HasRules n
  selectable : ∀ r, t.isRule r = true → (stateAt states r).isDerived = false

/-- An import holds what follows from its members. -/
def SettledAt (t : RuleTree) (states : Array LoggingState) (n : Nat) : Prop :=
  stateAt states n = (t.derived? states n).getD .ruleLess

/-- All imports but the given ones hold what follows from their members. -/
def SettledBut (t : RuleTree) (states : Array LoggingState) (open_ : Nat → Prop) : Prop :=
  ∀ n, t.isImport n = true → ¬open_ n → t.SettledAt states n

/-- States that fit the tree. -/
structure Settled (t : RuleTree) (states : Array LoggingState) : Prop where
  live : t.Live states
  settledAt : ∀ n, t.isImport n = true → t.SettledAt states n

theorem stateAt_set (states : Array LoggingState) (n : Nat) (s : LoggingState) (k : Nat) :
    stateAt (states.setIfInBounds n s) k =
      if k = n ∧ n < states.size then s else stateAt states k := by
  simp only [stateAt, Array.getD_eq_getD_getElem?, Array.getElem?_setIfInBounds]
  by_cases hk : n = k
  · subst hk
    by_cases hn : n < states.size <;> simp [hn]
  · simp [hk, Ne.symm hk]

theorem HasRules.of_isRule {t : RuleTree} {n : Nat} (h : t.isRule n = true) : t.HasRules n :=
  ⟨n, h, .refl⟩

section

variable {t : RuleTree} {states states' : Array LoggingState}

/-- What follows for an import depends on its members only. -/
theorem derived?_congr {n : Nat} (h : ∀ c ∈ t.members n, stateAt states' c = stateAt states c) :
    t.derived? states' n = t.derived? states n := by
  rw [derived?, derived?, List.map_congr_left h]

theorem SettledAt.congr {n : Nat} (h : t.SettledAt states n)
    (hn : stateAt states' n = stateAt states n)
    (hc : ∀ c ∈ t.members n, stateAt states' c = stateAt states c) : t.SettledAt states' n := by
  rw [SettledAt, hn, derived?_congr hc]
  exact h

variable (wf : t.WellFormed)
include wf

theorem WellFormed.hasRules_import_iff {n : Nat} (hi : t.isImport n = true) :
    t.HasRules n ↔ ∃ c ∈ t.members n, t.HasRules c := by
  rw [wf.members_eq n, if_pos hi]
  constructor
  · rintro ⟨r, hr, hw⟩
    rcases Relation.ReflTransGen.cases_head hw with rfl | ⟨c, hc, hcr⟩
    · simp [isImport_eq_false_of_isRule hr] at hi
    · exact ⟨c, (wf.mem_children_iff n c).mpr hc, r, hr, hcr⟩
  · rintro ⟨c, hc, r, hr, hw⟩
    exact ⟨r, hr, .head ((wf.mem_children_iff n c).mp hc) hw⟩

theorem WellFormed.lt_of_mem_members {n c : Nat} (h : c ∈ t.members n) : n < c := by
  obtain ⟨_, hp⟩ := wf.follower?_eq_some_iff.mp (wf.mem_members_iff.mp h)
  exact wf.sound.parent_lt n c hp

theorem WellFormed.lt_size_of_mem_members {n c : Nat} (h : c ∈ t.members n) : c < t.size :=
  lt_size_of_parent? (wf.follower?_eq_some_iff.mp (wf.mem_members_iff.mp h)).2

/-- Where the states tell which members have rules, something follows for an import exactly when it
has rules. -/
theorem derived?_eq_none_iff (states : Array LoggingState) {n : Nat} (hi : t.isImport n = true)
    (h : ∀ c ∈ t.members n, stateAt states c = .ruleLess ↔ ¬t.HasRules c) :
    t.derived? states n = none ↔ ¬t.HasRules n := by
  rw [derived?, LoggingState.common?_eq_none_iff, wf.hasRules_import_iff hi]
  constructor
  · rintro hall ⟨c, hc, hr⟩
    exact (h c hc).mp (hall _ (List.mem_map.mpr ⟨c, hc, rfl⟩)) hr
  · intro hnone s hs
    obtain ⟨c, hc, rfl⟩ := List.mem_map.mp hs
    exact (h c hc).mpr fun hr => hnone ⟨c, hc, hr⟩

theorem Live.derived?_eq_none_iff (live : t.Live states) {n : Nat} (hi : t.isImport n = true) :
    t.derived? states n = none ↔ ¬t.HasRules n :=
  RuleTree.derived?_eq_none_iff wf states hi fun c hc =>
    live.ruleLess_iff c (wf.lt_size_of_mem_members hc)

end

/-- The states of the nodes from `n` on fit the tree. -/
structure SettledFrom (t : RuleTree) (n : Nat) (states : Array LoggingState) : Prop where
  size_eq : states.size = t.size
  ruleLess_iff : ∀ k, n ≤ k → k < t.size → (stateAt states k = .ruleLess ↔ ¬t.HasRules k)
  rule_never : ∀ r, t.isRule r = true → stateAt states r = .never
  settledAt : ∀ k, n ≤ k → t.isImport k = true → t.SettledAt states k

section

variable {t : RuleTree} (wf : t.WellFormed)
include wf

theorem settledFrom_set {n : Nat} {states : Array LoggingState} (h : t.SettledFrom (n + 1) states)
    (hi : t.isImport n = true) {s : LoggingState} (hs : s = (t.derived? states n).getD .ruleLess) :
    t.SettledFrom n (states.setIfInBounds n s) := by
  have hn : n < t.size := lt_size_of_isImport hi
  have hsize := h.size_eq
  have at_n : stateAt (states.setIfInBounds n s) n = s := by
    rw [stateAt_set, if_pos ⟨rfl, by omega⟩]
  have other : ∀ k, k ≠ n → stateAt (states.setIfInBounds n s) k = stateAt states k := by
    intro k hk
    rw [stateAt_set, if_neg (fun he => hk he.1)]
  have none_iff := derived?_eq_none_iff wf states hi fun c hc =>
    h.ruleLess_iff c (wf.lt_of_mem_members hc) (wf.lt_size_of_mem_members hc)
  have member_ne : ∀ k c, n ≤ k → c ∈ t.members k → c ≠ n := fun k c hk hc => by
    have := wf.lt_of_mem_members hc
    omega
  refine ⟨by simpa using hsize, ?_, ?_, ?_⟩
  · intro k hk hlt
    rcases Nat.eq_or_lt_of_le hk with rfl | hk
    · rw [at_n, hs, ← none_iff]
      cases hd : t.derived? states n with
      | none => simp
      | some s => simpa using LoggingState.common?_ne_ruleLess hd
    · rw [other k (by omega), h.ruleLess_iff k hk hlt]
  · intro r hr
    have hne : r ≠ n := fun he => by
      subst he
      simp [isImport_eq_false_of_isRule hr] at hi
    rw [other r hne, h.rule_never r hr]
  · intro k hk hki
    have same : t.derived? (states.setIfInBounds n s) k = t.derived? states k :=
      derived?_congr fun c hc => other c (member_ne k c hk hc)
    rw [SettledAt, same]
    rcases Nat.eq_or_lt_of_le hk with rfl | hk
    · rw [at_n, hs]
    · rw [other k (by omega)]
      exact h.settledAt k hk hki

theorem seed_settledFrom {n : Nat} {states : Array LoggingState} (hn : n < t.size)
    (h : t.SettledFrom (n + 1) states) : t.SettledFrom n (t.seed states n) := by
  obtain ⟨node, hnode⟩ : ∃ node, t.node? n = some node := ⟨_, Array.getElem?_eq_getElem hn⟩
  have none_iff := fun hi : t.isImport n = true => derived?_eq_none_iff wf states hi fun c hc =>
    h.ruleLess_iff c (wf.lt_of_mem_members hc) (wf.lt_size_of_mem_members hc)
  simp only [seed, hnode]
  by_cases hr : t.isRule n = true
  · have hi := isImport_eq_false_of_isRule hr
    rw [if_pos (by simpa [isRule, hnode] using hr)]
    refine ⟨h.size_eq, ?_, h.rule_never, ?_⟩
    · intro k hk hlt
      rcases Nat.eq_or_lt_of_le hk with rfl | hk
      · have := HasRules.of_isRule hr
        simp [h.rule_never n hr, this]
      · exact h.ruleLess_iff k hk hlt
    · intro k hk hki
      rcases Nat.eq_or_lt_of_le hk with rfl | hk
      · simp [hi] at hki
      · exact h.settledAt k hk hki
  · have hi : t.isImport n = true := by
      by_contra hi
      exact hr (isRule_of_not_isImport hn (by simpa using hi))
    have marks : node.containsRules = true ↔ t.HasRules n := by
      have := wf.sound.containsRules_iff n hi
      rwa [containsRules, hnode] at this
    rw [if_neg (by simpa [isRule, hnode] using hr)]
    split
    next hc =>
      refine settledFrom_set wf h hi ?_
      cases hd : t.derived? states n with
      | none => exact absurd (marks.mp hc) ((none_iff hi).mp hd)
      | some s => rfl
    next hc =>
      refine settledFrom_set wf h hi ?_
      rw [(none_iff hi).mpr (fun hr => hc (marks.mpr hr))]
      rfl

theorem initialStates_settledFrom : t.SettledFrom 0 t.initialStates := by
  have key : ∀ k ≤ t.size, ∀ states, t.SettledFrom k states →
      t.SettledFrom 0 ((List.range k).reverse.foldl t.seed states) := by
    intro k
    induction k with
    | zero => exact fun _ _ h => h
    | succ k ih =>
      intro hk states h
      rw [List.range_succ, List.reverse_append, List.reverse_singleton, List.singleton_append,
        List.foldl_cons]
      exact ih (by omega) _ (seed_settledFrom wf (by omega) h)
  have all_never : ∀ n, stateAt (Array.replicate t.size .never) n = .never := by
    intro n
    simp only [stateAt, Array.getD_eq_getD_getElem?, Array.getElem?_replicate]
    split <;> rfl
  exact key t.size (Nat.le_refl _) _ ⟨by simp, fun k h₁ h₂ => absurd h₂ (Nat.not_lt.mpr h₁),
    fun r _ => all_never r, fun k h₁ hi => absurd (lt_size_of_isImport hi) (Nat.not_lt.mpr h₁)⟩

theorem initialStates_settled : t.Settled t.initialStates := by
  have h := initialStates_settledFrom wf
  refine ⟨⟨h.size_eq, fun n hn => h.ruleLess_iff n (Nat.zero_le _) hn, fun r hr => ?_⟩,
    fun n hn => h.settledAt n (Nat.zero_le _) hn⟩
  rw [h.rule_never r hr]
  rfl

theorem initialStates_rule {r : Nat} (hr : t.isRule r = true) :
    stateAt t.initialStates r = .never :=
  (initialStates_settledFrom wf).rule_never r hr

end

end RuleTree

end RuleScope
