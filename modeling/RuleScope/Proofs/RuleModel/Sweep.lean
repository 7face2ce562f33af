import RuleScope.Proofs.RuleModel.Settled
import RuleScope.Proofs.RuleTree.Traversal

namespace RuleScope

open RuleTree

/-- A state that a node can get. -/
structure RuleTree.MayHold (t : RuleTree) (n : Nat) (s : LoggingState) : Prop where
  lt_size : n < t.size
  hasRules : t.HasRules n
  ne_ruleLess : s ≠ .ruleLess
  selectable : t.isRule n = true → s.isDerived = false

theorem RuleTree.MayHold.of_isRule {t : RuleTree} {n : Nat} {s : LoggingState}
    (hr : t.isRule n = true) (hs : s.isDerived = false) : t.MayHold n s :=
  ⟨lt_size_of_isRule hr, HasRules.of_isRule hr, LoggingState.ne_ruleLess_of_not_derived hs,
    fun _ => hs⟩

namespace Sweep

/-- `w'` comes from `w` by writes that the tree allows. -/
inductive Writes (t : RuleTree) (w : Sweep) : Sweep → Prop
  | refl : Writes t w w
  | write {w' : Sweep} {n : Nat} {s : LoggingState} :
      Writes t w w' → t.MayHold n s → Writes t w (w'.write t n s)

section

variable {t : RuleTree} {w w' w'' : Sweep} {n : Nat} {s : LoggingState}

theorem Writes.trans (h : Writes t w w') (h' : Writes t w' w'') : Writes t w w'' := by
  induction h' with
  | refl => exact h
  | write _ hs ih => exact ih.write hs

theorem write_size (t : RuleTree) (w : Sweep) (n : Nat) (s : LoggingState) :
    (w.write t n s).states.size = w.states.size := by
  unfold write
  split <;> simp

theorem write_state (hn : n < w.states.size) (k : Nat) :
    (w.write t n s).state k = if k = n then s else w.state k := by
  unfold write
  split
  next h =>
    split
    next hk => rw [hk, h]
    next => rfl
  next =>
    simp only [state, stateAt_set]
    simp [hn]

theorem write_state_of_ne {k : Nat} (hk : k ≠ n) : (w.write t n s).state k = w.state k := by
  unfold write
  split
  next => rfl
  next =>
    simp only [state, stateAt_set]
    simp [hk]

theorem write_live (live : t.Live w.states) (hs : t.MayHold n s) :
    t.Live (w.write t n s).states := by
  have hn : n < w.states.size := live.size_eq ▸ hs.lt_size
  have at_ : ∀ k, stateAt (w.write t n s).states k = if k = n then s else stateAt w.states k :=
    write_state hn
  refine ⟨(write_size t w n s).trans live.size_eq, fun k hk => ?_, fun r hr => ?_⟩
  · rw [at_]
    split
    next he =>
      subst he
      simp [hs.hasRules, hs.ne_ruleLess]
    next => exact live.ruleLess_iff k hk
  · rw [at_]
    split
    next he => exact hs.selectable (he ▸ hr)
    next => exact live.selectable r hr

theorem Writes.live (h : Writes t w w') (live : t.Live w.states) : t.Live w'.states := by
  induction h with
  | refl => exact live
  | write _ hs ih => exact write_live ih hs

theorem refresh_state_of_ne {k : Nat} (hk : k ≠ n) : (w.refresh t n).state k = w.state k := by
  unfold refresh
  split
  next => exact write_state_of_ne hk
  next => rfl

theorem climb_state_of_isRule (wf : t.WellFormed) {r : Nat} (hr : t.isRule r = true) :
    (w.climb t n).state r = w.state r := by
  have below : ∀ {n p : Nat} {h : p < n}, t.follower? n = some ⟨p, h⟩ → r ≠ p := by
    rintro n p h hf rfl
    have := (wf.follower?_eq_some_iff.mp (congrArg (Option.map Subtype.val) hf)).1
    simp [isImport_eq_false_of_isRule hr] at this
  fun_induction climb t w n with
  | case1 => rfl
  | case2 w n p hlt hf next hstay => exact refresh_state_of_ne (below hf)
  | case3 w n p hlt hf next hmove ih => exact ih.trans (refresh_state_of_ne (below hf))

end

section

variable {t : RuleTree} (wf : t.WellFormed) {w : Sweep} {n : Nat}
include wf

theorem refresh_writes (live : t.Live w.states) (hi : t.isImport n = true) :
    Writes t w (w.refresh t n) := by
  unfold refresh
  split
  next s hd =>
    refine Writes.refl.write ⟨lt_size_of_isImport hi, ?_, LoggingState.common?_ne_ruleLess hd, ?_⟩
    · by_contra hr
      rw [(live.derived?_eq_none_iff wf hi).mpr hr] at hd
      cases hd
    · intro hr
      simp [isImport_eq_false_of_isRule hr] at hi
  next => exact .refl

/-- A refreshed import is settled. -/
theorem refresh_settledAt (live : t.Live w.states) (hi : t.isImport n = true) :
    t.SettledAt (w.refresh t n).states n := by
  have members : t.derived? (w.refresh t n).states n = t.derived? w.states n :=
    derived?_congr fun c hc => refresh_state_of_ne (Nat.ne_of_gt (wf.lt_of_mem_members hc))
  have hn : n < t.size := lt_size_of_isImport hi
  rw [SettledAt, members]
  unfold refresh
  split
  next s hd =>
    have := write_state (t := t) (s := s) (live.size_eq ▸ hn : n < w.states.size) n
    rw [if_pos rfl] at this
    exact this.trans (by rw [hd]; rfl)
  next hd =>
    rw [hd]
    exact (live.ruleLess_iff n hn).mpr ((live.derived?_eq_none_iff wf hi).mp hd)

/-- Refreshing an import unsettles at most the import that follows it. -/
theorem refresh_settledAt_of_ne {k : Nat} (hk : k ≠ n)
    (hf : (t.follower? n).map Subtype.val ≠ some k) (h : t.SettledAt w.states k) :
    t.SettledAt (w.refresh t n).states k := by
  refine h.congr (refresh_state_of_ne hk) fun c hc => refresh_state_of_ne ?_
  rintro rfl
  exact hf (wf.mem_members_iff.mp hc)

/-- Where only the follower of `n` may be unsettled, the climb from `n` settles all imports. -/
theorem climb_settled (live : t.Live w.states)
    (h : t.SettledBut w.states fun k => (t.follower? n).map Subtype.val = some k) :
    t.Settled (w.climb t n).states ∧ Writes t w (w.climb t n) := by
  fun_induction climb t w n with
  | case1 w n hf =>
    exact ⟨⟨live, fun k hk => h k hk (by simp [hf])⟩, .refl⟩
  | case2 w n p hlt hf next hstay =>
    have hi : t.isImport p = true :=
      (wf.follower?_eq_some_iff.mp (congrArg (Option.map Subtype.val) hf)).1
    have hw := refresh_writes wf live hi
    -- The state of `p` stays, so nothing that follows `p` is unsettled.
    have same : ∀ k, next.state k = w.state k := fun k => by
      by_cases hk : k = p
      · rw [hk, hstay]
      · exact refresh_state_of_ne hk
    refine ⟨⟨hw.live live, fun k hk => ?_⟩, hw⟩
    by_cases hkp : k = p
    · subst hkp
      exact refresh_settledAt wf live hi
    · have apart : (t.follower? n).map Subtype.val ≠ some k := by
        rw [hf]
        simpa using Ne.symm hkp
      exact (h k hk apart).congr (same k) fun c _ => same c
  | case3 w n p hlt hf next hmove ih =>
    have hi : t.isImport p = true :=
      (wf.follower?_eq_some_iff.mp (congrArg (Option.map Subtype.val) hf)).1
    have hw := refresh_writes wf live hi
    obtain ⟨hsettled, hclimb⟩ := ih (hw.live live) fun k hk hopen => by
      by_cases hkp : k = p
      · subst hkp
        exact refresh_settledAt wf live hi
      · have apart : (t.follower? n).map Subtype.val ≠ some k := by
          rw [hf]
          simpa using Ne.symm hkp
        exact refresh_settledAt_of_ne wf hkp hopen (h k hk apart)
    exact ⟨hsettled, hw.trans hclimb⟩

/-- Giving a rule a state leaves all imports settled. -/
theorem assign_settled (h : t.Settled w.states) {s : LoggingState} (hn : t.isRule n = true)
    (hs : s.isDerived = false) :
    t.Settled (w.assign t n s).states ∧ Writes t w (w.assign t n s) := by
  unfold assign
  split
  next => exact ⟨h, .refl⟩
  next =>
    have hw : Writes t w (w.write t n s) := Writes.refl.write (.of_isRule hn hs)
    have hlive := hw.live h.live
    obtain ⟨hsettled, hclimb⟩ := climb_settled wf hlive (n := n) fun k hk hopen => by
      refine (h.settledAt k hk).congr (write_state_of_ne ?_) fun c hc => write_state_of_ne ?_
      · rintro rfl
        simp [isImport_eq_false_of_isRule hn] at hk
      · rintro rfl
        exact hopen (wf.mem_members_iff.mp hc)
    exact ⟨hsettled, hw.trans hclimb⟩

theorem assign_rule (h : t.Settled w.states) {s : LoggingState} (hn : t.isRule n = true) {r : Nat}
    (hr : t.isRule r = true) :
    (w.assign t n s).state r = if r = n then s else w.state r := by
  have hsize : n < w.states.size := h.live.size_eq ▸ lt_size_of_isRule hn
  unfold assign
  split
  next he =>
    split
    next hrn => rw [hrn, he]
    next => rfl
  next => rw [climb_state_of_isRule wf hr, write_state hsize]

omit wf in
/-- The rules of a list get a state. -/
theorem writeAll_state (rules : List Nat) {s : LoggingState} (hs : s.isDerived = false)
    (live : t.Live w.states) (hrules : ∀ r ∈ rules, t.isRule r = true) :
    Writes t w (rules.foldl (fun w r => w.write t r s) w) ∧
      ∀ k, (rules.foldl (fun w r => w.write t r s) w).state k =
        if k ∈ rules then s else w.state k := by
  induction rules generalizing w with
  | nil => exact ⟨.refl, fun k => by simp⟩
  | cons r rest ih =>
    have hr := hrules r List.mem_cons_self
    have hsize : r < w.states.size := live.size_eq ▸ lt_size_of_isRule hr
    have hw : Writes t w (w.write t r s) := Writes.refl.write (.of_isRule hr hs)
    obtain ⟨hrest, hstate⟩ := ih (hw.live live) fun k hk => hrules k (List.mem_cons_of_mem _ hk)
    refine ⟨hw.trans hrest, fun k => ?_⟩
    rw [List.foldl_cons, hstate k, write_state hsize]
    by_cases hk : k ∈ rest
    · simp [hk]
    · by_cases hkr : k = r <;> simp [hk, hkr]

/-- Refreshing imports, members first, settles them; what follows the last of them stays open. -/
theorem refreshAll_settled (above : Nat → Prop) {imports : List Nat}
    (himports : ∀ k ∈ imports, t.isImport k = true)
    (sorted : imports.Pairwise fun a b => t.parent? b ≠ some a)
    (closed : ∀ k ∈ imports, ∀ p, (t.follower? k).map Subtype.val = some p → p ∈ imports ∨ above p)
    (live : t.Live w.states) (h : t.SettledBut w.states fun k => k ∈ imports ∨ above k) :
    Writes t w (imports.foldl (refresh t) w) ∧
      t.SettledBut (imports.foldl (refresh t) w).states above := by
  induction imports generalizing w with
  | nil => exact ⟨.refl, fun k hk hopen => h k hk (by simpa using hopen)⟩
  | cons a rest ih =>
    have hi := himports a List.mem_cons_self
    have hw := refresh_writes wf live hi
    obtain ⟨hfirst, hrest⟩ := List.pairwise_cons.mp sorted
    obtain ⟨hfold, hsettled⟩ := ih (fun k hk => himports k (List.mem_cons_of_mem _ hk)) hrest
      (fun k hk p hp => by
        rcases closed k (List.mem_cons_of_mem _ hk) p hp with hm | ha
        · rcases List.mem_cons.mp hm with rfl | hm
          · exact absurd (wf.follower?_eq_some_iff.mp hp).2 (hfirst k hk)
          · exact Or.inl hm
        · exact Or.inr ha)
      (hw.live live)
      (fun k hk hopen => by
        by_cases hka : k = a
        · subst hka
          exact refresh_settledAt wf live hi
        · refine refresh_settledAt_of_ne wf hka (fun hf => ?_) (h k hk (fun ho => ?_))
          · rcases closed a List.mem_cons_self k hf with hm | ha
            · exact hopen (Or.inl ((List.mem_cons.mp hm).resolve_left hka))
            · exact hopen (Or.inr ha)
          · rcases ho with hm | ha
            · exact hopen (Or.inl ((List.mem_cons.mp hm).resolve_left hka))
            · exact hopen (Or.inr ha))
    exact ⟨hw.trans hfold, hsettled⟩

omit wf in
theorem refreshAll_rule {imports : List Nat} (himports : ∀ k ∈ imports, t.isImport k = true)
    {r : Nat} (hr : t.isRule r = true) : (imports.foldl (refresh t) w).state r = w.state r := by
  induction imports generalizing w with
  | nil => rfl
  | cons a rest ih =>
    rw [List.foldl_cons, ih fun k hk => himports k (List.mem_cons_of_mem _ hk)]
    refine refresh_state_of_ne ?_
    rintro rfl
    have hi := himports r List.mem_cons_self
    simp [isImport_eq_false_of_isRule hr] at hi

/-- Giving all rules below an import a state leaves all imports settled. -/
theorem assignBelow_settled (h : t.Settled w.states) {s : LoggingState} (hn : n < t.size)
    (hs : s.isDerived = false) :
    t.Settled (w.assignBelow t n s).states ∧ Writes t w (w.assignBelow t n s) := by
  have mem : ∀ k, k ∈ t.postOrder n ↔ t.Within n k := fun k => by
    rw [postOrder_eq_subtree wf hn, mem_subtree_iff wf]
  have sorted : (t.postOrder n).Pairwise fun a b => t.parent? b ≠ some a := by
    rw [postOrder_eq_subtree wf hn]
    exact subtree_childrenFirst wf n
  obtain ⟨hw, hstate⟩ := writeAll_state ((t.postOrder n).filter t.isRule) hs h.live
    fun r hr => (List.mem_filter.mp hr).2
  have himports : ∀ k ∈ (t.postOrder n).filter t.isImport, t.isImport k = true :=
    fun k hk => (List.mem_filter.mp hk).2
  obtain ⟨hderived, hbut⟩ := refreshAll_settled wf
    (fun k => (t.follower? n).map Subtype.val = some k) himports (sorted.filter _)
    (fun k hk p hp => by
      obtain ⟨hk, _⟩ := List.mem_filter.mp hk
      obtain ⟨hip, hpar⟩ := wf.follower?_eq_some_iff.mp hp
      rcases withinIn_cases ((mem k).mp hk) with rfl | ⟨q, hq, hnq⟩
      · exact Or.inr hp
      · obtain rfl : q = p := Option.some.inj (hq.symm.trans hpar)
        exact Or.inl (List.mem_filter.mpr ⟨(mem q).mpr hnq, hip⟩))
    (hw.live h.live)
    (fun k hk hopen => by
      have outside : k ∉ t.postOrder n := fun hm => hopen (Or.inl (List.mem_filter.mpr ⟨hm, hk⟩))
      have kept : ∀ c ∉ t.postOrder n, (((t.postOrder n).filter t.isRule).foldl
          (fun w r => w.write t r s) w).state c = w.state c := fun c hc => by
        rw [hstate c, if_neg fun hm => hc (List.mem_filter.mp hm).1]
      refine (h.settledAt k hk).congr (kept k outside) fun c hc => kept c fun hm => ?_
      -- A member in the subtree is followed from the subtree, or it is `n` itself.
      obtain ⟨_, hpar⟩ := wf.follower?_eq_some_iff.mp (wf.mem_members_iff.mp hc)
      rcases withinIn_cases ((mem c).mp hm) with rfl | ⟨q, hq, hnq⟩
      · exact hopen (Or.inr (wf.mem_members_iff.mp hc))
      · obtain rfl : q = k := Option.some.inj (hq.symm.trans hpar)
        exact outside ((mem q).mpr hnq))
  obtain ⟨hsettled, hclimb⟩ := climb_settled wf (hderived.live (hw.live h.live)) hbut
  exact ⟨hsettled, (hw.trans hderived).trans hclimb⟩

/-- The rules of the subtree get the state, and no other rule changes. -/
theorem assignBelow_rule (h : t.Settled w.states) {s : LoggingState} (hn : n < t.size)
    (hs : s.isDerived = false) {r : Nat} (hr : t.isRule r = true) [Decidable (t.Within n r)] :
    (w.assignBelow t n s).state r = if t.Within n r then s else w.state r := by
  obtain ⟨_, hstate⟩ := writeAll_state ((t.postOrder n).filter t.isRule) hs h.live
    fun r hr => (List.mem_filter.mp hr).2
  have mem : r ∈ (t.postOrder n).filter t.isRule ↔ t.Within n r := by
    rw [List.mem_filter, postOrder_eq_subtree wf hn, mem_subtree_iff wf]
    simp [hr]
  unfold assignBelow
  simp only [climb_state_of_isRule wf hr]
  rw [refreshAll_rule (fun k hk => (List.mem_filter.mp hk).2) hr, hstate]
  simp only [mem]

end

end Sweep

end RuleScope
