import RuleScope.Proofs.RuleModel.Runs

namespace RuleScope

namespace Observers

/-- The next number is that of no live observer. -/
def Fresh (o : Observers) : Prop := ∀ e ∈ o.live, e.1.value < o.next

theorem subscribe_fresh {o : Observers} (h : o.Fresh) (receiver : Receiver) (nodes : List Nat) :
    (o.subscribe receiver nodes).1.Fresh := by
  intro e he
  rcases List.mem_append.mp he with he | he
  · exact Nat.lt_succ_of_lt (h e he)
  · rw [List.mem_singleton.mp he]
    exact Nat.lt_succ_self _

theorem unsubscribe_fresh {o : Observers} (h : o.Fresh) (id : ObserverId) :
    (o.unsubscribe id).1.Fresh := fun e he => h e (List.mem_filter.mp he).1

theorem subscribe_receiver? {o : Observers} (h : o.Fresh) (receiver : Receiver) (nodes : List Nat) :
    (o.subscribe receiver nodes).1.receiver? (o.subscribe receiver nodes).2 = some receiver := by
  have new : Table.get? (⟨o.next⟩ : ObserverId) o.live = none := by
    refine Table.get?_eq_none_iff.mpr fun hm => ?_
    obtain ⟨e, he, heq⟩ := List.mem_map.mp hm
    have := h e he
    rw [heq] at this
    exact Nat.lt_irrefl _ this
  have := Table.get?_put_self (⟨o.next⟩ : ObserverId) receiver o.live
  rwa [Table.put_of_get?_eq_none new] at this

theorem watchers_unsubscribe {o : Observers} (id : ObserverId) (n : Nat) :
    (o.unsubscribe id).1.watchers n = (o.watchers n).filter (· ≠ id) := by
  simp [unsubscribe, watchers, List.filter_map, List.filter_filter, Function.comp_def, Bool.and_comm]

end Observers

namespace RuleModel

theorem build_fresh {resolve : String → AbsPath} {sourceRoot : String} {l : Location}
    {m : RuleModel} (h : build resolve sourceRoot l = .ok m) : m.observers.Fresh := by
  obtain ⟨t, _, rfl⟩ := build_eq_ofTree h
  simp [Observers.Fresh, ofTree]

theorem run_fresh {m : RuleModel} (h : m.observers.Fresh) (hc : m.Consistent)
    (actions : List Action) : (m.run actions).observers.Fresh := by
  induction actions generalizing m with
  | nil => exact h
  | cons a rest ih =>
    refine ih ?_ (act_consistent hc a).1
    cases a with
    | edit e =>
      cases hu : m.edit? e with
      | none => simpa [act, hu] using h
      | some u =>
        have := (edit?_from hc hu).observers_eq
        simpa [act, hu, this] using h
    | setExpanded n expanded => exact h
    | subscribe receiver nodes => exact Observers.subscribe_fresh h receiver nodes
    | unsubscribe id => exact Observers.unsubscribe_fresh h id

end RuleModel

/-- A change of the states or of what is shown of a model. -/
def Action.isChange : Action → Bool
  | .edit _ | .setExpanded _ _ => true
  | .subscribe _ _ | .unsubscribe _ => false

namespace RuleModel

/-- The model without its observers. -/
def unobserved (m : RuleModel) : RuleModel := { m with observers := ⟨[], [], 0⟩ }

end RuleModel

/-- The update of the model without its observers. -/
def Update.unobserved (u : Update) : Update := ⟨u.model.unobserved, u.changes⟩

namespace RuleModel

variable {m : RuleModel}

theorem setAllBelow_unobserved (m : RuleModel) (n : Nat) (s : LoggingState) :
    m.unobserved.setAllBelow n s = (m.setAllBelow n s).map Update.unobserved := by
  have htree : m.unobserved.tree = m.tree := rfl
  unfold setAllBelow
  cases s.isDerived with
  | true => rfl
  | false =>
    rw [htree]
    cases m.tree.node? n with
    | none => rfl
    | some node => rfl

theorem restoreNode_unobserved (e : Snapshot.Entry) (u : Update) (n : Nat) :
    Snapshot.restoreNode e u.unobserved n = (Snapshot.restoreNode e u n).unobserved := by
  obtain ⟨m, changes⟩ := u
  have hlabels : m.unobserved.labelsBelow n = m.labelsBelow n := rfl
  have hrule : m.unobserved.tree.isRule n = m.tree.isRule n := rfl
  simp only [Snapshot.restoreNode, Update.unobserved, hlabels, hrule]
  cases e.at? (m.labelsBelow n) with
  | none => rfl
  | some found =>
    dsimp only
    generalize (found.restored (m.tree.isRule n)).1 = expanded
    cases (found.restored (m.tree.isRule n)).2 with
    | none => rfl
    | some s =>
      have hset : (m.unobserved.setExpanded n expanded).setState n s =
          ((m.setExpanded n expanded).setState n s).map Update.unobserved :=
        setAllBelow_unobserved (m.setExpanded n expanded) n s
      simp only [hset]
      cases (m.setExpanded n expanded).setState n s with
      | error => rfl
      | ok v => rfl

theorem restore?_unobserved (s : Snapshot) (m : RuleModel) :
    (s.restore? m.unobserved).map Prod.snd =
      ((s.restore? m).map Prod.snd).map Update.unobserved := by
  have hfold : ∀ (e : Snapshot.Entry) (nodes : List Nat) (u : Update),
      nodes.foldl (Snapshot.restoreNode e) u.unobserved =
        (nodes.foldl (Snapshot.restoreNode e) u).unobserved := by
    intro e nodes
    induction nodes with
    | nil => exact fun u => rfl
    | cons n rest ih =>
      intro u
      rw [List.foldl_cons, restoreNode_unobserved, ih, List.foldl_cons]
  unfold Snapshot.restore?
  by_cases hlabel : s.rootLabel = some m.tree.rootLabel
  · have hlabel' : s.rootLabel = some m.unobserved.tree.rootLabel := hlabel
    rw [if_pos hlabel, if_pos hlabel']
    cases s.root with
    | none => rfl
    | some e => exact congrArg some (hfold e (List.range m.tree.size) ⟨m, []⟩)
  · have hlabel' : ¬ s.rootLabel = some m.unobserved.tree.rootLabel := hlabel
    rw [if_neg hlabel, if_neg hlabel']
    rfl

theorem toOption_map {ε α β : Type} (f : α → β) (r : Except ε α) :
    (r.map f).toOption = r.toOption.map f := by
  cases r <;> rfl

theorem edit?_unobserved (m : RuleModel) (e : Edit) :
    m.unobserved.edit? e = (m.edit? e).map Update.unobserved := by
  have hset : ∀ n s, (m.unobserved.setAllBelow n s).toOption =
      (m.setAllBelow n s).toOption.map Update.unobserved := fun n s =>
    (congrArg Except.toOption (setAllBelow_unobserved m n s)).trans (toOption_map _ _)
  cases e with
  | setState n s => exact hset n s
  | setAllBelow n s => exact hset n s
  | setRuleState id s =>
    have htree : m.unobserved.tree = m.tree := rfl
    change (m.unobserved.setRuleState id s).toOption =
      (m.setRuleState id s).toOption.map Update.unobserved
    unfold setRuleState
    rw [htree]
    cases m.tree.rule? id with
    | none => rfl
    | some n => exact hset n s
  | restore snapshot => exact restore?_unobserved snapshot m

theorem act_unobserved (m : RuleModel) (a : Action) :
    (m.act a).unobserved = if a.isChange then m.unobserved.act a else m.unobserved := by
  cases a with
  | edit e =>
    simp only [act, Action.isChange, if_true, edit?_unobserved]
    cases m.edit? e <;> rfl
  | setExpanded n expanded => rfl
  | subscribe receiver nodes => rfl
  | unsubscribe id => rfl

/-- A run leaves the states and the expansion that it leaves when nobody observes. -/
theorem run_unobserved (m : RuleModel) (actions : List Action) :
    (m.run actions).unobserved = m.unobserved.run (actions.filter Action.isChange) := by
  induction actions generalizing m with
  | nil => rfl
  | cons a rest ih =>
    have hstep : m.run (a :: rest) = (m.act a).run rest := rfl
    rw [hstep, ih, act_unobserved]
    by_cases ha : a.isChange = true
    · rw [if_pos ha, List.filter_cons_of_pos ha]
      rfl
    · rw [if_neg ha, List.filter_cons_of_neg ha]

end RuleModel

end RuleScope
