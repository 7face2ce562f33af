import RuleScope.Proofs.RuleModel.Followers
import RuleScope.Proofs.RuleModel.Notices

namespace RuleScope

/-- An observer with the nodes to which it has subscribed. -/
structure Registration where
  id : ObserverId
  receiver : Receiver
  nodes : List Nat

/-- Those who are registered, in the order in which they came, and the number of the next one. -/
structure Roster where
  held : List Registration
  next : Nat

namespace Roster

def empty : Roster := ⟨[], 0⟩

def act (g : Roster) : Action → Roster
  | .subscribe receiver nodes => ⟨g.held ++ [⟨⟨g.next⟩, receiver, nodes⟩], g.next + 1⟩
  | .unsubscribe id => ⟨g.held.filter (·.id ≠ id), g.next⟩
  | .edit _ | .setExpanded _ _ => g

def run (g : Roster) (actions : List Action) : Roster := actions.foldl act g

/-- The nodes to which an observer has subscribed, if it is registered. -/
def nodes? (g : Roster) (id : ObserverId) : Option (List Nat) :=
  (g.held.find? (·.id = id)).map Registration.nodes

def observers (g : Roster) : Observers :=
  ⟨g.held.map fun r => (r.id, r.receiver), g.held.flatMap fun r => r.nodes.map (⟨·, r.id⟩), g.next⟩

/-- Nobody is registered twice, and the numbers to come are new. -/
structure Numbered (g : Roster) : Prop where
  nodup : (g.held.map Registration.id).Nodup
  below : ∀ r ∈ g.held, r.id.value < g.next

variable {g : Roster}

theorem empty_numbered : empty.Numbered := ⟨List.nodup_nil, by simp [empty]⟩

theorem act_numbered (h : g.Numbered) (a : Action) : (g.act a).Numbered := by
  cases a with
  | edit e => exact h
  | setExpanded n expanded => exact h
  | subscribe receiver nodes =>
    have fresh : (⟨g.next⟩ : ObserverId) ∉ g.held.map Registration.id := by
      intro hm
      obtain ⟨r, hr, hid⟩ := List.mem_map.mp hm
      have hlt := h.below r hr
      rw [hid] at hlt
      exact Nat.lt_irrefl _ hlt
    refine ⟨?_, fun r hr => ?_⟩
    · simp only [act, List.map_append, List.map_cons, List.map_nil]
      exact List.nodup_append_comm.mp (List.nodup_cons.mpr ⟨fresh, h.nodup⟩)
    · rcases List.mem_append.mp hr with hr | hr
      · exact Nat.lt_succ_of_lt (h.below r hr)
      · rw [List.mem_singleton.mp hr]
        exact Nat.lt_succ_self _
  | unsubscribe id =>
    have hsub : (g.held.filter (·.id ≠ id)).Sublist g.held := List.filter_sublist
    exact ⟨(hsub.map Registration.id).nodup h.nodup, fun r hr => h.below r (hsub.subset hr)⟩

theorem run_numbered (h : g.Numbered) (actions : List Action) : (g.run actions).Numbered := by
  induction actions generalizing g with
  | nil => exact h
  | cons a rest ih => exact ih (act_numbered h a)

theorem next_le_act (g : Roster) (a : Action) : g.next ≤ (g.act a).next := by
  cases a <;> simp [act]

theorem next_le_run (g : Roster) (actions : List Action) : g.next ≤ (g.run actions).next := by
  induction actions generalizing g with
  | nil => exact Nat.le_refl _
  | cons a rest ih => exact Nat.le_trans (next_le_act g a) (ih (g.act a))

/-- What an observer has among the subscriptions are the nodes with which it came. -/
theorem subscriptions_of (h : g.Numbered) (id : ObserverId) :
    g.observers.subscriptions.filter (·.observer = id) =
      ((g.nodes? id).getD []).map (⟨·, id⟩) := by
  obtain ⟨held, next⟩ := g
  have hnodup : (held.map Registration.id).Nodup := h.nodup
  clear h
  unfold observers nodes?
  induction held with
  | nil => rfl
  | cons r rest ih =>
    obtain ⟨hfresh, hrest⟩ := List.nodup_cons.mp hnodup
    have ih := ih hrest
    simp only [List.flatMap_cons, List.filter_append] at ih ⊢
    rw [ih]
    by_cases hr : r.id = id
    · subst hr
      have hnone : rest.find? (·.id = r.id) = none := by
        simpa [List.find?_eq_none] using hfresh
      rw [hnone]
      simp [List.filter_map, Function.comp_def]
    · simp [List.filter_map, Function.comp_def, hr]

theorem removed_eq (h : g.Numbered) (id : ObserverId) :
    (g.observers.unsubscribe id).2 = ((g.nodes? id).map List.length).getD 0 := by
  unfold Observers.unsubscribe
  rw [List.countP_eq_length_filter, subscriptions_of h id]
  cases g.nodes? id <;> simp

theorem weight_eq (h : g.Numbered) (id : ObserverId) (n : Nat) :
    g.observers.weight id n = ((g.nodes? id).getD []).count n := by
  have hmine : g.observers.weight id n =
      (g.observers.subscriptions.filter (·.observer = id)).count ⟨n, id⟩ :=
    (List.count_filter (by simp)).symm
  rw [hmine, subscriptions_of h id, List.count, List.countP_map, List.count]
  exact List.countP_congr (by simp)

theorem length_subscriptions (g : Roster) :
    g.observers.subscriptions.length = (g.held.map (·.nodes.length)).sum := by
  simp [observers, List.length_flatMap]

theorem observers_subscribe (g : Roster) (receiver : Receiver) (nodes : List Nat) :
    g.observers.subscribe receiver nodes =
      ((g.act (.subscribe receiver nodes)).observers, ⟨g.next⟩) := by
  simp [observers, Observers.subscribe, act]

theorem observers_unsubscribe (g : Roster) (id : ObserverId) :
    (g.observers.unsubscribe id).1 = (g.act (.unsubscribe id)).observers := by
  simp only [observers, Observers.unsubscribe, act, Observers.mk.injEq, and_true]
  refine ⟨List.filter_map, ?_⟩
  induction g.held with
  | nil => rfl
  | cons r rest ih =>
    by_cases hr : r.id = id <;> simp_all [List.filter_map, Function.comp_def]

end Roster

namespace RuleModel

variable {m m₀ : RuleModel} {g : Roster}

theorem act_observers (hm : m.Consistent) (ho : m.observers = g.observers) (a : Action) :
    (m.act a).observers = (g.act a).observers := by
  cases a with
  | edit e =>
    cases hu : m.edit? e with
    | none => simpa [act, Roster.act, hu] using ho
    | some u => simpa [act, Roster.act, hu] using (edit?_from hm hu).observers_eq.trans ho
  | setExpanded n expanded => exact ho
  | subscribe receiver nodes =>
    have hsub := congrArg Prod.fst (g.observers_subscribe receiver nodes)
    rw [← ho] at hsub
    exact hsub
  | unsubscribe id =>
    have hunsub := g.observers_unsubscribe id
    rw [← ho] at hunsub
    exact hunsub

/-- A model knows of its observers what the calls have told. -/
theorem run_observers (hm : m.Consistent) (ho : m.observers = g.observers) (actions : List Action) :
    (m.run actions).observers = (g.run actions).observers := by
  induction actions generalizing m g with
  | nil => exact ho
  | cons a rest ih => exact ih (act_consistent hm a).1 (act_observers hm ho a)

/-- Only who is registered is told something. -/
theorem registered_of_mem_notices (hm : m.Consistent) (ho : m.observers = g.observers) {a : Action}
    {x : Notice} (hx : x ∈ m.notices a) : x.observer ∈ g.held.map Registration.id := by
  cases a with
  | edit e =>
    cases hu : m.edit? e with
    | none => simp [notices, hu] at hx
    | some u =>
      rw [notices_edit hm hu, ho] at hx
      obtain ⟨c, -, hx⟩ := List.mem_flatMap.mp hx
      obtain ⟨id, hid, rfl⟩ := List.mem_map.mp hx
      obtain ⟨s, hs, rfl⟩ := List.mem_map.mp hid
      obtain ⟨r, hr, hs⟩ := List.mem_flatMap.mp (List.mem_filter.mp hs).1
      obtain ⟨n, -, rfl⟩ := List.mem_map.mp hs
      exact List.mem_map_of_mem hr
  | setExpanded | subscribe | unsubscribe => simp [notices] at hx

/-- Who is not registered is told nothing, unless the number is given to someone new. -/
theorem issued_of_mem_noticesIn (hm : m.Consistent) (ho : m.observers = g.observers)
    {id : ObserverId} (hid : id ∉ g.held.map Registration.id) {more : List Action} {x : Notice}
    (hx : x ∈ m.noticesIn more) (hxid : x.observer = id) :
    g.next ≤ id.value ∧ id.value < (g.run more).next := by
  induction more generalizing m g with
  | nil => simp [noticesIn] at hx
  | cons a rest ih =>
    rcases List.mem_append.mp hx with hx | hx
    · exact absurd (hxid ▸ registered_of_mem_notices hm ho hx) hid
    · have hm' := (act_consistent hm a).1
      have ho' := act_observers hm ho a
      have hstep := g.next_le_act a
      by_cases hnew : id ∈ (g.act a).held.map Registration.id
      · -- Only a call that registers someone makes a number a registered one.
        obtain ⟨r, hr, rfl⟩ := List.mem_map.mp hnew
        have hold : r ∉ g.held := fun hold => hid (List.mem_map_of_mem hold)
        cases a with
        | subscribe receiver nodes =>
          obtain hr | hr := List.mem_append.mp hr
          · exact absurd hr hold
          · rw [List.mem_singleton.mp hr]
            exact ⟨Nat.le_refl _, (g.act (.subscribe receiver nodes)).next_le_run rest⟩
        | unsubscribe other => exact absurd (List.mem_filter.mp hr).1 hold
        | edit | setExpanded => exact absurd hr hold
      · obtain ⟨hle, hlt⟩ := ih hm' ho' hnew hx
        exact ⟨Nat.le_trans hstep hle, hlt⟩

/-- The books of a model on its observers: the model has of them what the calls have told, the one
that leaves takes with it what it has brought, and nothing else. -/
structure Accounts (m₀ m : RuleModel) (g : Roster) : Prop where
  observers_eq : m.observers = g.observers
  issued : ∀ receiver nodes, (m.subscribe receiver nodes).2 = ⟨g.next⟩
  every_rule : ∀ receiver, m.subscribeRules receiver = m.subscribe receiver m₀.tree.ruleNodes
  removed : ∀ id, (m.unsubscribe id).2 = ((g.nodes? id).map List.length).getD 0
  silenced : ∀ id more, ∀ x ∈ (m.unsubscribe id).1.noticesIn more, x.observer = id →
    g.next ≤ id.value ∧ id.value < ((g.act (.unsubscribe id)).run more).next
  others_stay : ∀ id other, other ≠ id →
    (m.unsubscribe id).1.observers.receiver? other = m.observers.receiver? other
  others_told : ∀ id n,
    (m.unsubscribe id).1.observers.watchers n = (m.observers.watchers n).filter (· ≠ id)
  weight : ∀ id n, m.observers.weight id n = ((g.nodes? id).getD []).count n
  total : m.observerSubscriptionCount = (g.held.map (·.nodes.length)).sum
  none_left : m.observerCount = 0 → m.subscribedNodes = m₀.subscribedNodes ∧
    ∀ n, m.subscriptionCount n = m₀.subscriptionCount n

/-- Without observers the subscriptions of a model are the dependencies of its tree. -/
theorem subscribedNodes_of_none_left (ho : m.observers = g.observers) (hnone : m.observerCount = 0)
    (htree : m.tree = m₀.tree) (hempty : m₀.observers.subscriptions = []) :
    m.subscribedNodes = m₀.subscribedNodes ∧
      ∀ n, m.subscriptionCount n = m₀.subscriptionCount n := by
  have hheld : g.held = [] := by
    unfold observerCount at hnone
    rw [ho] at hnone
    simpa [Roster.observers] using hnone
  have hsubs : m.observers.subscriptions = m₀.observers.subscriptions := by
    rw [ho, hempty]
    simp [Roster.observers, hheld]
  unfold subscribedNodes subscriptionCount
  rw [htree, hsubs]
  exact ⟨rfl, fun _ => rfl⟩

theorem Consistent.accounts (hm : m.Consistent) (hg : g.Numbered) (ho : m.observers = g.observers)
    (htree : m.tree = m₀.tree) (hempty : m₀.observers.subscriptions = []) : Accounts m₀ m g where
  observers_eq := ho
  issued _ _ := congrArg (ObserverId.mk ∘ Observers.next) ho
  every_rule receiver := by
    unfold subscribeRules
    rw [htree]
  removed id := by
    have hremoved := Roster.removed_eq hg id
    rwa [← ho] at hremoved
  silenced id more x hx hxid := by
    have hgone : id ∉ (g.act (.unsubscribe id)).held.map Registration.id := by
      simp [Roster.act]
    have hunsubscribed := act_observers hm ho (.unsubscribe id)
    exact issued_of_mem_noticesIn (act_consistent hm (.unsubscribe id)).1 hunsubscribed hgone hx hxid
  others_stay id other hne := Table.get?_erase_of_ne hne m.observers.live
  others_told id n := Observers.watchers_unsubscribe id n
  weight id n := by
    rw [ho]
    exact Roster.weight_eq hg id n
  total := by
    unfold observerSubscriptionCount
    rw [ho]
    exact g.length_subscriptions
  none_left hnone := subscribedNodes_of_none_left ho hnone htree hempty

/-- Whatever is done to a model that was built, its observers are those that the calls have registered
and not removed, the table that they share with the dependencies agrees with it, and apart from them
the model is the one to which only the changes are done. -/
theorem build_run_accounts {resolve : String → AbsPath} {sourceRoot : String} {l : Location}
    (h : build resolve sourceRoot l = .ok m) (actions : List Action) :
    Accounts m (m.run actions) (Roster.empty.run actions) ∧
    ((FollowerTable.ofTree m.tree).run actions).Agrees (m.run actions) ∧
    (m.run actions).unobserved = m.run (actions.filter Action.isChange) := by
  obtain ⟨t, ht, rfl⟩ := build_eq_ofTree h
  have hm := build_consistent h
  obtain ⟨hrun, htree⟩ := run_consistent hm actions
  have ho := run_observers (g := Roster.empty) hm rfl actions
  have hnumbered := Roster.run_numbered Roster.empty_numbered actions
  have hfollows := (FollowerTable.ofTree_follows t).run hm actions
  have haccounts := hrun.accounts hnumbered ho htree rfl
  exact ⟨haccounts, hfollows.agrees, run_unobserved (ofTree t) actions⟩

/-- Two who follow the outer rule, one of them twice, a third who follows the inner rule twice and a
node that is not there, and handles that are no longer or not yet in use. -/
def comingAndGoing : List Action :=
  [followOuterTwice, .subscribe .listener [2, 4], .edit (.setAllBelow 0 .always), .unsubscribe ⟨1⟩,
    .unsubscribe ⟨1⟩, .unsubscribe ⟨9⟩, .subscribe (.connection 3) [4, 99, 4],
    .edit (.setState 2 .ifTrue)]

theorem build_nested_accounts : ∃ m,
    build (AbsPath.lexical AbsPath.root) "/src" nestedLocation = .ok m ∧
    Accounts m (m.run comingAndGoing) (Roster.empty.run comingAndGoing) ∧
    ((m.run comingAndGoing).unsubscribe ⟨2⟩).2 = 3 ∧
    ((m.run comingAndGoing).unsubscribe ⟨1⟩).2 = 0 ∧
    (∀ more, ∀ x ∈ ((m.run comingAndGoing).unsubscribe ⟨2⟩).1.noticesIn more, x.observer ≠ ⟨2⟩) ∧
    (m.run comingAndGoing).state 0 = (m.run (comingAndGoing.filter Action.isChange)).state 0 ∧
    (m.run (comingAndGoing ++ [.unsubscribe ⟨2⟩, .unsubscribe ⟨0⟩])).subscribedNodes =
      m.subscribedNodes := by
  obtain ⟨m, h⟩ := exists_build_nestedLocation
  have facts : (build (AbsPath.lexical AbsPath.root) "/src" nestedLocation).toOption.map
      (fun m : RuleModel => decide ((m.run (comingAndGoing ++
        [.unsubscribe ⟨2⟩, .unsubscribe ⟨0⟩])).observerCount = 0)) = some true := by
    decide +kernel
  rw [h] at facts
  have hnone := of_decide_eq_true (Option.some.inj facts)
  obtain ⟨haccounts, -, hstates⟩ := build_run_accounts h comingAndGoing
  obtain ⟨hleft, -, -⟩ := build_run_accounts h (comingAndGoing ++ [.unsubscribe ⟨2⟩, .unsubscribe ⟨0⟩])
  refine ⟨m, h, haccounts, haccounts.removed ⟨2⟩, haccounts.removed ⟨1⟩, ?_, ?_,
    (hleft.none_left hnone).1⟩
  · intro more x hx hxid
    have hissued := (haccounts.silenced ⟨2⟩ more x hx hxid).1
    exact absurd hissued (by decide)
  · have hroot := congrArg (fun r : RuleModel => r.state 0) hstates
    exact hroot

end RuleModel

end RuleScope
