import RuleScope.Proofs.Link.Following

namespace RuleScope

open RuleTree

namespace Observers

/-- Observers have numbers of their own that were given out, and all subscriptions are theirs. -/
structure Orderly (o : Observers) : Prop where
  fresh : o.Fresh
  nodup : (o.live.map Prod.fst).Nodup
  owned : ∀ s ∈ o.subscriptions, s.observer ∈ o.live.map Prod.fst

variable {o : Observers}

theorem Orderly.next_not_mem (h : o.Orderly) : (⟨o.next⟩ : ObserverId) ∉ o.live.map Prod.fst := by
  intro hm
  obtain ⟨e, he, heq⟩ := List.mem_map.mp hm
  have hlt := h.fresh e he
  rw [heq] at hlt
  exact Nat.lt_irrefl _ hlt

theorem Orderly.subscribe (h : o.Orderly) (receiver : Receiver) (nodes : List Nat) :
    (o.subscribe receiver nodes).1.Orderly := by
  have hlive : ((o.subscribe receiver nodes).1.live.map Prod.fst) =
      o.live.map Prod.fst ++ [⟨o.next⟩] := by
    simp [Observers.subscribe]
  refine ⟨subscribe_fresh h.fresh receiver nodes, ?_, fun s hs => ?_⟩
  · rw [hlive]
    refine List.nodup_append.mpr ⟨h.nodup, by simp, fun id hid id' hid' => ?_⟩
    rintro rfl
    exact h.next_not_mem (List.mem_singleton.mp hid' ▸ hid)
  · rw [hlive]
    rcases List.mem_append.mp hs with hs | hs
    · exact List.mem_append_left _ (h.owned s hs)
    · obtain ⟨n, -, rfl⟩ := List.mem_map.mp hs
      exact List.mem_append_right _ (List.mem_singleton_self _)

theorem Orderly.unsubscribe (h : o.Orderly) (id : ObserverId) : (o.unsubscribe id).1.Orderly := by
  refine ⟨unsubscribe_fresh h.fresh id, h.nodup.sublist (List.filter_sublist.map Prod.fst),
    fun s hs => ?_⟩
  obtain ⟨hs, hne⟩ := List.mem_filter.mp hs
  obtain ⟨e, he, heq⟩ := List.mem_map.mp (h.owned s hs)
  refine List.mem_map.mpr ⟨e, List.mem_filter.mpr ⟨he, ?_⟩, heq⟩
  simpa [heq] using hne

/-- A number that was not given out has no subscriptions. -/
theorem Orderly.observer_ne_next (h : o.Orderly) {s : Subscription} (hs : s ∈ o.subscriptions) :
    s.observer ≠ ⟨o.next⟩ := fun he => h.next_not_mem (he ▸ h.owned s hs)

end Observers

/-- Observers with what they have subscribed to. -/
structure Audience where
  live : List (ObserverId × Receiver)
  subscriptions : List Subscription
  deriving DecidableEq, Repr

namespace RuleModel

variable {m m' : RuleModel}

/-- The observers of a model that are not connections to the runtime. -/
def others (m : RuleModel) : Audience :=
  ⟨m.observers.live.filter (·.1 ∉ m.clients),
    m.observers.subscriptions.filter (·.observer ∉ m.clients)⟩

theorem clients_congr (h : m'.observers = m.observers) : m'.clients = m.clients := by
  rw [clients, clients, h]

theorem unsubscribe_clients (m : RuleModel) (id : ObserverId) :
    (m.unsubscribe id).1.clients = m.clients.filter (· ≠ id) := by
  unfold clients
  change (m.observers.live.filter _).filterMap _ = _
  induction m.observers.live with
  | nil => rfl
  | cons e rest ih =>
    obtain ⟨id', receiver⟩ := e
    by_cases he : id' = id <;> cases receiver <;> simp_all

theorem subscribe_listener_clients (m : RuleModel) (nodes : List Nat) :
    (m.subscribe .listener nodes).1.clients = m.clients := by
  change (m.observers.live ++ [_]).filterMap _ = _
  rw [List.filterMap_append]
  exact List.append_nil _

/-- Taking off the only client leaves all others. -/
theorem unsubscribe_others {id : ObserverId} (h : m.clients = [id]) :
    (m.unsubscribe id).1.others = m.others := by
  have hnone : (m.unsubscribe id).1.clients = [] := by
    rw [unsubscribe_clients, h]
    simp
  unfold others
  rw [hnone, h]
  simp [unsubscribe, Observers.unsubscribe]

/-- A client that joins leaves all others, and follows each rule once. -/
theorem subscribeRules_spec (h : m.observers.Orderly) (hnone : m.clients = []) (k : Nat) :
    (m.subscribeRules (.connection k)).1.clients = [(m.subscribeRules (.connection k)).2] ∧
      (m.subscribeRules (.connection k)).1.others = m.others ∧
      ((m.subscribeRules (.connection k)).2, .connection k) ∈
        (m.subscribeRules (.connection k)).1.observers.live ∧
      (m.subscribeRules (.connection k)).1.observers.subscriptions.filter
          (·.observer = (m.subscribeRules (.connection k)).2) =
        m.tree.ruleNodes.map (⟨·, (m.subscribeRules (.connection k)).2⟩) := by
  have hid : (m.subscribeRules (.connection k)).2 = ⟨m.observers.next⟩ := rfl
  have hclients : (m.subscribeRules (.connection k)).1.clients = [⟨m.observers.next⟩] := by
    rw [subscribeRules_clients, hnone]
    rfl
  have hlive : (m.subscribeRules (.connection k)).1.observers.live =
      m.observers.live ++ [(⟨m.observers.next⟩, .connection k)] := rfl
  have hsubscriptions : (m.subscribeRules (.connection k)).1.observers.subscriptions =
      m.observers.subscriptions ++ m.tree.ruleNodes.map (⟨·, ⟨m.observers.next⟩⟩) := rfl
  have hold : ∀ e ∈ m.observers.live, e.1 ≠ ⟨m.observers.next⟩ := fun e he heq =>
    h.next_not_mem (List.mem_map.mpr ⟨e, he, heq⟩)
  have hown : ∀ s ∈ m.observers.subscriptions, s.observer ≠ ⟨m.observers.next⟩ :=
    fun s hs => h.observer_ne_next hs
  rw [hid, hclients, hlive, hsubscriptions]
  refine ⟨rfl, ?_, List.mem_append_right _ (List.mem_singleton_self _), ?_⟩
  · unfold others
    rw [hclients, hnone, hlive, hsubscriptions, List.filter_append, List.filter_append]
    have kept : m.observers.live.filter (·.1 ∉ [(⟨m.observers.next⟩ : ObserverId)]) =
        m.observers.live := List.filter_eq_self.mpr fun e he => by simpa using hold e he
    have kept' : m.observers.subscriptions.filter
        (·.observer ∉ [(⟨m.observers.next⟩ : ObserverId)]) = m.observers.subscriptions :=
      List.filter_eq_self.mpr fun s hs => by simpa using hown s hs
    rw [kept, kept']
    simp
  · rw [List.filter_append, List.filter_eq_nil_iff.mpr fun s hs => by simpa using hown s hs]
    exact List.filter_eq_self.mpr fun s hs => by
      obtain ⟨n, -, rfl⟩ := List.mem_map.mp hs
      simp

theorem isRule_of_mem_ruleNodes (h : m.Consistent) {n : Nat} (hn : n ∈ m.tree.ruleNodes) :
    m.tree.isRule n = true := by
  obtain ⟨r, hr, rfl⟩ := List.mem_map.mp hn
  refine isRule_iff_ruleId?.mpr ?_
  rw [(h.wellFormed.sound.mem_rules_iff r.1 r.2).mp (List.mem_mergeSort.mp hr)]
  rfl

/-- Who has subscribed to the nodes of all rules has one subscription to each rule. -/
theorem count_subscriptions (h : m.Consistent) {id : ObserverId}
    (hid : m.observers.subscriptions.filter (·.observer = id) = m.tree.ruleNodes.map (⟨·, id⟩))
    (n : Nat) : m.observers.subscriptions.count ⟨n, id⟩ = if m.tree.isRule n = true then 1 else 0 := by
  have hfilter : m.observers.subscriptions.count ⟨n, id⟩ =
      (m.observers.subscriptions.filter (·.observer = id)).count ⟨n, id⟩ :=
    (List.count_filter (by simp)).symm
  have hnodup : (m.tree.ruleNodes.map (⟨·, id⟩ : Nat → Subscription)).Nodup :=
    h.ruleNodes_nodup.map fun a b hab => congrArg Subscription.node hab
  rw [hfilter, hid]
  split
  next hr =>
    exact List.count_eq_one_of_mem hnodup
      (List.mem_map_of_mem (mem_ruleNodes h.wellFormed.sound hr))
  next hr =>
    refine List.count_eq_zero_of_not_mem fun hm => hr ?_
    obtain ⟨r, hr', he⟩ := List.mem_map.mp hm
    cases he
    exact isRule_of_mem_ruleNodes h hr'

end RuleModel

end RuleScope
