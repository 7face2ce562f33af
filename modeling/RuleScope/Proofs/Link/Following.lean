import Mathlib.Data.List.Nodup
import RuleScope.Proofs.Link.Soundness
import RuleScope.RuleModel.Report

namespace RuleScope

open RuleTree

def Change.message? (c : Change) : Option Wire.StateMessage := c.rule.map fun rule => ⟨rule, c.new⟩

namespace RuleModel

/-- The observers of a model that are connections to the runtime. -/
def clients (m : RuleModel) : List ObserverId :=
  m.observers.live.filterMap fun e =>
    match e.2 with
    | .connection _ => some e.1
    | .listener => none

/-- Nobody observes the model. -/
structure Unobserved (m : RuleModel) : Prop where
  live : m.observers.live = []
  subscriptions : m.observers.subscriptions = []

/-- The connection `k` is the one observer, and follows each rule once. -/
structure FollowedBy (m : RuleModel) (id : ObserverId) (k : Nat) : Prop where
  live : m.observers.live = [(id, .connection k)]
  subscriptions : m.observers.subscriptions = m.tree.ruleNodes.map (⟨·, id⟩)

variable {m : RuleModel} {id : ObserverId} {k : Nat}

theorem unobserved_of_eq (h : m.observers = ⟨[], [], 0⟩) : m.Unobserved :=
  ⟨by rw [h], by rw [h]⟩

theorem Unobserved.clients_eq (h : m.Unobserved) : m.clients = [] := by
  rw [clients, h.live]
  rfl

theorem FollowedBy.clients_eq (h : m.FollowedBy id k) : m.clients = [id] := by
  rw [clients, h.live]
  rfl

theorem Unobserved.unsubscribe (h : m.Unobserved) (id : ObserverId) :
    (m.unsubscribe id).1.Unobserved := by
  refine ⟨?_, ?_⟩
  · change m.observers.live.filter _ = []
    rw [h.live]
    rfl
  · change m.observers.subscriptions.filter _ = []
    rw [h.subscriptions]
    rfl

theorem FollowedBy.unsubscribe (h : m.FollowedBy id k) : (m.unsubscribe id).1.Unobserved := by
  refine ⟨?_, ?_⟩
  · change m.observers.live.filter _ = []
    rw [h.live]
    simp
  · change m.observers.subscriptions.filter _ = []
    rw [h.subscriptions]
    simp

theorem Unobserved.subscribeRules (h : m.Unobserved) (k : Nat) :
    (m.subscribeRules (.connection k)).1.FollowedBy (m.subscribeRules (.connection k)).2 k := by
  refine ⟨?_, ?_⟩
  · change m.observers.live ++ _ = _
    rw [h.live]
    rfl
  · change m.observers.subscriptions ++ _ = _
    rw [h.subscriptions]
    rfl

theorem subscribeRules_clients (m : RuleModel) (k : Nat) :
    (m.subscribeRules (.connection k)).1.clients =
      m.clients ++ [(m.subscribeRules (.connection k)).2] := by
  change List.filterMap _ (m.observers.live ++ _) = _
  rw [List.filterMap_append]
  rfl

theorem Consistent.ruleNodes_nodup (h : m.Consistent) : m.tree.ruleNodes.Nodup := by
  have sound := h.wellFormed.sound
  refine ((List.mergeSort_perm m.tree.rules _).map Prod.snd).nodup_iff.mpr ?_
  refine List.Nodup.map_on (fun r hr q hq he => ?_) (List.Nodup.of_map Prod.fst sound.rules_nodup)
  have hr := (sound.mem_rules_iff r.1 r.2).mp hr
  have hq := (sound.mem_rules_iff q.1 q.2).mp hq
  rw [he, hq] at hr
  exact Prod.ext (Option.some.inj hr).symm he

theorem acceptStates_kept (h : m.Consistent) (states : List Wire.StateMessage) :
    (m.acceptStates states).1.Consistent ∧ (m.acceptStates states).1.tree = m.tree ∧
      (m.acceptStates states).1.observers = m.observers := by
  induction states generalizing m with
  | nil => exact ⟨h, rfl, rfl⟩
  | cons s rest ih =>
    unfold acceptStates
    split
    next u hu =>
      have hfrom := setRuleState_from h hu
      obtain ⟨hc, htree, hobservers⟩ := ih hfrom.consistent
      exact ⟨hc, htree.trans hfrom.tree_eq, hobservers.trans hfrom.observers_eq⟩
    next => exact ih h

end RuleModel

namespace Link

/-- The observer on a model, if there is one, is the one that the link remembers. -/
def Follows (l : Link) (m : RuleModel) : Prop :=
  m.Unobserved ∨ ∃ id k, l.observer = some id ∧ m.FollowedBy id k

variable {l l' : Link} {m : RuleModel}

theorem Follows.clients_length_le (h : l.Follows m) : m.clients.length ≤ 1 := by
  rcases h with h | ⟨id, k, _, h⟩
  · rw [h.clients_eq]
    exact Nat.zero_le 1
  · rw [h.clients_eq]
    exact Nat.le_refl 1

theorem Follows.unobserved (h : l.Follows m) (hnone : m.clients = []) : m.Unobserved := by
  rcases h with h | ⟨id, k, _, h⟩
  · exact h
  · rw [h.clients_eq] at hnone
    cases hnone

theorem Follows.congr (h : l.Follows m) {m' : RuleModel} (hl : l'.observer = l.observer)
    (htree : m'.tree = m.tree) (hobservers : m'.observers = m.observers) : l'.Follows m' := by
  rcases h with h | ⟨id, k, hid, h⟩
  · exact Or.inl ⟨by rw [hobservers, h.live], by rw [hobservers, h.subscriptions]⟩
  · exact Or.inr ⟨id, k, hl.trans hid, by rw [hobservers, h.live],
      by rw [hobservers, h.subscriptions, htree]⟩

theorem detach_model (l : Link) (m : RuleModel) :
    ∃ observers : Observers, (l.detach m).2 = { m with observers } := by
  unfold detach
  split
  · exact ⟨m.observers, rfl⟩
  · exact ⟨_, rfl⟩

theorem detach_observer (l : Link) (m : RuleModel) : (l.detach m).1.observer = none := by
  unfold detach
  split
  next h => exact h
  next => rfl

theorem Follows.detach (h : l.Follows m) : (l.detach m).2.Unobserved := by
  rcases h with h | ⟨id, k, hid, h⟩
  · unfold Link.detach
    split
    · exact h
    · exact h.unsubscribe _
  · unfold Link.detach
    rw [hid]
    exact h.unsubscribe

theorem sendAll_observer (l : Link) (messages : List Wire.StateMessage) :
    (l.sendAll messages).1.observer = l.observer := by
  induction messages generalizing l with
  | nil => rfl
  | cons message rest ih =>
    unfold sendAll
    split
    next l' hsend =>
      rw [ih]
      unfold send at hsend
      split at hsend
      next => cases hsend
      next =>
        split at hsend
        next => cases hsend
        next =>
          split at hsend
          next =>
            split at hsend
            next =>
              cases hsend
              rfl
            next => cases hsend
          next => cases hsend
    next => rfl

/-- Attaching detaches first; then it fails, or subscribes one observer and remembers it. -/
theorem attach_cases (l : Link) (m : RuleModel) :
    ((l.attach m).1.observer = none ∧ (l.attach m).2.1 = (l.detach m).2) ∨
    ∃ k, (l.attach m).2.1 = ((l.detach m).2.subscribeRules (.connection k)).1 ∧
      (l.attach m).1.observer = some ((l.detach m).2.subscribeRules (.connection k)).2 := by
  unfold attach
  dsimp only
  split
  next => exact Or.inl ⟨detach_observer l m, rfl⟩
  next k _ =>
    split
    next hsend =>
      refine Or.inl ⟨?_, rfl⟩
      have := sendAll_observer (l.detach m).1 ((l.detach m).2.ruleStates.map fun r => ⟨r.1, r.2⟩)
      rw [hsend] at this
      exact this.trans (detach_observer l m)
    next => exact Or.inr ⟨k, rfl, rfl⟩

theorem attach_model (l : Link) (m : RuleModel) :
    ∃ observers : Observers, (l.attach m).2.1 = { m with observers } := by
  obtain ⟨observers, hm⟩ := detach_model l m
  rcases attach_cases l m with ⟨_, h⟩ | ⟨k, h, _⟩
  · exact ⟨observers, h.trans hm⟩
  · rw [h, hm]
    exact ⟨_, rfl⟩

theorem Follows.attach (h : l.Follows m) : (l.attach m).1.Follows (l.attach m).2.1 := by
  have hu := h.detach
  rcases attach_cases l m with ⟨_, hm⟩ | ⟨k, hm, ho⟩
  · rw [hm]
    exact Or.inl hu
  · rw [hm]
    exact Or.inr ⟨_, k, ho, hu.subscribeRules k⟩

theorem disconnect_model (l : Link) (m : RuleModel) :
    ∃ observers : Observers, (l.disconnect m).2 = { m with observers } := detach_model l m

/-- The client leaves nothing behind on the model that it follows. -/
theorem Follows.disconnect (h : l.Follows m) : (l.disconnect m).2.Unobserved := h.detach

theorem connect_cases (l : Link) (addr : String) (dial : Dial) (m : RuleModel) :
    (l.connect addr dial m).2.1 = (l.disconnect m).2 ∨
    ∃ opened : Link, (l.connect addr dial m).1 = (opened.attach (l.disconnect m).2).1 ∧
      (l.connect addr dial m).2.1 = (opened.attach (l.disconnect m).2).2.1 := by
  unfold connect
  cases dial with
  | accepted => exact Or.inr ⟨_, rfl, rfl⟩
  | refused => exact Or.inl rfl
  | invalid => exact Or.inl rfl
  | silent => exact Or.inl rfl

theorem connect_model (l : Link) (addr : String) (dial : Dial) (m : RuleModel) :
    ∃ observers : Observers, (l.connect addr dial m).2.1 = { m with observers } := by
  obtain ⟨observers, hd⟩ := disconnect_model l m
  rcases connect_cases l addr dial m with h | ⟨opened, _, h⟩
  · exact ⟨observers, h.trans hd⟩
  · obtain ⟨observers', ha⟩ := attach_model opened (l.disconnect m).2
    rw [h, ha, hd]
    exact ⟨observers', rfl⟩

/-- Connecting gives the model up before it turns to it again. -/
theorem Follows.connect (h : l.Follows m) (addr : String) (dial : Dial) :
    (l.connect addr dial m).1.Follows (l.connect addr dial m).2.1 := by
  rcases connect_cases l addr dial m with hm | ⟨opened, hl, hm⟩
  · rw [hm]
    exact Or.inl h.disconnect
  · rw [hl, hm]
    exact Follows.attach (Or.inl h.disconnect)

theorem modelReplaced_model (l : Link) (m : RuleModel) :
    ∃ observers : Observers, (l.modelReplaced m).2.1 = { m with observers } := by
  unfold modelReplaced
  dsimp only
  split
  · exact attach_model _ m
  · exact ⟨m.observers, rfl⟩

theorem follows_modelReplaced (l : Link) (h : m.Unobserved) :
    (l.modelReplaced m).1.Follows (l.modelReplaced m).2.1 := by
  unfold modelReplaced
  dsimp only
  split
  · exact Follows.attach (Or.inl h)
  · exact Or.inl h

/-- Hearing of a model forgets the observer on it: another joins it, or none is remembered. -/
theorem modelReplaced_clients (hc : l.isConnected = true) :
    ((l.modelReplaced m).1.observer = none ∧ (l.modelReplaced m).2.1.clients = m.clients) ∨
      (l.modelReplaced m).2.1.clients.length = m.clients.length + 1 := by
  have hc' : ({ l with observer := none } : Link).isConnected = true := hc
  have hd : (({ l with observer := none } : Link).detach m).2 = m := rfl
  -- The observer that was forgotten is not taken off the model.
  unfold modelReplaced
  dsimp only
  rw [if_pos hc']
  rcases attach_cases { l with observer := none } m with ⟨ho, hm⟩ | ⟨k, hm, _⟩
  · exact Or.inl ⟨ho, by rw [hm, hd]⟩
  · refine Or.inr ?_
    rw [hm, hd, RuleModel.subscribeRules_clients, List.length_append, List.length_singleton]

theorem read_observer (l : Link) (k : Nat) (e : ReaderEvent) :
    (l.read k e).observer = l.observer := by
  cases e with
  | line text => exact (l.read_line_fields k text).2.2.2
  | ended =>
    unfold read
    split
    next => rfl
    next =>
      split
      next => rfl
      next => exact (publish_fields _ _).2.2

theorem writerStep?_observer {k : Nat} {e : WriterEvent} {r : Link × Option String}
    (h : l.writerStep? k e = some r) : r.1.observer = l.observer := by
  unfold writerStep? at h
  obtain ⟨c, _, h⟩ := Option.bind_eq_some_iff.mp h
  obtain ⟨⟨c', effect⟩, _, h⟩ := Option.bind_eq_some_iff.mp h
  dsimp only at h
  split at h
  next =>
    cases h
    rfl
  next =>
    cases h
    exact (publish_fields _ _).2.2
  next =>
    cases h
    rfl

theorem forward_observer (m : RuleModel) (l : Link) (notices : List Notice) :
    (l.forward m notices).observer = l.observer := (forward_fed m l notices).observer_eq

/-- The message for the runtime that a notice gives rise to, with the connection that it is for. -/
def message? (m : RuleModel) (n : Notice) : Option (Nat × Wire.StateMessage) :=
  match m.observers.receiver? n.observer with
  | some (.connection k) => n.change.message?.map (k, ·)
  | _ => none

theorem forward_eq (m : RuleModel) (l : Link) (notices : List Notice) :
    l.forward m notices =
      (notices.filterMap (message? m)).foldl (fun l q => l.enqueue q.1 q.2) l := by
  induction notices generalizing l with
  | nil => rfl
  | cons n rest ih =>
    have hone : forwardOne m l n = (message? m n).toList.foldl (fun l q => l.enqueue q.1 q.2) l := by
      unfold forwardOne message? Change.message?
      split
      next k rule hr hrule => rw [hr, hrule]; rfl
      next hnone =>
        split
        next k hr =>
          cases hrule : n.change.rule with
          | none => rfl
          | some rule => exact absurd hrule (hnone k rule hr)
        next => rfl
    change (forwardOne m l n).forward m rest = _
    rw [ih, hone, List.filterMap_cons]
    cases message? m n <;> rfl

theorem watchers_of_followedBy {id : ObserverId} {k : Nat} (h : m.FollowedBy id k)
    (hnodup : m.tree.ruleNodes.Nodup) (n : Nat) :
    m.observers.watchers n = [] ∨ m.observers.watchers n = [id] := by
  have hw : m.observers.watchers n = (m.tree.ruleNodes.filter (· = n)).map fun _ => id := by
    rw [Observers.watchers, h.subscriptions, List.filter_map, List.map_map]
    rfl
  have hle := List.nodup_iff_count_le_one.mp hnodup n
  rw [hw, List.filter_eq, List.map_replicate]
  rcases Nat.le_one_iff_eq_zero_or_eq_one.mp hle with h0 | h1
  · exact Or.inl (by rw [h0]; rfl)
  · exact Or.inr (by rw [h1]; rfl)

/-- While the link follows a model, each change of a rule is queued at most once. -/
theorem Follows.forward_once (h : l.Follows m) (hm : m.Consistent) (changes : List Change) :
    ∃ queued : List (Nat × Wire.StateMessage),
      l.forward m (m.observers.notices changes) =
        queued.foldl (fun l q => l.enqueue q.1 q.2) l ∧
      (queued.map Prod.snd).Sublist (changes.filterMap Change.message?) := by
  refine ⟨_, forward_eq m l _, ?_⟩
  induction changes with
  | nil => exact List.Sublist.refl _
  | cons c rest ih =>
    have hone : (((m.observers.watchers c.node).map (⟨·, c⟩ : ObserverId → Notice)).filterMap
        (message? m)).map Prod.snd |>.Sublist c.message?.toList := by
      -- Nobody watches the node, or the one observer does, once.
      rcases h with h | ⟨id, k, _, h⟩
      · rw [Observers.watchers, h.subscriptions]
        exact List.nil_sublist _
      · rcases watchers_of_followedBy h hm.ruleNodes_nodup c.node with hw | hw
        · rw [hw]
          exact List.nil_sublist _
        · have hr : m.observers.receiver? id = some (.connection k) := by
            rw [Observers.receiver?, h.live]
            simp [Table.get?]
          rw [hw]
          simp only [List.map_cons, List.map_nil, List.filterMap_cons, List.filterMap_nil, message?,
            hr]
          cases c.message? <;> simp
    have hnotices : m.observers.notices (c :: rest) =
        (m.observers.watchers c.node).map (⟨·, c⟩) ++ m.observers.notices rest := by
      simp [Observers.notices]
    have hmessages : (c :: rest).filterMap Change.message? =
        c.message?.toList ++ rest.filterMap Change.message? := by
      rw [List.filterMap_cons]
      cases c.message? <;> rfl
    rw [hnotices, hmessages, List.filterMap_append, List.map_append]
    exact hone.append ih

end Link

end RuleScope
