import RuleScope.Link.Debugger
import RuleScope.Proofs.RuleModel.Changes

namespace RuleScope

open RuleTree

namespace Connection

/-- A connection after some messages were given to it. -/
def feed (messages : List Wire.StateMessage) (c : Connection) : Connection :=
  if c.accepts then { c with queue := c.queue ++ messages } else c

theorem feed_nil (c : Connection) : c.feed [] = c := by
  unfold feed
  split <;> simp

theorem feed_accepts (c : Connection) (messages : List Wire.StateMessage) :
    (c.feed messages).accepts = c.accepts := by
  unfold feed
  split <;> rfl

theorem feed_feed (c : Connection) (first second : List Wire.StateMessage) :
    (c.feed first).feed second = c.feed (first ++ second) := by
  by_cases h : c.accepts = true
  · have h₁ : c.feed first = { c with queue := c.queue ++ first } := if_pos h
    have h₂ : (c.feed first).accepts = true := (feed_accepts c first).trans h
    rw [feed, if_pos h₂, h₁, feed, if_pos h, List.append_assoc]
  · have h₁ : c.feed first = c := if_neg h
    rw [h₁, feed, if_neg h, feed, if_neg h]

theorem feed_writer (c : Connection) (messages : List Wire.StateMessage) :
    (c.feed messages).writer = c.writer := by
  unfold feed
  split <;> rfl

theorem feed_closing (c : Connection) (messages : List Wire.StateMessage) :
    (c.feed messages).closing = c.closing := by
  unfold feed
  split <;> rfl

theorem feed_reading (c : Connection) (messages : List Wire.StateMessage) :
    (c.feed messages).reading = c.reading := by
  unfold feed
  split <;> rfl

theorem feed_queue (c : Connection) (messages : List Wire.StateMessage) :
    (c.feed messages).queue = c.queue ++ if c.accepts then messages else [] := by
  unfold feed
  split <;> simp

end Connection

namespace Link

/-- `l'` is `l` with messages given to its connections. -/
structure Fed (l l' : Link) (messages : Nat → List Wire.StateMessage) : Prop where
  connection : ∀ k : Nat, l'.connections[k]? = l.connections[k]?.map (Connection.feed (messages k))
  state_eq : l'.state = l.state
  current_eq : l'.current = l.current
  observer_eq : l'.observer = l.observer

variable {l l' l'' : Link} {messages more : Nat → List Wire.StateMessage}

theorem Fed.refl (l : Link) : l.Fed l fun _ => [] :=
  ⟨fun k => by cases l.connections[k]? <;> simp [Connection.feed_nil], rfl, rfl, rfl⟩

theorem Fed.trans (h : l.Fed l' messages) (h' : l'.Fed l'' more) :
    l.Fed l'' fun k => messages k ++ more k := by
  refine ⟨fun k => ?_, h'.state_eq.trans h.state_eq, h'.current_eq.trans h.current_eq,
    h'.observer_eq.trans h.observer_eq⟩
  rw [h'.connection k, h.connection k, Option.map_map]
  cases l.connections[k]? with
  | none => rfl
  | some c => exact congrArg some (Connection.feed_feed c _ _)

theorem length_eq_of_none_iff
    (h : ∀ k : Nat, l'.connections[k]? = none ↔ l.connections[k]? = none) :
    l'.connections.length = l.connections.length := by
  have h₁ := (h l.connections.length).mpr (List.getElem?_eq_none (Nat.le_refl _))
  have h₂ := (h l'.connections.length).mp (List.getElem?_eq_none (Nat.le_refl _))
  rw [List.getElem?_eq_none_iff] at h₁ h₂
  omega

theorem Fed.length_eq (h : l.Fed l' messages) : l'.connections.length = l.connections.length :=
  length_eq_of_none_iff fun k => by rw [h.connection k, Option.map_eq_none_iff]

theorem update_connection (l : Link) (k : Nat) (f : Connection → Connection) (j : Nat) :
    (l.update k f).connections[j]? =
      if k = j then l.connections[j]?.map f else l.connections[j]? := by
  simp only [update, List.getElem?_modify]
  split
  next => rfl
  next => cases l.connections[j]? <;> rfl

theorem enqueue_fed (l : Link) (k : Nat) (m : Wire.StateMessage) :
    l.Fed (l.enqueue k m) fun j => if j = k then [m] else [] := by
  refine ⟨fun j => ?_, rfl, rfl, rfl⟩
  rw [enqueue, update_connection]
  by_cases h : k = j
  · subst h
    rw [if_pos rfl, if_pos rfl]
    rfl
  · rw [if_neg h, if_neg (Ne.symm h)]
    cases l.connections[j]? <;> simp [Connection.feed_nil]

/-- What a connection is told of some notices. -/
def told (m : RuleModel) (k : Nat) (notices : List Notice) : List Wire.StateMessage :=
  notices.filterMap fun n =>
    if m.observers.receiver? n.observer = some (.connection k) then
      n.change.rule.map fun rule => ⟨rule, n.change.new⟩
    else none

theorem forwardOne_fed (m : RuleModel) (l : Link) (n : Notice) :
    l.Fed (forwardOne m l n) fun k => told m k [n] := by
  have nothing : (∀ k, told m k [n] = []) → l.Fed l fun k => told m k [n] := fun h => by
    rw [show (fun k => told m k [n]) = fun _ => [] from funext h]
    exact .refl l
  unfold forwardOne
  split
  next k rule hr hrule =>
    have : (fun j => told m j [n]) = fun j => if j = k then [⟨rule, n.change.new⟩] else [] := by
      funext j
      by_cases hj : k = j
      · simp [told, hr, hrule, hj]
      · simp [told, hr, hj, Ne.symm hj]
    rw [this]
    exact enqueue_fed l k _
  next hnone =>
    refine nothing fun k => ?_
    cases hrule : n.change.rule with
    | none => simp [told, hrule]
    | some rule =>
      have hne : m.observers.receiver? n.observer ≠ some (.connection k) :=
        fun hr => hnone k rule hr hrule
      simp [told, hne]

theorem forward_fed (m : RuleModel) (l : Link) (notices : List Notice) :
    l.Fed (l.forward m notices) fun k => told m k notices := by
  induction notices generalizing l with
  | nil => exact .refl l
  | cons n rest ih =>
    have h := (forwardOne_fed m l n).trans (ih (forwardOne m l n))
    have : (fun k => told m k (n :: rest)) = fun k => told m k [n] ++ told m k rest := by
      funext k
      rw [told, told, told, ← List.filterMap_append, List.singleton_append]
    rw [this]
    exact h

section

variable {m : RuleModel} {k : Nat}

theorem told_append (m : RuleModel) (k : Nat) (notices more : List Notice) :
    told m k (notices ++ more) = told m k notices ++ told m k more :=
  List.filterMap_append

/-- What a connection is told of one change is that rule's new state, as often as it listens. -/
theorem mem_told_one {c : Change} {message : Wire.StateMessage}
    (h : message ∈ told m k (m.observers.notices [c])) :
    c.rule = some message.rule ∧ message.state = c.new := by
  obtain ⟨n, hn, hm⟩ := List.mem_filterMap.mp h
  obtain ⟨d, hd, hw⟩ := List.mem_flatMap.mp hn
  obtain ⟨id, _, rfl⟩ := List.mem_map.mp hw
  rw [List.mem_singleton.mp hd] at hm
  split at hm
  next =>
    obtain ⟨rule, hrule, rfl⟩ := Option.map_eq_some_iff.mp hm
    exact ⟨hrule, rfl⟩
  next => cases hm

theorem notices_cons (o : Observers) (c : Change) (changes : List Change) :
    o.notices (c :: changes) = o.notices [c] ++ o.notices changes := by
  simp [Observers.notices]

theorem mem_told {changes : List Change} {message : Wire.StateMessage}
    (h : message ∈ told m k (m.observers.notices changes)) :
    ∃ c ∈ changes, c.rule = some message.rule ∧ message.state = c.new := by
  induction changes with
  | nil => simp [told, Observers.notices] at h
  | cons c rest ih =>
    rw [notices_cons, told_append] at h
    rcases List.mem_append.mp h with h | h
    · exact ⟨c, List.mem_cons_self, mem_told_one h⟩
    · obtain ⟨d, hd, hr⟩ := ih h
      exact ⟨d, List.mem_cons_of_mem _ hd, hr⟩

/-- A connection that follows a rule is told its changes. -/
theorem exists_mem_told {id : ObserverId} {c : Change} {rule : RuleId}
    (hr : m.observers.receiver? id = some (.connection k))
    (hs : (⟨c.node, id⟩ : Subscription) ∈ m.observers.subscriptions) (hc : c.rule = some rule) :
    ∃ message ∈ told m k (m.observers.notices [c]), message.rule = rule := by
  have hw : id ∈ m.observers.watchers c.node :=
    List.mem_map.mpr ⟨_, List.mem_filter.mpr ⟨hs, by simp⟩, rfl⟩
  refine ⟨⟨rule, c.new⟩, List.mem_filterMap.mpr ⟨⟨id, c⟩, ?_, ?_⟩, rfl⟩
  · exact List.mem_flatMap.mpr ⟨c, List.mem_singleton.mpr rfl, List.mem_map.mpr ⟨id, hw, rfl⟩⟩
  · simp [hr, hc]

/-- The last that a connection which follows all rules is told of a rule is its last change. -/
theorem latest?_told {id : ObserverId} (hr : m.observers.receiver? id = some (.connection k))
    (hs : ∀ r, m.tree.isRule r = true → (⟨r, id⟩ : Subscription) ∈ m.observers.subscriptions)
    (sound : m.tree.Sound) {changes : List Change} (allowed : ∀ c ∈ changes, m.tree.Allows c)
    {n : Nat} {rule : RuleId} (hn : m.tree.ruleId? n = some rule) :
    latest? Wire.StateMessage.rule Wire.StateMessage.state rule
      (told m k (m.observers.notices changes)) = changedTo? n changes := by
  induction changes with
  | nil => simp [told, Observers.notices, changedTo?]
  | cons c rest ih =>
    have hc := allowed c List.mem_cons_self
    rw [notices_cons, told_append, latest?_append, changedTo?, latest?_cons,
      ih fun d hd => allowed d (List.mem_cons_of_mem _ hd)]
    congr 1
    by_cases he : c.node = n
    · have hrule : c.rule = some rule := by rw [hc.rule_eq, he, hn]
      obtain ⟨message, hm, heq⟩ := exists_mem_told hr
        (hs c.node (isRule_iff_ruleId?.mpr (by rw [← hc.rule_eq, hrule]; rfl))) hrule
      rw [if_pos he]
      exact latest?_eq_some _ _ _ ⟨message, hm, heq⟩ fun message hm _ => (mem_told_one hm).2
    · rw [if_neg he]
      refine (latest?_eq_none_iff _ _ _).mpr fun message hm heq => he ?_
      have hrule := (mem_told_one hm).1
      rw [hc.rule_eq, heq] at hrule
      exact sound.ruleId?_inj hrule hn

/-- Nothing is told of a rule that has not changed. -/
theorem told_of_not_changed (sound : m.tree.Sound) {changes : List Change}
    (allowed : ∀ c ∈ changes, m.tree.Allows c) {n : Nat} {rule : RuleId}
    (hn : m.tree.ruleId? n = some rule) (hc : changedTo? n changes = none) (k : Nat) :
    ∀ message ∈ told m k (m.observers.notices changes), message.rule ≠ rule := by
  intro message hm he
  obtain ⟨c, hmem, hrule, _⟩ := mem_told hm
  have hnode := (latest?_eq_none_iff _ _ _).mp hc c hmem
  rw [(allowed c hmem).rule_eq, he] at hrule
  exact hnode (sound.ruleId?_inj hrule hn)

end

/-- An accepting connection takes all messages that may be sent. -/
theorem sendAll_fed {k : Nat} {c : Connection} (hk : l.current = some k)
    (hc : l.connections[k]? = some c) (ha : c.accepts = true) {ms : List Wire.StateMessage}
    (hms : ∀ m ∈ ms, m.state.isDerived = false) :
    ∃ l', l.sendAll ms = (l', none) ∧ l.Fed l' fun j => if j = k then ms else [] := by
  induction ms generalizing l c with
  | nil =>
    refine ⟨l, rfl, ?_⟩
    have : (fun j : Nat => if j = k then ([] : List Wire.StateMessage) else []) = fun _ => [] := by
      funext j
      split <;> rfl
    rw [this]
    exact .refl l
  | cons m rest ih =>
    have hm := hms m List.mem_cons_self
    have hsend : l.send m = .ok (l.enqueue k m) := by
      simp only [send, hk, hm, hc, ha]
      rfl
    have hfed := enqueue_fed l k m
    have hc' : (l.enqueue k m).connections[k]? = some (c.feed [m]) := by
      rw [hfed.connection k, hc, if_pos rfl]
      rfl
    obtain ⟨l', he, hrest⟩ := ih (hfed.current_eq.trans hk) hc'
      ((Connection.feed_accepts c [m]).trans ha) fun m' hm' => hms m' (List.mem_cons_of_mem _ hm')
    refine ⟨l', by rw [sendAll, hsend]; exact he, ?_⟩
    have : (fun j : Nat => if j = k then m :: rest else []) = fun j =>
        (if j = k then [m] else []) ++ if j = k then rest else [] := by
      funext j
      split <;> rfl
    rw [this]
    exact hfed.trans hrest

end Link

end RuleScope
