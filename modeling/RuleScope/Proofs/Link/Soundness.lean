import RuleScope.Proofs.Link.Queues
import RuleScope.Proofs.RuleModel.Observing

namespace RuleScope

open RuleTree

namespace RuleModel

/-- Observer `id` is the connection `k` and follows every rule. -/
structure Watched (m : RuleModel) (id : ObserverId) (k : Nat) : Prop where
  receiver : m.observers.receiver? id = some (.connection k)
  subscribed : ∀ r, m.tree.isRule r = true → (⟨r, id⟩ : Subscription) ∈ m.observers.subscriptions

theorem mem_ruleNodes {t : RuleTree} (h : t.Sound) {r : Nat} (hr : t.isRule r = true) :
    r ∈ t.ruleNodes := by
  obtain ⟨id, hid⟩ := Option.isSome_iff_exists.mp (isRule_iff_ruleId?.mp hr)
  have hmem := (h.mem_rules_iff id r).mpr hid
  exact List.mem_map.mpr ⟨(id, r), List.mem_mergeSort.mpr hmem, rfl⟩

theorem subscribeRules_watched {m : RuleModel} (hs : m.tree.Sound) (hf : m.observers.Fresh)
    (k : Nat) :
    (m.subscribeRules (.connection k)).1.Watched (m.subscribeRules (.connection k)).2 k := by
  refine ⟨Observers.subscribe_receiver? hf _ _, fun r hr => ?_⟩
  refine List.mem_append_right _ (List.mem_map.mpr ⟨r, mem_ruleNodes hs hr, rfl⟩)

/-- The states of all rules as messages. -/
def table (m : RuleModel) : List Wire.StateMessage := m.ruleStates.map fun r => ⟨r.1, r.2⟩

theorem mem_table_iff {m : RuleModel} {message : Wire.StateMessage} :
    message ∈ m.table ↔ ∃ n, (message.rule, n) ∈ m.tree.rules ∧ message.state = m.state n := by
  simp only [table, ruleStates, rulesById, List.map_map, List.mem_map, List.mem_mergeSort,
    Function.comp_apply]
  constructor
  · rintro ⟨r, hr, rfl⟩
    exact ⟨r.2, hr, rfl⟩
  · rintro ⟨n, hn, hs⟩
    exact ⟨(message.rule, n), hn, by rw [← hs]⟩

theorem table_selectable {m : RuleModel} (h : m.Consistent) :
    ∀ message ∈ m.table, message.state.isDerived = false := by
  intro message hm
  obtain ⟨n, hn, hs⟩ := mem_table_iff.mp hm
  rw [hs]
  refine h.settled.live.selectable n (isRule_iff_ruleId?.mpr ?_)
  rw [(h.wellFormed.sound.mem_rules_iff _ n).mp hn]
  rfl

end RuleModel

/-- A connection whose writes never fail. -/
structure Connection.Sound (c : Connection) : Prop where
  writer_open : c.closing = false → c.writer = .idle ∨ ∃ line, c.writer = .writing line
  reading_closed : c.closing = true → c.reading = false
  queue_stopped : c.writer = .stopped → c.queue = []

theorem Connection.Sound.accepts {c : Connection} (h : c.Sound) (hc : c.closing = false) :
    c.accepts = true := by
  rcases h.writer_open hc with hw | ⟨line, hw⟩ <;> simp [Connection.accepts, hw]

theorem Connection.Sound.feed {c : Connection} (h : c.Sound) (messages : List Wire.StateMessage) :
    (c.feed messages).Sound := by
  refine ⟨?_, ?_, ?_⟩
  · rw [feed_closing, feed_writer]
    exact h.writer_open
  · rw [feed_closing, feed_reading]
    exact h.reading_closed
  · rw [feed_writer, feed_queue]
    intro hw
    have hstop : c.accepts = false := by simp [Connection.accepts, hw]
    simp [h.queue_stopped hw, hstop]

theorem Connection.Sound.step {c c' : Connection} (h : c.Sound) {e : WriterEvent}
    {effect : WriterEffect} (he : e ≠ .failed) (hs : c.step? e = some (c', effect)) :
    c'.Sound ∧ c'.closing = c.closing ∧ effect ≠ .lost := by
  have taken : ∀ {busy : String → Writer}, (∀ line, c.closing = false → busy line = .writing line) →
      (∀ line, busy line ≠ .stopped) → c.writer ≠ .stopped → c.take? busy = some c' →
      c'.Sound ∧ c'.closing = c.closing := by
    intro busy hbusy hne hw ht
    unfold take? at ht
    split at ht
    next => cases ht
    next m rest hq =>
      split at ht
      next line _ =>
        cases ht
        exact ⟨⟨fun hc => Or.inr ⟨line, hbusy line hc⟩, h.reading_closed, fun hx => absurd hx (hne line)⟩,
          rfl⟩
      next =>
        cases ht
        exact ⟨⟨h.writer_open, h.reading_closed, fun hx => absurd hx hw⟩, rfl⟩
  cases e with
  | take =>
    simp only [step?] at hs
    split at hs
    next hw =>
      obtain ⟨c₁, ht, he⟩ := Option.map_eq_some_iff.mp hs
      cases he
      obtain ⟨hsound, hclosing⟩ := taken (fun _ _ => rfl) (by simp) (by simp [hw]) ht
      exact ⟨hsound, hclosing, by simp⟩
    next hw =>
      obtain ⟨c₁, ht, he⟩ := Option.map_eq_some_iff.mp hs
      cases he
      have hclosed : c.closing ≠ false := fun hc => by
        rcases h.writer_open hc with hx | ⟨line, hx⟩ <;> simp [hw] at hx
      obtain ⟨hsound, hclosing⟩ := taken (fun _ hc => absurd hc hclosed) (by simp) (by simp [hw]) ht
      exact ⟨hsound, hclosing, by simp⟩
    next => cases hs
  | sent =>
    simp only [step?] at hs
    split at hs
    next hw =>
      cases hs
      exact ⟨⟨fun _ => Or.inl rfl, h.reading_closed, by simp⟩, rfl, by simp⟩
    next line hw =>
      cases hs
      have hclosed : c.closing ≠ false := fun hc => by
        rcases h.writer_open hc with hx | ⟨line, hx⟩ <;> simp [hw] at hx
      exact ⟨⟨fun hc => absurd hc hclosed, h.reading_closed, by simp⟩, rfl, by simp⟩
    next => cases hs
  | failed => exact absurd rfl he
  | turn =>
    simp only [step?] at hs
    split at hs
    next hw =>
      cases hs
      exact ⟨⟨fun hc => by simp [hw.2] at hc, h.reading_closed, by simp⟩, rfl, by simp⟩
    next => cases hs
  | finish =>
    simp only [step?] at hs
    split at hs
    next hw =>
      cases hs
      have hclosed : c.closing ≠ false := fun hc => by
        rcases h.writer_open hc with hx | ⟨line, hx⟩ <;> simp [hw.1] at hx
      exact ⟨⟨fun hc => absurd hc hclosed, h.reading_closed, fun _ => rfl⟩, rfl, by simp⟩
    next => cases hs

/-- A link at rest, none of whose connections was lost. -/
structure Link.Sound (l : Link) : Prop where
  connection : ∀ (k : Nat) c, l.connections[k]? = some c → c.Sound
  state_eq : l.state = if l.current.isSome then .connected else .disconnected
  current_last : ∀ k, l.current = some k →
    ∃ c, l.connections[k]? = some c ∧ c.closing = false ∧ l.connections.length = k + 1
  others_closing : ∀ (k : Nat) c, l.connections[k]? = some c → l.current ≠ some k → c.closing = true

namespace Link

variable {l l' : Link}

theorem Sound.fed (h : l.Sound) {messages : Nat → List Wire.StateMessage} (hf : l.Fed l' messages) :
    l'.Sound := by
  refine ⟨?_, ?_, ?_, ?_⟩
  · intro k c hc
    rw [hf.connection k] at hc
    obtain ⟨c₀, h₀, rfl⟩ := Option.map_eq_some_iff.mp hc
    exact (h.connection k c₀ h₀).feed _
  · rw [hf.state_eq, hf.current_eq]
    exact h.state_eq
  · intro k hk
    rw [hf.current_eq] at hk
    obtain ⟨c, hc, hclosing, hlen⟩ := h.current_last k hk
    refine ⟨c.feed (messages k), by rw [hf.connection k, hc]; rfl, ?_, hf.length_eq.trans hlen⟩
    exact (c.feed_closing _).trans hclosing
  · intro k c hc hne
    rw [hf.connection k] at hc
    obtain ⟨c₀, h₀, rfl⟩ := Option.map_eq_some_iff.mp hc
    rw [Connection.feed_closing]
    exact h.others_closing k c₀ h₀ (by rwa [← hf.current_eq])

/-- Only the connections and the state matter. -/
theorem Sound.congr (h : l.Sound) (hconnections : l'.connections = l.connections)
    (hstate : l'.state = l.state) (hcurrent : l'.current = l.current) : l'.Sound := by
  refine ⟨?_, ?_, ?_, ?_⟩
  · rw [hconnections]
    exact h.connection
  · rw [hstate, hcurrent]
    exact h.state_eq
  · rw [hconnections, hcurrent]
    exact h.current_last
  · rw [hconnections, hcurrent]
    exact h.others_closing

theorem Sound.withObserver (h : l.Sound) (observer : Option ObserverId) :
    ({ l with observer } : Link).Sound := h.congr rfl rfl rfl

theorem update_eq_some {k : Nat} {c c' : Connection} (hc : l.connections[k]? = some c) (j : Nat) :
    (l.update k fun _ => c').connections[j]? = if k = j then some c' else l.connections[j]? := by
  rw [update_connection]
  split
  next hj =>
    subst hj
    rw [hc]
    rfl
  next => rfl

/-- A connection may change as long as it stays sound and as open as it was. -/
theorem Sound.update (h : l.Sound) {k : Nat} {c c' : Connection} (hc : l.connections[k]? = some c)
    (hsound : c'.Sound) (hclosing : c'.closing = c.closing) : (l.update k fun _ => c').Sound := by
  refine ⟨fun j d hd => ?_, h.state_eq, fun j hj => ?_, fun j d hd hne => ?_⟩
  · rw [update_eq_some hc] at hd
    split at hd
    next =>
      cases hd
      exact hsound
    next => exact h.connection j d hd
  · obtain ⟨d, hd, hdc, hlen⟩ := h.current_last j hj
    have hlen' : (l.update k fun _ => c').connections.length = j + 1 :=
      (List.length_modify _ _ _).trans hlen
    by_cases hjk : k = j
    · subst hjk
      obtain rfl : d = c := Option.some.inj (hd.symm.trans hc)
      exact ⟨c', by rw [update_eq_some hc, if_pos rfl], hclosing.trans hdc, hlen'⟩
    · exact ⟨d, by rw [update_eq_some hc, if_neg hjk]; exact hd, hdc, hlen'⟩
  · rw [update_eq_some hc] at hd
    split at hd
    next hjk =>
      subst hjk
      cases hd
      exact hclosing.trans (h.others_closing k c hc hne)
    next => exact h.others_closing j d hd hne

theorem sound_new (timeout : Nat) : (new timeout).Sound where
  connection := by simp [new]
  state_eq := rfl
  current_last := by simp [new]
  others_closing := by simp [new]

/-- `l'` has all connections of `l`, with the same writers; new messages satisfy `P`. -/
structure Grown (l l' : Link) (P : Wire.StateMessage → Prop) : Prop where
  writer_kept : ∀ (k : Nat) c, l.connections[k]? = some c →
    ∃ c', l'.connections[k]? = some c' ∧ c'.writer = c.writer
  queue_new : ∀ (k : Nat) c', l'.connections[k]? = some c' → ∀ m ∈ c'.queue,
    (∃ c, l.connections[k]? = some c ∧ m ∈ c.queue) ∨ P m

theorem Grown.length_le {P : Wire.StateMessage → Prop} (h : l.Grown l' P) :
    l.connections.length ≤ l'.connections.length := by
  by_contra hlt
  have hk : l'.connections.length < l.connections.length := by omega
  obtain ⟨c', hc', _⟩ := h.writer_kept l'.connections.length _ (List.getElem?_eq_getElem hk)
  have := (List.getElem?_eq_some_iff.mp hc').1
  omega

theorem Fed.grown {messages : Nat → List Wire.StateMessage} (h : l.Fed l' messages)
    {P : Wire.StateMessage → Prop} (hP : ∀ k, ∀ m ∈ messages k, P m) : l.Grown l' P := by
  refine ⟨fun k c hc => ⟨c.feed (messages k), by rw [h.connection k, hc]; rfl, c.feed_writer _⟩, ?_⟩
  intro k c' hc' m hm
  rw [h.connection k] at hc'
  obtain ⟨c, hc, rfl⟩ := Option.map_eq_some_iff.mp hc'
  rw [Connection.feed_queue] at hm
  rcases List.mem_append.mp hm with hm | hm
  · exact Or.inl ⟨c, hc, hm⟩
  · split at hm
    next => exact Or.inr (hP k m hm)
    next => cases hm

section

variable {m : RuleModel} {P : Wire.StateMessage → Prop}

theorem detach_spec (l : Link) (hf : m.observers.Fresh) :
    (l.detach m).1 = { l with observer := none } ∧ ∃ observers : Observers,
      observers.Fresh ∧ (l.detach m).2 = { m with observers } := by
  unfold detach
  split
  next ho => exact ⟨by rw [← ho], m.observers, hf, rfl⟩
  next id ho => exact ⟨rfl, _, Observers.unsubscribe_fresh hf id, rfl⟩

theorem publish_state (l : Link) (s : LinkState) : (l.publish s).state = s := by
  unfold publish
  split
  next h => exact h
  next => rfl

theorem publish_fields (l : Link) (s : LinkState) : (l.publish s).connections = l.connections ∧
    (l.publish s).current = l.current ∧ (l.publish s).observer = l.observer := by
  unfold publish
  split <;> exact ⟨rfl, rfl, rfl⟩

/-- What the runtime reports changes nothing that is sent to it. -/
theorem read_line_fields (l : Link) (k : Nat) (text : String) :
    (l.read k (.line text)).connections = l.connections ∧
      (l.read k (.line text)).state = l.state ∧ (l.read k (.line text)).current = l.current ∧
      (l.read k (.line text)).observer = l.observer := by
  have receive : ∀ m, (l.receive m).connections = l.connections ∧ (l.receive m).state = l.state ∧
      (l.receive m).current = l.current ∧ (l.receive m).observer = l.observer := fun m => by
    unfold Link.receive
    split <;> exact ⟨rfl, rfl, rfl, rfl⟩
  unfold Link.read
  split
  next => exact ⟨rfl, rfl, rfl, rfl⟩
  next =>
    split
    next => exact ⟨rfl, rfl, rfl, rfl⟩
    next =>
      dsimp only
      split
      next => exact ⟨rfl, rfl, rfl, rfl⟩
      next =>
        split
        next m _ => exact receive m
        next => exact ⟨rfl, rfl, rfl, rfl⟩

theorem close_connection (l : Link) (k : Nat) : l.close.connections[k]? =
    if l.current = some k then l.connections[k]?.map Connection.close else l.connections[k]? := by
  unfold close
  rw [(publish_fields _ _).1]
  cases hc : l.current with
  | none => simp
  | some j => simp only [update_connection, Option.some.injEq]

theorem close_fields (l : Link) :
    l.close.state = .disconnected ∧ l.close.current = none ∧ l.close.observer = none := by
  obtain ⟨_, hcurrent, hobserver⟩ := publish_fields (l := _) .disconnected
  exact ⟨publish_state _ _, hcurrent, hobserver⟩

theorem close_sound (h : l.Sound) : l.close.Sound ∧ l.Grown l.close P := by
  obtain ⟨hstate, hcurrent, _⟩ := close_fields l
  have closed : ∀ {c : Connection}, c.Sound → c.close.Sound := fun hc =>
    ⟨by simp [Connection.close], fun _ => rfl, hc.queue_stopped⟩
  refine ⟨⟨?_, ?_, ?_, ?_⟩, ⟨?_, ?_⟩⟩
  · intro k c hc
    rw [close_connection] at hc
    split at hc
    next =>
      obtain ⟨c₀, h₀, rfl⟩ := Option.map_eq_some_iff.mp hc
      exact closed (h.connection k c₀ h₀)
    next => exact h.connection k c hc
  · rw [hstate, hcurrent]
    rfl
  · intro k hk
    rw [hcurrent] at hk
    cases hk
  · intro k c hc _
    rw [close_connection] at hc
    split at hc
    next =>
      obtain ⟨c₀, _, rfl⟩ := Option.map_eq_some_iff.mp hc
      rfl
    next hne => exact h.others_closing k c hc hne
  · intro k c hc
    rw [close_connection, hc]
    split
    next => exact ⟨c.close, rfl, rfl⟩
    next => exact ⟨c, rfl, rfl⟩
  · intro k c' hc' m hm
    rw [close_connection] at hc'
    split at hc'
    next =>
      obtain ⟨c₀, h₀, rfl⟩ := Option.map_eq_some_iff.mp hc'
      exact Or.inl ⟨c₀, h₀, hm⟩
    next => exact Or.inl ⟨c', hc', hm⟩

/-- A new connection, when none is open. -/
theorem open_sound (h : l.Sound) (hc : l.current = none) {addr : String}
    (hconnections : l'.connections = l.connections ++ [Connection.fresh addr])
    (hcurrent : l'.current = some l.connections.length) (hstate : l'.state = .connected) :
    l'.Sound ∧ l.Grown l' P := by
  have cases_ : ∀ (k : Nat) c, l'.connections[k]? = some c → l.connections[k]? = some c ∨
      k = l.connections.length ∧ c = Connection.fresh addr := by
    intro k c hk
    rw [hconnections, List.getElem?_append] at hk
    split at hk
    next => exact Or.inl hk
    next hlt =>
      obtain ⟨hzero, hfresh⟩ : k - l.connections.length = 0 ∧ Connection.fresh addr = c := by
        have := (List.getElem?_eq_some_iff.mp hk).1
        have hzero : k - l.connections.length = 0 := by simpa using this
        rw [hzero] at hk
        exact ⟨hzero, by simpa using hk⟩
      exact Or.inr ⟨by omega, hfresh.symm⟩
  have kept : ∀ (k : Nat) c, l.connections[k]? = some c → l'.connections[k]? = some c := by
    intro k c hk
    rw [hconnections, List.getElem?_append_left (List.getElem?_eq_some_iff.mp hk).1]
    exact hk
  have hsound : (Connection.fresh addr).Sound :=
    ⟨fun _ => Or.inl rfl, by simp [Connection.fresh], by simp [Connection.fresh]⟩
  refine ⟨⟨?_, ?_, ?_, ?_⟩, ⟨fun k c hk => ⟨c, kept k c hk, rfl⟩, ?_⟩⟩
  · intro k c hk
    rcases cases_ k c hk with hk | ⟨_, rfl⟩
    · exact h.connection k c hk
    · exact hsound
  · rw [hstate, hcurrent]
    rfl
  · intro k hk
    rw [hcurrent] at hk
    obtain rfl : l.connections.length = k := Option.some.inj hk
    exact ⟨Connection.fresh addr, by rw [hconnections]; simp, rfl, by rw [hconnections]; simp⟩
  · intro k c hk hne
    rcases cases_ k c hk with hk | ⟨rfl, _⟩
    · exact h.others_closing k c hk (by simp [hc])
    · exact absurd hcurrent hne
  · intro k c hk m hm
    rcases cases_ k c hk with hk | ⟨_, rfl⟩
    · exact Or.inl ⟨c, hk, hm⟩
    · cases hm

/-- Attaching without a connection only detaches; with one, the whole table is queued on it and
every rule is watched. -/
theorem attach_spec (h : l.Sound) (hm : m.Consistent) (hf : m.observers.Fresh) :
    (l.current = none ∧ (l.attach m).1 = (l.detach m).1 ∧ (l.attach m).2.1 = (l.detach m).2) ∨
    ∃ k id l₁, l.current = some k ∧
      ({ l with observer := none } : Link).Fed l₁ (fun j => if j = k then m.table else []) ∧
      (l.attach m).1 = { l₁ with observer := some id } ∧
      ∃ observers : Observers, observers.Fresh ∧ (l.attach m).2.1 = { m with observers } ∧
        (l.attach m).2.1.Watched id k := by
  obtain ⟨hlink, observers, hfresh, hmodel⟩ := detach_spec l hf
  unfold attach
  rw [show l.detach m = ({ l with observer := none }, { m with observers }) from
    Prod.ext hlink hmodel]
  dsimp only
  split
  next hc => exact Or.inl ⟨hc, rfl, rfl⟩
  next k hc =>
    obtain ⟨c, hk, hclosing, _⟩ := h.current_last k hc
    let detached : RuleModel := { m with observers }
    obtain ⟨l₁, hsend, hfed⟩ := sendAll_fed (l := { l with observer := none }) hc hk
      ((h.connection k c hk).accepts hclosing) (RuleModel.table_selectable hm)
    have hsend' : ({ l with observer := none } : Link).sendAll
        (detached.ruleStates.map fun r => ⟨r.1, r.2⟩) = (l₁, none) := hsend
    rw [show ({ m with observers } : RuleModel) = detached from rfl, hsend']
    exact Or.inr ⟨k, (detached.subscribeRules (.connection k)).2, l₁, hc, hfed, rfl, _,
      Observers.subscribe_fresh hfresh (.connection k) m.tree.ruleNodes, rfl,
      RuleModel.subscribeRules_watched (m := detached) hm.wellFormed.sound hfresh k⟩

end

end Link

end RuleScope
