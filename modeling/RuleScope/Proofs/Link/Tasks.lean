import RuleScope.Proofs.Link.Following
import RuleScope.Proofs.Wire.Silence

namespace RuleScope

namespace Connection

/-- Whether a connection is being closed, and whether its reader runs. -/
def ends (c : Connection) : Bool × Bool := (c.closing, c.reading)

theorem feed_ends (c : Connection) (messages : List Wire.StateMessage) :
    (c.feed messages).ends = c.ends := by
  rw [ends, ends, feed_closing, feed_reading]

theorem take?_ends {c c' : Connection} {busy : String → Writer} (h : c.take? busy = some c') :
    c'.ends = c.ends := by
  unfold take? at h
  split at h
  next => cases h
  next =>
    split at h
    next =>
      cases h
      rfl
    next =>
      cases h
      rfl

/-- A step of a writer opens or closes nothing. Only a line that cannot be written while the connection
is not flushed counts as its loss. -/
theorem step?_spec {c c' : Connection} {e : WriterEvent} {effect : WriterEffect}
    (h : c.step? e = some (c', effect)) :
    c'.ends = c.ends ∧ (effect = .lost ↔ e = .failed ∧ ∃ line, c.writer = .writing line) := by
  have taken : ∀ {busy : String → Writer},
      (c.take? busy).map (·, WriterEffect.nothing) = some (c', effect) →
      c'.ends = c.ends ∧ effect ≠ .lost := by
    intro busy ht
    obtain ⟨c₁, htake, he⟩ := Option.map_eq_some_iff.mp ht
    cases he
    exact ⟨take?_ends htake, nofun⟩
  cases e with
  | take =>
    have quiet : c'.ends = c.ends ∧ effect ≠ .lost := by
      simp only [step?] at h
      split at h
      next => exact taken h
      next => exact taken h
      next => cases h
    exact ⟨quiet.1, iff_of_false quiet.2 (by simp)⟩
  | sent =>
    simp only [step?] at h
    split at h
    next =>
      cases h
      exact ⟨rfl, by simp⟩
    next =>
      cases h
      exact ⟨rfl, by simp⟩
    next => cases h
  | failed =>
    simp only [step?] at h
    split at h
    next line hw =>
      cases h
      exact ⟨rfl, by simp [hw]⟩
    next line hw =>
      cases h
      exact ⟨rfl, by simp [hw]⟩
    next => cases h
  | turn =>
    simp only [step?] at h
    split at h
    next =>
      cases h
      exact ⟨rfl, by simp⟩
    next => cases h
  | finish =>
    simp only [step?] at h
    split at h
    next =>
      cases h
      exact ⟨rfl, by simp⟩
    next => cases h

end Connection

namespace Link

/-- A step of a task: of the reader or of the writer of a connection. -/
inductive Task where
  | read (k : Nat) (e : ReaderEvent)
  | write (k : Nat) (e : WriterEvent)
  deriving DecidableEq, Repr

/-- The connection that a task belongs to. -/
def Task.connection : Task → Nat
  | .read k _ => k
  | .write k _ => k

/-- A step of a task, if it can be taken. A reader that has stopped takes none. -/
def task? (l : Link) : Task → Option Link
  | .read k e =>
    match l.connections[k]? with
    | some c => if c.reading then some (l.read k e) else none
    | none => none
  | .write k e => (l.writerStep? k e).map Prod.fst

/-- The start of an attempt to connect, up to the wait for an answer. -/
def dial (l : Link) (m : RuleModel) : Link × RuleModel :=
  let (l, m) := l.disconnect m
  (l.publish .connecting, m)

/-- A link whose new connection is the open one; its tasks run. -/
def stored (l : Link) (addr : String) : Link :=
  { l with
    current := some l.connections.length
    connections := l.connections ++ [Connection.fresh addr] }

/-- A link with a new connection that it counts as connected by. -/
def opened (l : Link) (addr : String) : Link := (l.stored addr).publish .connected

variable {l l' l'' : Link} {m : RuleModel}

theorem task?_read {k : Nat} {e : ReaderEvent} (h : l.task? (.read k e) = some l') :
    (∃ c, l.connections[k]? = some c ∧ c.reading = true) ∧ l' = l.read k e := by
  simp only [task?] at h
  split at h
  next c hc =>
    split at h
    next hreading =>
      cases h
      exact ⟨⟨c, hc, hreading⟩, rfl⟩
    next => cases h
  next => cases h

theorem task?_write {k : Nat} {e : WriterEvent} (h : l.task? (.write k e) = some l') :
    ∃ c c' effect, l.connections[k]? = some c ∧ c.step? e = some (c', effect) ∧
      l' = if effect = .lost then (l.update k fun _ => c').publish .disconnected
        else l.update k fun _ => c' := by
  obtain ⟨⟨l₁, line⟩, hstep, rfl⟩ := Option.map_eq_some_iff.mp h
  unfold writerStep? at hstep
  obtain ⟨c, hc, hstep⟩ := Option.bind_eq_some_iff.mp hstep
  obtain ⟨⟨c', effect⟩, heffect, hstep⟩ := Option.bind_eq_some_iff.mp hstep
  refine ⟨c, c', effect, hc, heffect, ?_⟩
  cases effect <;> cases hstep <;> rfl

theorem exists_task?_of_step? {k : Nat} {c c' : Connection} {e : WriterEvent} {effect : WriterEffect}
    (hc : l.connections[k]? = some c) (hs : c.step? e = some (c', effect)) :
    ∃ l', l.task? (.write k e) = some l' ∧ l'.connections[k]? = some c' := by
  have htask : l.task? (.write k e) = some (if effect = .lost then
      (l.update k fun _ => c').publish .disconnected else l.update k fun _ => c') := by
    simp only [task?, writerStep?, hc, hs, Option.bind_eq_bind, Option.bind_some]
    cases effect <;> rfl
  refine ⟨_, htask, ?_⟩
  split
  next => rw [(publish_fields _ _).1, update_eq_some hc, if_pos rfl]
  next => rw [update_eq_some hc, if_pos rfl]

theorem update_ends {k : Nat} {c c' : Connection} (hc : l.connections[k]? = some c)
    (he : c'.ends = c.ends) (j : Nat) :
    (l.update k fun _ => c').connections[j]?.map Connection.ends =
      l.connections[j]?.map Connection.ends := by
  rw [update_eq_some hc]
  split
  next hj =>
    subst hj
    rw [hc, Option.map_some, Option.map_some, he]
  next => rfl

/-- What the tasks make of a link. They open and close nothing, and the only state they publish is that
it is disconnected. While it is not, every reader goes on; a reader that has stopped stays so. -/
structure Worked (l l' : Link) : Prop where
  current_eq : l'.current = l.current
  observer_eq : l'.observer = l.observer
  length_eq : l'.connections.length = l.connections.length
  state : l'.state = l.state ∨ l'.state = .disconnected
  closing_eq : ∀ k : Nat, l'.connections[k]?.map Connection.closing =
    l.connections[k]?.map Connection.closing
  stopped : ∀ k : Nat, l.connections[k]?.map Connection.reading = some false →
    l'.connections[k]?.map Connection.reading = some false
  reading : l'.state ≠ .disconnected → ∀ k : Nat, l'.connections[k]?.map Connection.ends =
    l.connections[k]?.map Connection.ends

theorem closing_of_ends (h : ∀ k : Nat, l'.connections[k]?.map Connection.ends =
    l.connections[k]?.map Connection.ends) (k : Nat) :
    l'.connections[k]?.map Connection.closing = l.connections[k]?.map Connection.closing := by
  have := congrArg (Option.map Prod.fst) (h k)
  simpa only [Option.map_map, Function.comp_def, Connection.ends] using this

theorem reading_of_ends (h : ∀ k : Nat, l'.connections[k]?.map Connection.ends =
    l.connections[k]?.map Connection.ends) (k : Nat) :
    l'.connections[k]?.map Connection.reading = l.connections[k]?.map Connection.reading := by
  have := congrArg (Option.map Prod.snd) (h k)
  simpa only [Option.map_map, Function.comp_def, Connection.ends] using this

theorem length_eq_of_ends (h : ∀ k : Nat, l'.connections[k]?.map Connection.ends =
    l.connections[k]?.map Connection.ends) : l'.connections.length = l.connections.length :=
  length_eq_of_none_iff fun k => by
    rw [← Option.map_eq_none_iff (f := Connection.ends), h k, Option.map_eq_none_iff]

theorem worked_of_ends (hcurrent : l'.current = l.current) (hobserver : l'.observer = l.observer)
    (hstate : l'.state = l.state) (hends : ∀ k : Nat, l'.connections[k]?.map Connection.ends =
      l.connections[k]?.map Connection.ends) : l.Worked l' :=
  ⟨hcurrent, hobserver, length_eq_of_ends hends, .inl hstate, closing_of_ends hends,
    fun k hk => (reading_of_ends hends k).trans hk, fun _ => hends⟩

theorem Worked.publish (h : l.Worked l') : l.Worked (l'.publish .disconnected) := by
  obtain ⟨hconnections, hcurrent, hobserver⟩ := l'.publish_fields .disconnected
  refine ⟨hcurrent.trans h.current_eq, hobserver.trans h.observer_eq,
    by rw [hconnections, h.length_eq], .inr (publish_state _ _), fun k => ?_, fun k hk => ?_,
    fun hne => absurd (publish_state _ _) hne⟩
  · rw [hconnections]
    exact h.closing_eq k
  · rw [hconnections]
    exact h.stopped k hk

theorem read_silent {text : String} (h : Wire.SaysNothing text) (l : Link) (k : Nat) :
    l.read k (.line text) = l := by
  have hnone := Wire.saysNothing_iff.mp h
  unfold Wire.message? at hnone
  unfold read
  split
  next => rfl
  next =>
    split
    next => rfl
    next =>
      dsimp only
      split
      next => rfl
      next =>
        split
        next m hm =>
          rw [hm] at hnone
          cases hnone
        next => rfl

/-- The reader hands on what a line says, if anything. -/
theorem read_line {k : Nat} (hk : l.connections[k]?.map Connection.reading = some true)
    (hl : l.listening = true) (text : String) :
    l.read k (.line text) = { l with inbound := l.inbound ++ (Wire.message? text).toList } := by
  obtain ⟨c, hc, hreading⟩ := Option.map_eq_some_iff.mp hk
  cases hm : Wire.message? text with
  | none =>
    rw [read_silent (Wire.saysNothing_iff.mpr hm), Option.toList_none, List.append_nil]
  | some m =>
    have hblank : Text.isBlankLine text.toList ≠ true := fun hb => by
      rw [Wire.saysNothing_iff.mp (.inl hb)] at hm
      cases hm
    have hdecode : Wire.decode text = .ok (some m) := by
      unfold Wire.message? at hm
      split at hm
      next hd => rw [hd, hm]
      next => cases hm
    simp [read, hc, hreading, hblank, hdecode, receive, hl]

theorem read_ended {k : Nat} {c : Connection} (hc : l.connections[k]? = some c)
    (hreading : c.reading = true) : l.read k .ended =
      (l.update k fun c => { c with reading := false }).publish .disconnected := by
  simp [read, hc, hreading]

/-- A reader that meets the end of the stream stops, and publishes it. -/
theorem worked_read_ended {k : Nat} {c : Connection} (hc : l.connections[k]? = some c)
    (hreading : c.reading = true) : l.Worked (l.read k .ended) := by
  obtain ⟨hconnections, hcurrent, hobserver⟩ :=
    (l.update k fun c => { c with reading := false }).publish_fields .disconnected
  have hstate := publish_state (l.update k fun c => { c with reading := false }) .disconnected
  rw [read_ended hc hreading]
  refine ⟨hcurrent, hobserver, ?_, .inr hstate, fun j => ?_, fun j hj => ?_,
    fun hne => absurd hstate hne⟩
  · rw [hconnections, update, List.length_modify]
  · rw [hconnections, update_connection]
    split
    next => rw [Option.map_map]; rfl
    next => rfl
  · rw [hconnections, update_connection]
    split
    next hkj =>
      subst hkj
      rw [hc]
      rfl
    next => exact hj

theorem worked_of_task? {t : Task} (h : l.task? t = some l') : l.Worked l' := by
  cases t with
  | read k e =>
    obtain ⟨⟨c, hc, hreading⟩, rfl⟩ := task?_read h
    cases e with
    | line text =>
      obtain ⟨hconnections, hstate, hcurrent, hobserver⟩ := l.read_line_fields k text
      exact worked_of_ends hcurrent hobserver hstate fun j => by rw [hconnections]
    | ended => exact worked_read_ended hc hreading
  | write k e =>
    obtain ⟨c, c', effect, hc, hstep, rfl⟩ := task?_write h
    have hworked : l.Worked (l.update k fun _ => c') :=
      worked_of_ends rfl rfl rfl (update_ends hc (Connection.step?_spec hstep).1)
    split
    next => exact hworked.publish
    next => exact hworked

/-- Which steps of tasks publish something. -/
theorem task?_state_ne_iff {t : Task} (h : l.task? t = some l') :
    l'.state ≠ l.state ↔ l.state ≠ .disconnected ∧
      (t = .read t.connection .ended ∨ t = .write t.connection .failed ∧
        ∃ c line, l.connections[t.connection]? = some c ∧ c.writer = .writing line) := by
  cases t with
  | read k e =>
    obtain ⟨⟨c, hc, hreading⟩, rfl⟩ := task?_read h
    cases e with
    | line text =>
      have hstate := (l.read_line_fields k text).2.1
      simp [hstate, Task.connection]
    | ended =>
      rw [read_ended hc hreading, publish_state, ne_comm]
      simp [Task.connection]
  | write k e =>
    obtain ⟨c, c', effect, hc, hstep, rfl⟩ := task?_write h
    have hlost := (Connection.step?_spec hstep).2
    have hfailed : (Task.write k e = .write k .failed ∧
        ∃ c line, l.connections[k]? = some c ∧ c.writer = .writing line) ↔ effect = .lost := by
      rw [hlost]
      constructor
      · rintro ⟨he, d, line, hd, hw⟩
        cases he
        obtain rfl : c = d := Option.some.inj (hc.symm.trans hd)
        exact ⟨rfl, line, hw⟩
      · rintro ⟨rfl, line, hw⟩
        exact ⟨rfl, c, line, hc, hw⟩
    simp only [Task.connection, reduceCtorEq, false_or, hfailed]
    split
    next he =>
      rw [publish_state, ne_comm]
      simp [he]
    next he => exact iff_of_false (fun hne => hne rfl) fun hand => he hand.2

/-- Sending gives messages to no connection but the open one. -/
theorem exists_fed_send {message : Wire.StateMessage} (h : l.send message = .ok l') :
    ∃ given, l.Fed l' given ∧ ∀ j, l.current ≠ some j → given j = [] := by
  unfold send at h
  split at h
  next => cases h
  next k hk =>
    split at h
    next => cases h
    next =>
      split at h
      next =>
        split at h
        next =>
          cases h
          refine ⟨_, enqueue_fed l k message, fun j hj => if_neg ?_⟩
          rintro rfl
          exact hj hk
        next => cases h
      next => cases h

/-- Sending any number of states only gives messages to the open connection. -/
theorem exists_fed_sendAll (l : Link) (messages : List Wire.StateMessage) :
    ∃ given, l.Fed (l.sendAll messages).1 given ∧ ∀ j, l.current ≠ some j → given j = [] := by
  induction messages generalizing l with
  | nil => exact ⟨_, .refl l, fun _ _ => rfl⟩
  | cons message rest ih =>
    unfold sendAll
    split
    next l₁ hsend =>
      obtain ⟨given, hfed, hgiven⟩ := exists_fed_send hsend
      obtain ⟨more, hrest, hmore⟩ := ih l₁
      refine ⟨_, hfed.trans hrest, fun j hj => ?_⟩
      rw [hgiven j hj, hmore j (hfed.current_eq ▸ hj)]
      rfl
    next => exact ⟨_, .refl l, fun _ _ => rfl⟩

theorem detach_link (l : Link) (m : RuleModel) : (l.detach m).1 = { l with observer := none } := by
  unfold detach
  split
  next ho => rw [← ho]
  next => rfl

/-- Attaching gives messages to the open connection. It fails and leaves the model without the observer, or it
remembers one that the open connection has subscribed. -/
theorem attach_outcome (l : Link) (m : RuleModel) :
    ∃ l₁ given, ({ l with observer := none } : Link).Fed l₁ given ∧
      (∀ j, l.current ≠ some j → given j = []) ∧
      ((l.attach m).2.2.isSome = true ∧ (l.attach m).1 = l₁ ∧ (l.attach m).2.1 = (l.detach m).2 ∨
      ∃ k, l.current = some k ∧ (l.attach m).2.2 = none ∧
        (l.attach m).2.1 = ((l.detach m).2.subscribeRules (.connection k)).1 ∧
        (l.attach m).1 =
          { l₁ with observer := some ((l.detach m).2.subscribeRules (.connection k)).2 }) := by
  have hdetach := detach_link l m
  unfold attach
  dsimp only
  split
  next =>
    refine ⟨(l.detach m).1, fun _ => [], ?_, fun _ _ => rfl, .inl ⟨rfl, rfl, rfl⟩⟩
    rw [hdetach]
    exact .refl _
  next k hk =>
    obtain ⟨given, hfed, hgiven⟩ := exists_fed_sendAll (l.detach m).1
      ((l.detach m).2.ruleStates.map fun r => ⟨r.1, r.2⟩)
    rw [hdetach] at hk hgiven
    split
    next l₁ e hsend =>
      rw [hsend, hdetach] at hfed
      exact ⟨l₁, given, hfed, hgiven, .inl ⟨rfl, rfl, rfl⟩⟩
    next l₁ hsend =>
      rw [hsend, hdetach] at hfed
      exact ⟨l₁, given, hfed, hgiven, .inr ⟨k, hk, rfl, rfl, rfl⟩⟩

end Link

end RuleScope
