import RuleScope.Proofs.Link.Client
import RuleScope.Proofs.Link.MirrorRuns
import RuleScope.Proofs.Link.Writing

namespace RuleScope

namespace Link

variable {l l' l'' : Link} {m : RuleModel} {given : Nat → Prop}

/-- A connection, as a new one where there is none yet. -/
def connectionAt (l : Link) (k : Nat) : Connection := l.connections[k]?.getD (.fresh "")

theorem connectionAt_eq {k : Nat} {c : Connection} (h : l.connections[k]? = some c) :
    l.connectionAt k = c := by
  rw [connectionAt, h]
  rfl

theorem connectionAt_congr {k : Nat} (h : l'.connections[k]? = l.connections[k]?) :
    l'.connectionAt k = l.connectionAt k := by
  rw [connectionAt, connectionAt, h]

/-- A connection that is being closed exists. -/
theorem exists_of_closing {k : Nat} (h : (l.connectionAt k).closing = true) :
    ∃ c, l.connections[k]? = some c ∧ l.connectionAt k = c := by
  cases hc : l.connections[k]? with
  | none =>
    rw [connectionAt, hc] at h
    cases h
  | some c => exact ⟨c, rfl, connectionAt_eq hc⟩

theorem Steady.current_ne (h : l.Steady) {k : Nat} (hc : (l.connectionAt k).closing = true) :
    l.current ≠ some k := by
  intro hk
  obtain ⟨c, hconnection, hat⟩ := exists_of_closing hc
  have hopen := h.current k hk
  rw [hconnection, Option.map_some, Option.some.injEq, ← hat, hc] at hopen
  cases hopen

/-- The writers have done nothing between `l` and `l'`, and nothing was queued but on connections that
are `given` something. -/
structure Extended (l l' : Link) (given : Nat → Prop) : Prop where
  gains : ∀ k, (l.connectionAt k).Gains (l'.connectionAt k)
  queue_eq : ∀ k, ¬ given k → (l'.connectionAt k).queue = (l.connectionAt k).queue

theorem Extended.trans (h : l.Extended l' given) (h' : l'.Extended l'' given) :
    l.Extended l'' given :=
  ⟨fun k => (h.gains k).trans (h'.gains k),
    fun k hk => (h'.queue_eq k hk).trans (h.queue_eq k hk)⟩

theorem Extended.mono (h : l.Extended l' given) {more : Nat → Prop} (hm : ∀ k, given k → more k) :
    l.Extended l' more :=
  ⟨h.gains, fun k hk => h.queue_eq k fun hg => hk (hm k hg)⟩

/-- Connection by connection: nothing has happened to it, or it has gained something. -/
theorem extended_of_each (h : ∀ k, l'.connectionAt k = l.connectionAt k ∨
    (l.connectionAt k).Gains (l'.connectionAt k) ∧
      (given k ∨ (l'.connectionAt k).queue = (l.connectionAt k).queue)) : l.Extended l' given := by
  refine ⟨fun k => ?_, fun k hk => ?_⟩
  · rcases h k with he | ⟨hgains, -⟩
    · exact he ▸ .refl _
    · exact hgains
  · rcases h k with he | ⟨-, hqueue⟩
    · rw [he]
    · exact hqueue.resolve_left hk

theorem extended_of_connections (h : l'.connections = l.connections) : l.Extended l' given :=
  extended_of_each fun k => .inl (connectionAt_congr (by rw [h]))

theorem Fed.extended {messages : Nat → List Wire.StateMessage} (h : l.Fed l' messages)
    (hm : ∀ k, ¬ given k → messages k = []) : l.Extended l' given := by
  refine extended_of_each fun k => ?_
  unfold connectionAt
  rw [h.connection k]
  cases l.connections[k]? with
  | none => exact .inl rfl
  | some c =>
    refine .inr ⟨c.gains_feed (messages k), ?_⟩
    by_cases hk : given k
    · exact .inl hk
    · right
      rw [hm k hk]
      exact congrArg Connection.queue c.feed_nil

theorem close_extended (l : Link) : l.Extended l.close given := by
  refine extended_of_each fun k => ?_
  unfold connectionAt
  rw [close_connection]
  split
  next =>
    cases l.connections[k]? with
    | none => exact .inl rfl
    | some c => exact .inr ⟨c.gains_close, .inr rfl⟩
  next => exact .inl rfl

theorem disconnect_extended (l : Link) (m : RuleModel) : l.Extended (l.disconnect m).1 given := by
  have hdetached : l.Extended (l.detach m).1 given := by
    rw [detach_link]
    exact extended_of_connections rfl
  exact hdetached.trans (close_extended _)

theorem publish_extended (l : Link) (s : LinkState) : l.Extended (l.publish s) given :=
  extended_of_connections (l.publish_fields s).1

theorem stored_extended (l : Link) (addr : String) : l.Extended (l.stored addr) given := by
  refine extended_of_each fun k => ?_
  by_cases hk : k = l.connections.length
  · subst hk
    have hbefore : l.connectionAt l.connections.length = .fresh "" := by
      rw [connectionAt, List.getElem?_eq_none (Nat.le_refl _)]
      rfl
    have hafter : (l.stored addr).connectionAt l.connections.length = .fresh addr :=
      connectionAt_eq (by rw [stored_connection, if_pos rfl])
    rw [hbefore, hafter]
    exact .inr ⟨⟨rfl, List.prefix_refl _, fun _ => rfl, by simp [Connection.fresh]⟩, .inr rfl⟩
  · exact .inl (connectionAt_congr (by rw [stored_connection, if_neg hk]))

theorem silence_extended (l : Link) (k : Nat) :
    l.Extended (l.update k fun c => { c with reading := false }) given := by
  refine extended_of_each fun j => ?_
  unfold connectionAt
  rw [update_connection]
  split
  next =>
    cases l.connections[j]? with
    | none => exact .inl rfl
    | some c => exact .inr ⟨c.gains_silenced, .inr rfl⟩
  next => exact .inl rfl

theorem read_extended (l : Link) (k : Nat) (e : ReaderEvent) : l.Extended (l.read k e) given := by
  cases e with
  | line text => exact extended_of_connections (l.read_line_fields k text).1
  | ended =>
    unfold read
    split
    next => exact extended_of_connections rfl
    next =>
      split
      next => exact extended_of_connections rfl
      next => exact (silence_extended l k).trans (publish_extended _ _)

/-- A step of a writer is one of its own connection and leaves the others alone. -/
theorem connectionAt_write {j : Nat} {e : WriterEvent} (h : l.task? (.write j e) = some l') :
    ∃ c effect, (l.connectionAt j).step? e = some (c, effect) ∧
      ∀ k, l'.connectionAt k = if j = k then c else l.connectionAt k := by
  obtain ⟨c, c', effect, hc, hstep, hl⟩ := task?_write h
  have hconnections : l'.connections = (l.update j fun _ => c').connections := by
    rw [hl]
    split
    next => exact (publish_fields _ _).1
    next => rfl
  refine ⟨c', effect, by rw [connectionAt_eq hc, hstep], fun k => ?_⟩
  rw [connectionAt, hconnections, update_eq_some hc]
  split
  next => rfl
  next => rfl

/-- What is left when a client is dropped: its connection is asked to close, and its tasks go on. -/
def abandoned (l : Link) : Link :=
  { (match l.current with
      | some k => l.update k Connection.cancel
      | none => l) with
    current := none
    observer := none }

theorem abandoned_connection (l : Link) (k : Nat) : l.abandoned.connections[k]? =
    if l.current = some k then l.connections[k]?.map Connection.cancel else l.connections[k]? := by
  unfold abandoned
  dsimp only
  split
  next j hj => simp only [update_connection, hj, Option.some.injEq]
  next hnone => simp [hnone]

theorem abandoned_extended (l : Link) : l.Extended l.abandoned given := by
  refine extended_of_each fun k => ?_
  unfold connectionAt
  rw [abandoned_connection]
  split
  next =>
    cases l.connections[k]? with
    | none => exact .inl rfl
    | some c => exact .inr ⟨c.gains_cancel, .inr rfl⟩
  next => exact .inl rfl

end Link

namespace Client

/-- What can happen to a client: one of its moves, or its end. -/
inductive Event where
  | move (mv : Move)
  /-- The client is dropped. -/
  | dropped
  /-- The reader of a connection notices that it has been asked to stop. -/
  | noticed (k : Nat)

/-- A step of the writer of a connection. -/
@[match_pattern]
abbrev Event.write (k : Nat) (e : WriterEvent) : Event := .move (.task (.write k e))

/-- Whether an event closes the connection that is open. -/
def Event.closes : Event → Bool
  | .dropped | .move (.operation (.connect _ _)) | .move (.operation (.disconnect _))
  | .move (.operation .close) => true
  | _ => false

/-- Whether an event is a step of the writer of a connection. -/
def Event.writesOn (k : Nat) : Event → Bool
  | .write j _ => j = k
  | _ => false

/-- What a connection is told of changes. -/
def Event.told (k : Nat) : Event → List Wire.StateMessage
  | .move (.forward m notices) => Link.told m k notices
  | _ => []

theorem forward_or_told_eq_nil (e : Event) (k : Nat) :
    (∃ m notices, e = .move (.forward m notices)) ∨ e.told k = [] := by
  unfold Event.told
  split
  next m notices => exact .inl ⟨m, notices, rfl⟩
  next => exact .inr rfl

/-- One event, if it can happen. A client that is dropped is not in the midst of an operation, save for
the wait for an answer. -/
def follow? (s : Client) : Event → Option Client
  | .move mv => s.step? mv
  | .dropped =>
    match s.stage with
    | .idle | .dialing _ => some { s with link := s.link.abandoned, stage := .gone }
    | _ => none
  | .noticed k =>
    if s.link.connections[k]?.any (fun c => c.closing && c.reading) then
      some { s with link := s.link.update k fun c => { c with reading := false } }
    else none

/-- What an event does to the socket of a connection. -/
def output (s : Client) (k : Nat) : Event → List Output
  | .write j e =>
    if j = k then
      match (s.link.connectionAt k).step? e with
      | some (_, effect) => Output.ofEffect effect
      | none => []
    else []
  | _ => []

/-- A client in order, or one that was dropped and has no connection open. -/
def Lasting (s : Client) : Prop := s.Sound ∨ s.stage = .gone ∧ s.link.current = none

variable {s s' : Client} {e : Event} {k : Nat}

theorem Lasting.step (h : s.Lasting) {mv : Move} (hs : s.step? mv = some s') : s'.Lasting := by
  rcases h with h | ⟨hgone, hnone⟩
  · exact .inl (h.step hs)
  · -- Only the tasks and the models that are still followed go on.
    cases stepped_of_step? hs with
    | begun _ hstage | answered _ hstage | published hstage | pushed hstage =>
      rw [hgone] at hstage
      cases hstage
    | worked htask => exact .inr ⟨hgone, (Link.worked_of_task? htask).current_eq.trans hnone⟩
    | forwarded m notices =>
      exact .inr ⟨hgone, (Link.forward_fed m s.link notices).current_eq.trans hnone⟩

theorem Lasting.follow (h : s.Lasting) (hs : s.follow? e = some s') : s'.Lasting := by
  cases e with
  | move mv => exact h.step hs
  | dropped =>
    simp only [follow?] at hs
    split at hs
    next => cases hs; exact .inr ⟨rfl, rfl⟩
    next => cases hs; exact .inr ⟨rfl, rfl⟩
    next => cases hs
  | noticed k =>
    obtain ⟨hasked, hs⟩ := Option.ite_none_right_eq_some.mp hs
    cases hs
    refine h.imp_left fun h => ?_
    -- Closing a connection otherwise stops its reader at once.
    obtain ⟨c, hc, hstill⟩ := (Option.any_eq_true _ _).mp hasked
    obtain ⟨hclosing, hreading⟩ := Bool.and_eq_true_iff.mp hstill
    rw [h.steady.silent k c hc hclosing] at hreading
    cases hreading

theorem Lasting.current_ne (h : s.Lasting) (hc : (s.link.connectionAt k).closing = true) :
    s.link.current ≠ some k := by
  rcases h with h | ⟨-, hnone⟩
  · exact h.steady.current_ne hc
  · simp [hnone]

theorem send_extended {l l' : Link} {message : Wire.StateMessage} (hsend : l.send message = .ok l') :
    l.Extended l' fun k => l.current = some k := by
  obtain ⟨messages, hfed, hmessages⟩ := Link.exists_fed_send hsend
  exact hfed.extended hmessages

/-- An operation gives messages to the open connection, if to any. -/
theorem begun_extended (s : Client) (o : Operation) :
    s.link.Extended (s.begun o).link fun k => s.link.current = some k := by
  have attaching : ∀ {l : Link} {m : RuleModel}, l.connections = s.link.connections →
      s.link.Extended (beginAttach l m).link fun k => s.link.current = some k := fun hl =>
    Link.extended_of_connections (by rw [beginAttach_link, hl])
  cases o with
  | connect addr m => exact (s.link.disconnect_extended m).trans (Link.publish_extended _ _)
  | attach m => exact attaching rfl
  | replaced m =>
    unfold begun
    dsimp only
    split
    next => exact attaching rfl
    next => exact Link.extended_of_connections rfl
  | detach m =>
    refine Link.extended_of_connections ?_
    rw [begun, ended, Link.detach_link]
  | disconnect m => exact s.link.disconnect_extended m
  | close => exact s.link.close_extended
  | send message =>
    unfold begun
    dsimp only
    split
    next hsend => exact send_extended hsend
    next => exact Link.extended_of_connections rfl

theorem pushed_extended (s : Client) (k : Nat) (states : List Wire.StateMessage) :
    s.link.Extended (s.pushed k states).link fun j => s.link.current = some j := by
  cases states with
  | nil => exact Link.extended_of_connections rfl
  | cons message rest =>
    rw [pushed]
    split
    next hsend => exact send_extended hsend
    next => exact Link.extended_of_connections rfl

/-- An event that is no writer's only adds to queues, and opens and closes connections. It adds to the
queue of the open connection, and to those that are told of changes. -/
theorem extended_of_follow? (hs : s.follow? e = some s') (he : ∀ k w, e ≠ .write k w) :
    s.link.Extended s'.link fun k => s.link.current = some k ∨ e.told k ≠ [] := by
  cases e with
  | move mv =>
    cases stepped_of_step? hs with
    | begun o => exact (s.begun_extended o).mono fun k => .inl
    | answered dial =>
      cases dial with
      | accepted => exact Link.stored_extended _ _
      | refused | invalid | silent => exact Link.publish_extended _ _
    | published =>
      rw [beginAttach_link]
      exact (s.link.publish_extended .connected).trans (Link.extended_of_connections rfl)
    | pushed => exact (s.pushed_extended _ _).mono fun k => .inl
    | @worked t link htask =>
      cases t with
      | read k r =>
        obtain ⟨-, rfl⟩ := Link.task?_read htask
        exact s.link.read_extended k r
      | write k w => exact absurd rfl (he k w)
    | forwarded m notices =>
      refine (Link.forward_fed m s.link notices).extended fun k hk => ?_
      by_contra htold
      exact hk (.inr htold)
  | dropped =>
    simp only [follow?] at hs
    split at hs
    next => cases hs; exact s.link.abandoned_extended
    next => cases hs; exact s.link.abandoned_extended
    next => cases hs
  | noticed k =>
    obtain ⟨-, hs⟩ := Option.ite_none_right_eq_some.mp hs
    cases hs
    exact s.link.silence_extended k

/-- The open connection is closed, and nothing is queued on it. -/
theorem closed_of_follow? (h : s.Lasting) (hk : s.link.current = some k) (he : e.closes = true)
    (hs : s.follow? e = some s') : (s'.link.connectionAt k).closing = true ∧
      (s'.link.connectionAt k).queue = (s.link.connectionAt k).queue := by
  have hsound : s.Sound := h.resolve_right fun ⟨_, hnone⟩ => by simp [hnone] at hk
  obtain ⟨c, hc, -⟩ := Option.map_eq_some_iff.mp (hsound.steady.current k hk)
  have closed : ∀ {c' : Connection}, s'.link.connections[k]? = some c' → c'.closing = true →
      c'.queue = c.queue → (s'.link.connectionAt k).closing = true ∧
        (s'.link.connectionAt k).queue = (s.link.connectionAt k).queue := by
    intro c' hc' hclosing hqueue
    rw [Link.connectionAt_eq hc, Link.connectionAt_eq hc']
    exact ⟨hclosing, hqueue⟩
  -- All operations that close come down to closing the link, perhaps after it has been detached.
  have operated : ∀ observer, s'.link.connections =
      ({ s.link with observer } : Link).close.connections → s'.link.connections[k]? = some c.close := by
    intro observer hl
    rw [hl, Link.close_connection, if_pos hk, hc]
    rfl
  unfold Event.closes at he
  split at he
  next =>
    have hlink : s'.link = s.link.abandoned := by
      simp only [follow?] at hs
      split at hs
      next => cases hs; rfl
      next => cases hs; rfl
      next => cases hs
    have hcancel : s'.link.connections[k]? = some c.cancel := by
      rw [hlink, Link.abandoned_connection, if_pos hk, hc]
      rfl
    exact closed hcancel rfl rfl
  next addr m =>
    rw [follow?] at hs
    cases stepped_of_step? hs
    refine closed (operated none ?_) rfl rfl
    rw [← Link.detach_link s.link m]
    exact (Link.publish_fields _ _).1
  next m =>
    rw [follow?] at hs
    cases stepped_of_step? hs
    refine closed (operated none ?_) rfl rfl
    rw [← Link.detach_link s.link m]
    rfl
  next =>
    rw [follow?] at hs
    cases stepped_of_step? hs
    exact closed (operated s.link.observer rfl) rfl rfl
  next => cases he

end Client

/-- A client and its books: what has been queued on each connection so far, and what its writer has
done to the socket. -/
structure Ledger where
  client : Client
  queued : Nat → List Wire.StateMessage
  socket : Nat → List Output

namespace Ledger

open Client (Event)

def start (timeout : Nat) : Ledger := ⟨.start timeout, fun _ => [], fun _ => []⟩

def connection (h : Ledger) (k : Nat) : Connection := h.client.link.connectionAt k

/-- One event, if it can happen. What it puts behind a queue is entered as queued. -/
def step? (h : Ledger) (e : Event) : Option Ledger :=
  (h.client.follow? e).map fun s =>
    { client := s
      queued := fun k =>
        h.queued k ++ (s.link.connectionAt k).queue.drop (h.connection k).queue.length
      socket := fun k => h.socket k ++ h.client.output k e }

def run? (h : Ledger) (events : List Event) : Option Ledger := events.foldlM step? h

variable {h h' h'' : Ledger} {k : Nat} {e : Event}

theorem step?_client (hs : h.step? e = some h') : h.client.follow? e = some h'.client := by
  obtain ⟨s, hfollow, rfl⟩ := Option.map_eq_some_iff.mp hs
  exact hfollow

theorem step?_queued (hs : h.step? e = some h') (k : Nat) : h'.queued k =
    h.queued k ++ (h'.connection k).queue.drop (h.connection k).queue.length := by
  obtain ⟨s, -, rfl⟩ := Option.map_eq_some_iff.mp hs
  rfl

theorem step?_socket (hs : h.step? e = some h') (k : Nat) :
    h'.socket k = h.socket k ++ h.client.output k e := by
  obtain ⟨s, -, rfl⟩ := Option.map_eq_some_iff.mp hs
  rfl

/-- What an event is for one connection: a step of its writer, or something that leaves the writer
alone. -/
theorem step?_cases (hs : h.step? e = some h') (k : Nat) :
    (∃ w effect, e = .write k w ∧ (h.connection k).step? w = some (h'.connection k, effect) ∧
      h'.queued k = h.queued k ∧ h'.socket k = h.socket k ++ Output.ofEffect effect) ∨
    (e.writesOn k = false ∧ (h.connection k).Gains (h'.connection k) ∧ h'.socket k = h.socket k ∧
      (h.client.link.current ≠ some k → e.told k = [] → h'.queued k = h.queued k)) := by
  have hfollow := step?_client hs
  have hsocket := step?_socket hs k
  have unchanged : (h'.connection k).queue.length ≤ (h.connection k).queue.length →
      h'.queued k = h.queued k := by
    intro hle
    rw [step?_queued hs, List.drop_eq_nil_of_le hle, List.append_nil]
  by_cases he : ∃ j w, e = .write j w
  · obtain ⟨j, w, rfl⟩ := he
    obtain ⟨link, hlink, hclient⟩ := Option.map_eq_some_iff.mp hfollow
    obtain ⟨c, effect, hstep, hat⟩ := Link.connectionAt_write hlink
    have hafter : h'.connection k = if j = k then c else h.connection k := by
      rw [connection, ← hclient]
      exact hat k
    by_cases hj : j = k
    · subst hj
      rw [if_pos rfl] at hafter
      have hqueue := (Connection.stepped_of_step? hstep).queue_length_le
      refine .inl ⟨w, effect, rfl, by rw [hafter]; exact hstep, unchanged (by rwa [hafter]), ?_⟩
      rw [hsocket]
      simp only [Client.output, hstep, if_true]
    · -- The writer of another connection leaves this one as it is.
      rw [if_neg hj] at hafter
      refine .inr ⟨decide_eq_false hj, hafter ▸ .refl _, ?_,
        fun _ _ => unchanged (hafter ▸ Nat.le_refl _)⟩
      rw [hsocket]
      simp only [Client.output, if_neg hj, List.append_nil]
  · have hno : ∀ j w, e ≠ .write j w := fun j w hw => he ⟨j, w, hw⟩
    have hextended := Client.extended_of_follow? hfollow hno
    refine .inr ⟨?_, hextended.gains k, ?_, fun hk htold => unchanged (Nat.le_of_eq ?_)⟩
    · unfold Event.writesOn
      split
      next j w => exact absurd rfl (hno j w)
      next => rfl
    · rw [hsocket]
      unfold Client.output
      split
      next j w => exact absurd rfl (hno j w)
      next => exact List.append_nil _
    · exact congrArg List.length (hextended.queue_eq k (not_or.mpr ⟨hk, not_not_intro htold⟩))

/-- The books of a connection agree with its state. -/
structure Kept (h : Ledger) (k : Nat) : Prop where
  lasting : h.client.Lasting
  balanced : (h.connection k).Balanced (h.queued k) (h.socket k)

theorem start_kept (timeout k : Nat) : (start timeout).Kept k :=
  ⟨.inl (Client.start_sound timeout), Connection.balanced_fresh ""⟩

theorem Kept.step (hkept : h.Kept k) (he : e ≠ .write k .failed) (hs : h.step? e = some h') :
    h'.Kept k := by
  refine ⟨hkept.lasting.follow (step?_client hs), ?_⟩
  obtain ⟨w, effect, rfl, hstep, hqueued, hsocket⟩ | ⟨-, hgains, hsocket, -⟩ := step?_cases hs k
  · rw [hqueued, hsocket]
    exact hkept.balanced.step (fun hw => he (hw ▸ rfl)) hstep
  · rw [step?_queued hs, hsocket]
    exact hkept.balanced.gains hgains

theorem Kept.run (hkept : h.Kept k) {events : List Event} (he : .write k .failed ∉ events)
    (hs : h.run? events = some h') : h'.Kept k := by
  induction events generalizing h with
  | nil =>
    cases hs
    exact hkept
  | cons e rest ih =>
    obtain ⟨h₁, hstep, hrest⟩ := Option.bind_eq_some_iff.mp hs
    obtain ⟨hne, hnot⟩ := not_or.mp (mt List.mem_cons.mpr he)
    exact ih (hkept.step (Ne.symm hne) hstep) hnot hrest

/-- A closed connection is given what it is told of changes, and nothing else, until its writer has
stopped. -/
theorem queued_of_closing (hl : h.client.Lasting) (hc : (h.connection k).closing = true)
    (hs : h.step? e = some h') : h'.queued k =
      h.queued k ++ if (h.connection k).writer = .stopped then [] else e.told k := by
  rcases Client.forward_or_told_eq_nil e k with ⟨m, notices, rfl⟩ | htold
  · obtain ⟨c, hlookup, hat⟩ := Link.exists_of_closing hc
    have hlink : h'.client.link = h.client.link.forward m notices :=
      congrArg Client.link (Option.some.inj (step?_client hs)).symm
    have hfed := Link.forward_fed m h.client.link notices
    have hbefore : h.connection k = c := hat
    have hafter : h'.connection k = c.feed (Link.told m k notices) :=
      Link.connectionAt_eq (by rw [hlink, hfed.connection k, hlookup, Option.map_some])
    rw [step?_queued hs, hbefore, hafter, Connection.feed_queue, List.drop_left]
    by_cases hw : c.writer = .stopped <;> simp [Connection.accepts, hw, Event.told]
  · rw [htold, ite_self, List.append_nil]
    obtain ⟨w, effect, -, -, hqueued, -⟩ | ⟨-, -, -, hqueued⟩ := step?_cases hs k
    · exact hqueued
    · exact hqueued (hl.current_ne hc) htold

/-- From `h` to `h'`, while `steps` steps of the writer of a closed connection were taken, the connection
was `told` of changes, and `late` was queued. -/
structure Onward (h h' : Ledger) (k steps : Nat) (told late : List Wire.StateMessage) : Prop where
  queued_eq : h'.queued k = h.queued k ++ late
  closing : (h'.connection k).closing = true
  stopped : (h.connection k).writer = .stopped → (h'.connection k).writer = .stopped ∧ late = []
  late_prefix : late <+: told
  late_eq : (h'.connection k).writer ≠ .stopped → late = told
  work_le : steps + (h'.connection k).work ≤ (h.connection k).work + 2 * late.length

theorem Onward.trans {steps steps' : Nat} {told told' late late' : List Wire.StateMessage}
    (hs : h.Onward h' k steps told late) (hs' : h'.Onward h'' k steps' told' late') :
    h.Onward h'' k (steps + steps') (told ++ told') (late ++ late') where
  queued_eq := by rw [hs'.queued_eq, hs.queued_eq, List.append_assoc]
  closing := hs'.closing
  stopped hw := by
    obtain ⟨hw', hlate⟩ := hs.stopped hw
    obtain ⟨hw'', hlate'⟩ := hs'.stopped hw'
    exact ⟨hw'', by rw [hlate, hlate']; rfl⟩
  late_prefix := by
    by_cases hw : (h'.connection k).writer = .stopped
    · rw [(hs'.stopped hw).2, List.append_nil]
      exact hs.late_prefix.trans (List.prefix_append _ _)
    · rw [hs.late_eq hw]
      exact (List.prefix_append_right_inj told).mpr hs'.late_prefix
  late_eq hw := by
    have hw' : (h'.connection k).writer ≠ .stopped := fun hw' => hw (hs'.stopped hw').1
    rw [hs.late_eq hw', hs'.late_eq hw]
  work_le := by
    have hwork := hs.work_le
    have hwork' := hs'.work_le
    rw [List.length_append]
    omega

theorem exists_onward_step (hl : h.client.Lasting) (hc : (h.connection k).closing = true)
    (hs : h.step? e = some h') :
    ∃ late, h.Onward h' k (if e.writesOn k then 1 else 0) (e.told k) late := by
  have hqueued := queued_of_closing hl hc hs
  obtain ⟨w, effect, rfl, hstep, hsame, -⟩ | ⟨he, hgains, -, -⟩ := step?_cases hs k
  · -- A step of the writer itself is told nothing.
    have hstepped := Connection.stepped_of_step? hstep
    have hends := (Connection.step?_spec hstep).1
    have hwork := hstepped.work_lt
    refine ⟨[], by rw [hsame, List.append_nil], (congrArg Prod.fst hends).trans hc,
      fun hw => absurd hw hstepped.running, List.nil_prefix, fun _ => rfl, ?_⟩
    simp only [Event.writesOn, decide_true, if_true, List.length_nil]
    omega
  · have hlate : (h'.connection k).queue.drop (h.connection k).queue.length =
        if (h.connection k).writer = .stopped then [] else e.told k :=
      List.append_cancel_left ((step?_queued hs k).symm.trans hqueued)
    refine ⟨_, hqueued, hgains.closing hc,
      fun hw => ⟨hgains.writer_eq.trans hw, if_pos hw⟩, ?_, fun hw => ?_, ?_⟩
    · split
      next => exact List.nil_prefix
      next => exact List.prefix_refl _
    · rw [hgains.writer_eq] at hw
      exact if_neg hw
    · rw [hgains.work_eq, he, hlate]
      simp

theorem exists_onward_run (hl : h.client.Lasting) (hc : (h.connection k).closing = true)
    {events : List Event} (hs : h.run? events = some h') :
    ∃ late, h.Onward h' k (events.countP (Event.writesOn k)) (events.flatMap (Event.told k)) late := by
  induction events generalizing h with
  | nil =>
    cases hs
    exact ⟨[], (List.append_nil _).symm, hc, fun hw => ⟨hw, rfl⟩, List.prefix_refl _, fun _ => rfl,
      by simp⟩
  | cons e rest ih =>
    obtain ⟨h₁, hstep, hrest⟩ := Option.bind_eq_some_iff.mp hs
    obtain ⟨late, honward⟩ := exists_onward_step hl hc hstep
    obtain ⟨more, hmore⟩ := ih (hl.follow (step?_client hstep)) honward.closing hrest
    refine ⟨late ++ more, ?_⟩
    rw [List.countP_cons, Nat.add_comm, List.flatMap_cons]
    exact honward.trans hmore

/-- The writer of a connection that is closed can take a step until it has stopped. -/
theorem exists_step?_write (hc : (h.connection k).closing = true)
    (hw : (h.connection k).writer ≠ .stopped) :
    ∃ w, w ≠ .failed ∧ (h.step? (.write k w)).isSome = true := by
  obtain ⟨c, hlookup, hat⟩ := Link.exists_of_closing hc
  obtain ⟨w, hfails, hstep⟩ := Connection.exists_step?_of_closing hc hw
  rw [connection, hat] at hstep
  obtain ⟨⟨c', effect⟩, hstep⟩ := Option.isSome_iff_exists.mp hstep
  obtain ⟨l', htask, -⟩ := Link.exists_task?_of_step? hlookup hstep
  refine ⟨w, hfails, ?_⟩
  rw [step?, Option.isSome_map, Client.follow?, Client.step?, Option.isSome_map, htask]
  rfl

/-- The states that the open connection is given before it is closed, at any point of the progress of its
writer, are all written, in the order of the queue, if no write fails: what the writer does to the
socket is to write the bytes of their lines, each with a line feed, and then to shut it down. But it
also writes those of states that the connection is told of after the close, by a model that it still
followed. Unless there are none of these, the socket has more than what was queued before the close.
Until the writer stops the first of these bytes have been written; it can take a step, and it takes
only so many. From the lines all states can be read but derived ones, which have no line. -/
theorem closed_connection_flushes (timeout : Nat) {before after : List Event} {h₀ h₁ h₂ : Ledger}
    (hbefore : (start timeout).run? before = some h₀) (hk : h₀.client.link.current = some k)
    (he : e.closes = true) (hclose : h₀.step? e = some h₁) (hafter : h₁.run? after = some h₂)
    (hwrites : .write k .failed ∉ before ++ after) :
    let bytes := fun messages : List Wire.StateMessage =>
      ((messages.filterMap Wire.line?).flatMap fun line => line.toUTF8.data.toList ++ [10]).map
        Output.byte
    ∃ late, h₂.queued k = h₀.queued k ++ late ∧ late <+: after.flatMap (Event.told k) ∧
      ((h₂.connection k).writer = .stopped →
        h₂.socket k = bytes (h₀.queued k ++ late) ++ [.shutdown] ∧
        (h₂.socket k = bytes (h₀.queued k) ++ [.shutdown] ↔ late.filterMap Wire.line? = [])) ∧
      ((h₂.connection k).writer ≠ .stopped → late = after.flatMap (Event.told k) ∧
        h₂.socket k <+: bytes (h₀.queued k ++ late) ∧
        ∃ w, w ≠ .failed ∧ (h₂.step? (.write k w)).isSome = true) ∧
      after.countP (Event.writesOn k) ≤
        2 * ((h₀.connection k).queue.length + late.length) + 3 ∧
      ((h₀.queued k ++ late).filterMap Wire.line?).filterMap Mirror.pushed? =
        (h₀.queued k ++ late).filter fun message => !message.state.isDerived := by
  intro bytes
  have hbytes : ∀ messages, Output.ofLines (messages.filterMap Wire.line?) = bytes messages :=
    fun _ => rfl
  -- The books agree before the close and ever after; the close itself queues nothing.
  have hkept₀ := (start_kept timeout k).run (fun hm => hwrites (List.mem_append_left _ hm)) hbefore
  obtain ⟨hclosing₁, hqueue₁⟩ :=
    Client.closed_of_follow? hkept₀.lasting hk he (step?_client hclose)
  have hnotFailed : e ≠ .write k .failed := by
    rintro rfl
    cases he
  have hkept₁ := hkept₀.step hnotFailed hclose
  have hlength : (h₁.connection k).queue.length = (h₀.connection k).queue.length :=
    congrArg List.length hqueue₁
  have hqueued₁ : h₁.queued k = h₀.queued k := by
    rw [step?_queued hclose, List.drop_eq_nil_of_le (Nat.le_of_eq hlength), List.append_nil]
  have hkept₂ := hkept₁.run (fun hm => hwrites (List.mem_append_right _ hm)) hafter
  obtain ⟨late, honward⟩ := exists_onward_run hkept₁.lasting hclosing₁ hafter
  have hqueued₂ : h₂.queued k = h₀.queued k ++ late := by rw [honward.queued_eq, hqueued₁]
  have hbalanced := hkept₂.balanced
  rw [hqueued₂] at hbalanced
  refine ⟨late, hqueued₂, honward.late_prefix, fun hw => ?_, fun hw => ?_, ?_,
    Wire.filterMap_pushed?_line? _⟩
  · have hsocket := hbalanced.stopped hw
    refine ⟨hsocket, ?_⟩
    rw [hsocket, ← hbytes, List.append_left_inj, List.filterMap_append, Output.ofLines_append,
      List.append_right_eq_self, Output.ofLines_eq_nil_iff]
  · exact ⟨honward.late_eq hw, hbalanced.running hw, exists_step?_write honward.closing hw⟩
  · have hwork := honward.work_le
    have hbound := (h₁.connection k).work_le
    omega

/-- The debugger attaches a model to a runtime, and the first of its states is being written. -/
def midwayEvents (m : RuleModel) : List Event :=
  [.move (.operation (.connect "127.0.0.1:7777" m)), .move (.answer .accepted), .move .publish,
    .move .push, .move .push, .write 0 .take]

/-- The writer goes on to its end. -/
def remainingEvents : List Event :=
  [.write 0 .sent, .write 0 .turn, .noticed 0, .write 0 .take, .write 0 .sent, .write 0 .finish]

theorem exists_late_run : ∃ m h₀ h₁ u h₂,
    RuleModel.build (AbsPath.lexical AbsPath.root) "/src" Mirror.rateLocation = .ok m ∧
    (start 5000).run? (midwayEvents m) = some h₀ ∧ h₀.step? .dropped = some h₁ ∧
    h₁.client.model.setRuleState ⟨8, by decide, by decide⟩ .always = .ok u ∧
    h₁.run? (.move (.forward u.model u.notices) :: remainingEvents) = some h₂ ∧
    h₀.client.link.current = some 0 ∧ (h₂.connection 0).writer = .stopped ∧
    (h₀.queued 0).filterMap Wire.line? =
      ["\x7b\"method\":\"setLoggingState\",\"params\":[8,0]\x7d"] ∧
    (h₂.queued 0).filterMap Wire.line? =
      ["\x7b\"method\":\"setLoggingState\",\"params\":[8,0]\x7d",
        "\x7b\"method\":\"setLoggingState\",\"params\":[8,3]\x7d"] ∧
    (h₂.socket 0).length = 89 := by
  have seen : ((RuleModel.build (AbsPath.lexical AbsPath.root) "/src" Mirror.rateLocation).toOption.bind
      fun m => ((start 5000).run? (midwayEvents m)).bind fun h₀ => (h₀.step? .dropped).bind fun h₁ =>
        (h₁.client.model.setRuleState ⟨8, by decide, by decide⟩ .always).toOption.bind fun u =>
          (h₁.run? (.move (.forward u.model u.notices) :: remainingEvents)).map fun h₂ =>
            decide (h₀.client.link.current = some 0 ∧ (h₂.connection 0).writer = .stopped ∧
              (h₀.queued 0).filterMap Wire.line? =
                ["\x7b\"method\":\"setLoggingState\",\"params\":[8,0]\x7d"] ∧
              (h₂.queued 0).filterMap Wire.line? =
                ["\x7b\"method\":\"setLoggingState\",\"params\":[8,0]\x7d",
                  "\x7b\"method\":\"setLoggingState\",\"params\":[8,3]\x7d"] ∧
              (h₂.socket 0).length = 89)) = some true := by
    decide +kernel
  obtain ⟨m, hm, seen⟩ := Option.bind_eq_some_iff.mp seen
  obtain ⟨h₀, hbefore, seen⟩ := Option.bind_eq_some_iff.mp seen
  obtain ⟨h₁, hclose, seen⟩ := Option.bind_eq_some_iff.mp seen
  obtain ⟨u, hu, seen⟩ := Option.bind_eq_some_iff.mp seen
  obtain ⟨h₂, hafter, hfacts⟩ := Option.map_eq_some_iff.mp seen
  exact ⟨m, h₀, h₁, u, h₂, eq_ok_of_toOption hm, hbefore, hclose, eq_ok_of_toOption hu, hafter,
    of_decide_eq_true hfacts⟩

/-- The client is dropped in the midst of a line, and then a rule of the model is set: the line is
written to its end, and the new state of the rule after it. -/
theorem dropped_midway_flushes : ∃ m h₀ h₁ u h₂,
    RuleModel.build (AbsPath.lexical AbsPath.root) "/src" Mirror.rateLocation = .ok m ∧
    (start 5000).run? (midwayEvents m) = some h₀ ∧ h₀.step? .dropped = some h₁ ∧
    h₁.client.model.setRuleState ⟨8, by decide, by decide⟩ .always = .ok u ∧
    h₁.run? (.move (.forward u.model u.notices) :: remainingEvents) = some h₂ ∧
    h₂.socket 0 =
      ("\x7b\"method\":\"setLoggingState\",\"params\":[8,0]\x7d\n" ++
        "\x7b\"method\":\"setLoggingState\",\"params\":[8,3]\x7d\n").toUTF8.data.toList.map
        Output.byte ++ [.shutdown] := by
  obtain ⟨m, h₀, h₁, u, h₂, hm, hbefore, hclose, hu, hafter, hcurrent, hstopped, -, hlines, -⟩ :=
    exists_late_run
  have hwrites : Event.write 0 .failed ∉
      midwayEvents m ++ .move (.forward u.model u.notices) :: remainingEvents := by
    simp [midwayEvents, remainingEvents]
  obtain ⟨late, hqueued, -, hsocket, -⟩ :=
    closed_connection_flushes 5000 hbefore hcurrent rfl hclose hafter hwrites
  refine ⟨m, h₀, h₁, u, h₂, hm, hbefore, hclose, hu, hafter, ?_⟩
  rw [(hsocket hstopped).1, ← hqueued]
  beta_reduce
  rw [hlines]
  decide +kernel

/-- After a change of a model that the client followed before it was closed or dropped, the socket may
have more than what was queued before. -/
theorem not_closed_connection_writes_earlier_only :
    ¬ ∀ timeout before k e h₀ h₁ rule state u after h₂,
      (start timeout).run? before = some h₀ → h₀.client.link.current = some k →
      e.closes = true → h₀.step? e = some h₁ →
      h₁.client.model.setRuleState rule state = .ok u →
      h₁.run? (.move (.forward u.model u.notices) :: after) = some h₂ →
      .write k .failed ∉ before ++ after → (h₂.connection k).writer = .stopped →
      h₂.socket k = (((h₀.queued k).filterMap Wire.line?).flatMap fun line =>
        line.toUTF8.data.toList ++ [10]).map Output.byte ++ [.shutdown] := by
  intro earlierOnly
  obtain ⟨m, h₀, h₁, u, h₂, -, hbefore, hclose, hu, hafter, hcurrent, hstopped, hlines, -, hlength⟩ :=
    exists_late_run
  have hwrites : Event.write 0 .failed ∉ midwayEvents m ++ remainingEvents := by
    simp [midwayEvents, remainingEvents]
  have hsocket := earlierOnly 5000 _ 0 .dropped h₀ h₁ _ _ u remainingEvents h₂ hbefore hcurrent rfl
    hclose hu hafter hwrites hstopped
  rw [hlines] at hsocket
  rw [hsocket] at hlength
  revert hlength
  decide +kernel

end Ledger

end RuleScope
