import RuleScope.Proofs.Link.Client

namespace RuleScope

namespace Client

variable {s s' : Client} {m : RuleModel} {l : Link}

/-- The link does not count as connected, and no attempt to connect is under way. -/
structure Quiet (s : Client) : Prop where
  state : s.link.state ≠ .connected
  dialing : ∀ addr, s.stage ≠ .dialing addr
  opened : s.stage ≠ .opened

theorem ended_quiet {fault : Option LinkFault} (h : l.state ≠ .connected) :
    (ended l m fault).Quiet := ⟨h, by simp [ended], by simp [ended]⟩

theorem beginAttach_quiet (h : l.state ≠ .connected) : (beginAttach l m).Quiet := by
  rcases beginAttach_cases l m with ⟨-, he⟩ | ⟨k, -, he⟩
  · rw [he]
    exact ended_quiet h
  · rw [he]
    exact ⟨h, by simp, by simp⟩

theorem send_state {message : Wire.StateMessage} {link : Link} (hsend : l.send message = .ok link) :
    link.state = l.state := by
  obtain ⟨given, hfed, -⟩ := Link.exists_fed_send hsend
  exact hfed.state_eq

theorem Quiet.begun (h : s.Quiet) {o : Operation} (ho : ∀ addr m, o ≠ .connect addr m) :
    (s.begun o).Quiet := by
  cases o with
  | connect addr m => exact absurd rfl (ho addr m)
  | attach m => exact beginAttach_quiet h.state
  | replaced m =>
    unfold Client.begun
    dsimp only
    split
    next => exact beginAttach_quiet h.state
    next => exact ended_quiet h.state
  | detach m =>
    refine ended_quiet ?_
    rw [Link.detach_link]
    exact h.state
  | disconnect m =>
    refine ended_quiet ?_
    rw [Link.disconnect, (Link.close_fields _).1]
    simp
  | close =>
    refine ended_quiet ?_
    rw [(Link.close_fields _).1]
    simp
  | send message =>
    unfold Client.begun
    dsimp only
    split
    next hsend => exact ended_quiet (send_state hsend ▸ h.state)
    next => exact ended_quiet h.state

theorem Quiet.pushed (h : s.Quiet) (k : Nat) (states : List Wire.StateMessage) :
    (s.pushed k states).Quiet := by
  cases states with
  | nil => exact ended_quiet h.state
  | cons message rest =>
    rw [Client.pushed]
    split
    next hsend => exact ⟨send_state hsend ▸ h.state, by simp, by simp⟩
    next => exact ended_quiet h.state

/-- A link comes to count as connected by an attempt to connect. -/
theorem Quiet.step (h : s.Quiet) {mv : Move} (hs : s.step? mv = some s')
    (hmv : ∀ addr m, mv ≠ .operation (.connect addr m)) : s'.Quiet := by
  cases stepped_of_step? hs with
  | begun o => exact h.begun fun addr m ho => hmv addr m (congrArg _ ho)
  | answered dial hdialing => exact absurd hdialing (h.dialing _)
  | published hopened => exact absurd hopened h.opened
  | pushed => exact h.pushed _ _
  | worked htask =>
    refine ⟨?_, h.dialing, h.opened⟩
    rcases (Link.worked_of_task? htask).state with hstate | hstate
    · exact hstate ▸ h.state
    · simp [hstate]
  | forwarded m notices =>
    exact ⟨(Link.forward_fed m s.link notices).state_eq ▸ h.state, h.dialing, h.opened⟩

theorem Quiet.run (h : s.Quiet) {moves : List Move} (hs : s.run? moves = some s')
    (hmoves : ∀ mv ∈ moves, ∀ addr m, mv ≠ .operation (.connect addr m)) : s'.Quiet := by
  induction moves generalizing s with
  | nil =>
    cases hs
    exact h
  | cons mv rest ih =>
    obtain ⟨s₁, hstep, hrest⟩ := Option.bind_eq_some_iff.mp hs
    exact ih (h.step hstep (hmoves mv List.mem_cons_self)) hrest
      fun mv' hmv' => hmoves mv' (List.mem_cons_of_mem _ hmv')

/-- Whoever has met the end of the stream counts as connected again without a new attempt if and only
if the attempt that opened the connection had not published that it is connected. -/
theorem Sound.connected_after_end_iff (h : s.Sound) {k : Nat} (hk : s.link.current = some k)
    (hs : s.step? (.task (.read k .ended)) = some s') : s'.link.state = .disconnected ∧
      ((∃ more s'', s'.run? more = some s'' ∧
        (∀ mv ∈ more, ∀ addr m, mv ≠ .operation (.connect addr m)) ∧
        s''.link.state = .connected) ↔ s.stage = .opened) := by
  obtain ⟨link, htask, rfl⟩ := Option.map_eq_some_iff.mp hs
  obtain ⟨⟨c, hc, hreading⟩, rfl⟩ := Link.task?_read htask
  have hstate : (s.link.read k .ended).state = .disconnected := by
    rw [Link.read_ended hc hreading, Link.publish_state]
  refine ⟨hstate, fun ⟨more, s'', hrun, hmore, hconnected⟩ => ?_, fun hopened => ?_⟩
  · by_contra hopened
    have hdialing : ∀ addr, s.stage ≠ .dialing addr := fun addr hdialing => by
      have hholds := h.holds
      rw [hdialing, Stage.Holds, hk] at hholds
      cases hholds.1
    have hquiet : ({ s with link := s.link.read k .ended } : Client).Quiet :=
      ⟨by simp [hstate], hdialing, hopened⟩
    exact (hquiet.run hrun hmore).state hconnected
  · -- What is still to come of the attempt is published whatever the reader has met.
    refine ⟨[.publish], _, run?_cons (by rw [step?, hopened]), by simp, ?_⟩
    rw [beginAttach_link]
    exact Link.publish_state _ _

/-- In any interleaving, a step of a task of a closed connection publishes something if and only if a
line that was at hand when the connection was closed cannot be written while the link counts as
connecting or connected; it then publishes that the link is disconnected. When the reader of the open
connection stops, the link counts as disconnected, and it counts as connected again before the next
attempt to connect if and only if the connection was not yet published when its reader stopped. -/
theorem closed_connection_publishes_iff (timeout : Nat) (moves : List Move)
    (hs : (start timeout).run? moves = some s) :
    (∀ t s', s.step? (.task t) = some s' →
      (∃ c, s.link.connections[t.connection]? = some c ∧ c.closing = true) →
      (s'.link.state ≠ s.link.state ↔ s.link.state ≠ .disconnected ∧
        t = .write t.connection .failed ∧ ∃ c line,
          s.link.connections[t.connection]? = some c ∧ c.writer = .writing line) ∧
      (s'.link.state ≠ s.link.state → s'.link.state = .disconnected)) ∧
    (∀ (k : Nat) c, s.link.connections[k]? = some c → s.link.current ≠ some k → c.closing = true) ∧
    (∀ k s', s.link.current = some k → s.step? (.task (.read k .ended)) = some s' →
      s'.link.state = .disconnected ∧
      ((∃ more s'', s'.run? more = some s'' ∧
        (∀ mv ∈ more, ∀ addr m, mv ≠ .operation (.connect addr m)) ∧
        s''.link.state = .connected) ↔ s.stage = .opened)) := by
  have h := (start_sound timeout).run hs
  refine ⟨fun t s' hstep ⟨c, hc, hclosing⟩ => ?_, fun k c hc hk => ?_,
    fun k s' hk hstep => h.connected_after_end_iff hk hstep⟩
  · obtain ⟨link, hlink, rfl⟩ := Option.map_eq_some_iff.mp hstep
    -- A closed connection has no reader that could publish its end.
    have hread : t ≠ .read t.connection .ended := by
      intro ht
      rw [ht] at hlink
      obtain ⟨⟨d, hd, hreading⟩, -⟩ := Link.task?_read hlink
      rw [hc] at hd
      cases hd
      rw [h.steady.silent _ c hc hclosing] at hreading
      cases hreading
    refine ⟨?_, fun hne => (Link.worked_of_task? hlink).state.resolve_left hne⟩
    rw [Link.task?_state_ne_iff hlink]
    exact and_congr_right fun _ => or_iff_right hread
  · have hclosing := h.steady.closing k (List.getElem?_eq_some_iff.mp hc).1 hk
    rw [hc] at hclosing
    exact Option.some.inj hclosing

/-- A state is being written to the runtime when the debugger connects anew. -/
def overtakenMoves : List Move :=
  connectMoves ++ [.operation (.send ⟨⟨3, by decide, by decide⟩, .always⟩), .task (.write 0 .take)] ++
    connectMoves

/-- The connection is stored, and nothing is published yet. -/
def storedMoves : List Move :=
  [.operation (.connect "127.0.0.1:7777" blankModel), .answer .accepted]

theorem exists_overtaken_run : ∃ s s' c line, (start 5000).run? overtakenMoves = some s ∧
    s.step? (.task (.write 0 .failed)) = some s' ∧ s.link.state = .connected ∧
    s'.link.state = .disconnected ∧ s'.link.connection?.map Connection.ends = some (false, true) ∧
    s.link.connections[0]? = some c ∧ c.closing = true ∧ c.writer = .writing line := by
  have seen : (((start 5000).run? overtakenMoves).bind fun s =>
      (s.step? (.task (.write 0 .failed))).bind fun s' => (s.link.connections[0]?).map fun c =>
        decide (s.link.state = .connected ∧ s'.link.state = .disconnected ∧
          s'.link.connection?.map Connection.ends = some (false, true) ∧ c.closing = true ∧
          c.writer matches .writing _)) = some true := by
    decide +kernel
  obtain ⟨s, hs, seen⟩ := Option.bind_eq_some_iff.mp seen
  obtain ⟨s', hs', seen⟩ := Option.bind_eq_some_iff.mp seen
  obtain ⟨c, hc, hfacts⟩ := Option.map_eq_some_iff.mp seen
  obtain ⟨hstate, hstate', hopen, hclosing, hwriter⟩ := of_decide_eq_true hfacts
  split at hwriter
  next line hw => exact ⟨s, s', c, line, hs, hs', hstate, hstate', hopen, hc, hclosing, hw⟩
  next => cases hwriter

theorem exists_stored_run : ∃ s s' s'', (start 5000).run? storedMoves = some s ∧
    s.step? (.task (.read 0 .ended)) = some s' ∧ s'.run? [.publish] = some s'' ∧
    s.link.current = some 0 ∧ s.stage = .opened ∧
    s'.link.connection?.map Connection.ends = some (false, false) ∧
    s''.link.state = .connected := by
  have seen : (((start 5000).run? storedMoves).bind fun s =>
      (s.step? (.task (.read 0 .ended))).bind fun s' => (s'.run? [.publish]).map fun s'' =>
        decide (s.link.current = some 0 ∧ s.stage = .opened ∧
          s'.link.connection?.map Connection.ends = some (false, false) ∧
          s''.link.state = .connected)) = some true := by
    decide +kernel
  obtain ⟨s, hs, seen⟩ := Option.bind_eq_some_iff.mp seen
  obtain ⟨s', hs', seen⟩ := Option.bind_eq_some_iff.mp seen
  obtain ⟨s'', hs'', hfacts⟩ := Option.map_eq_some_iff.mp seen
  exact ⟨s, s', s'', hs, hs', hs'', of_decide_eq_true hfacts⟩

/-- The old connection's write fails: the link that has just been connected counts as disconnected,
though its open connection is being read. And a new connection ends before it is published: the link
comes to count as connected, though nobody reads. -/
theorem overtaken_publishes : (∃ s s', (start 5000).run? overtakenMoves = some s ∧
      s.link.state = .connected ∧ s.step? (.task (.write 0 .failed)) = some s' ∧
      s'.link.state = .disconnected ∧
      s'.link.connection?.map Connection.ends = some (false, true)) ∧
    ∃ s s', (start 5000).run? storedMoves = some s ∧
      s.step? (.task (.read 0 .ended)) = some s' ∧ s'.link.state = .disconnected ∧
      s'.link.connection?.map Connection.ends = some (false, false) ∧
      ∃ more s'', s'.run? more = some s'' ∧
        (∀ mv ∈ more, ∀ addr m, mv ≠ .operation (.connect addr m)) ∧
        s''.link.state = .connected := by
  constructor
  · obtain ⟨s, s', c, line, hs, hs', hstate, -, hopen, hc, hclosing, hw⟩ := exists_overtaken_run
    obtain ⟨hiff, hafter⟩ := (closed_connection_publishes_iff 5000 overtakenMoves hs).1
      (.write 0 .failed) s' hs' ⟨c, hc, hclosing⟩
    have hne := hiff.mpr ⟨by simp [hstate], rfl, c, line, hc, hw⟩
    exact ⟨s, s', hs, hstate, hs', hafter hne, hopen⟩
  · obtain ⟨s, s', -, hs, hs', -, hcurrent, hopened, hends, -⟩ := exists_stored_run
    obtain ⟨hstate, hagain⟩ :=
      (closed_connection_publishes_iff 5000 storedMoves hs).2.2 0 s' hcurrent hs'
    exact ⟨s, s', hs, hs', hstate, hends, hagain.mpr hopened⟩

/-- A task of a closed connection may publish something; and a link may count as connected, without a
new attempt, after the reader of its open connection has stopped. -/
theorem not_closed_connection_keeps_still :
    (¬ ∀ timeout moves s t s', (start timeout).run? moves = some s →
      (∃ c, s.link.connections[t.connection]? = some c ∧ c.closing = true) →
      s.step? (.task t) = some s' → s'.link.state = s.link.state) ∧
    ¬ ∀ timeout moves s k s' more s'', (start timeout).run? moves = some s →
      s.link.current = some k → s.step? (.task (.read k .ended)) = some s' →
      s'.run? more = some s'' → (∀ mv ∈ more, ∀ addr m, mv ≠ .operation (.connect addr m)) →
      s''.link.state ≠ .connected := by
  constructor
  · intro still
    obtain ⟨s, s', c, line, hs, hs', hstate, hstate', -, hc, hclosing, -⟩ := exists_overtaken_run
    have hsame := still 5000 overtakenMoves s (.write 0 .failed) s' hs ⟨c, hc, hclosing⟩ hs'
    rw [hstate, hstate'] at hsame
    cases hsame
  · intro stays
    obtain ⟨s, s', s'', hs, hs', hs'', hcurrent, -, -, hstate⟩ := exists_stored_run
    exact stays 5000 storedMoves s 0 s' [.publish] s'' hs hcurrent hs' hs'' (by simp) hstate

end Client

end RuleScope
