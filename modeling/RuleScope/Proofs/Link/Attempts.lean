import RuleScope.Proofs.Link.Client
import RuleScope.Proofs.Link.Writing

namespace RuleScope

theorem RuleModel.table_length (m : RuleModel) : m.table.length = m.tree.rules.length := by
  simp [table, ruleStates, RuleTree.rulesById]

namespace Link

variable {l l' : Link} {k : Nat} {failed : Prop}

/-- A task leaves the writer and the queue of a connection alone, or takes a step of that writer. -/
theorem task?_connection {t : Task} (h : l.task? t = some l') {c : Connection}
    (hc : l.connections[k]? = some c) : ∃ c', l'.connections[k]? = some c' ∧
      (c'.writer = c.writer ∧ c'.queue = c.queue ∨ ∃ e effect, t = .write k e ∧
        c.Stepped e c' effect ∧ (effect = .lost → l'.state = .disconnected)) := by
  cases t with
  | read j e =>
    obtain ⟨⟨d, hd, hreading⟩, rfl⟩ := task?_read h
    cases e with
    | line text => exact ⟨c, by rw [(l.read_line_fields j text).1, hc], .inl ⟨rfl, rfl⟩⟩
    | ended =>
      rw [read_ended hd hreading, (publish_fields _ _).1, update_connection, hc]
      split
      next => exact ⟨_, rfl, .inl ⟨rfl, rfl⟩⟩
      next => exact ⟨c, rfl, .inl ⟨rfl, rfl⟩⟩
  | write j e =>
    obtain ⟨d, d', effect, hd, hstep, hl⟩ := task?_write h
    have hconnections : l'.connections = (l.update j fun _ => d').connections := by
      rw [hl]
      split
      next => exact (publish_fields _ _).1
      next => rfl
    rw [hconnections, update_eq_some hd, hc]
    by_cases hj : j = k
    · subst hj
      obtain rfl : d = c := Option.some.inj (hd.symm.trans hc)
      refine ⟨d', if_pos rfl, .inr ⟨e, effect, rfl, Connection.stepped_of_step? hstep, ?_⟩⟩
      rintro rfl
      rw [hl, if_pos rfl, publish_state]
    · exact ⟨c, if_neg hj, .inl ⟨rfl, rfl⟩⟩

theorem task?_closing {t : Task} (h : l.task? t = some l') {c c' : Connection}
    (hc : l.connections[k]? = some c) (hc' : l'.connections[k]? = some c') :
    c'.closing = c.closing := by
  have hclosing := (worked_of_task? h).closing_eq k
  rw [hc, hc'] at hclosing
  exact Option.some.inj hclosing

/-- Nothing was ever given to the writer of an open connection. -/
def Unused (l : Link) (k : Nat) : Prop :=
  ∃ c, l.connections[k]? = some c ∧ c.closing = false ∧ c.writer = .idle ∧ c.queue = []

/-- The writer of an open connection has not stopped, unless it has failed; then that is published. -/
def Goes (l : Link) (k : Nat) (failed : Prop) : Prop :=
  ∃ c, l.connections[k]? = some c ∧ c.closing = false ∧
    (c.writer = .idle ∨ (∃ line, c.writer = .writing line) ∨
      c.writer = .stopped ∧ l.state = .disconnected ∧ failed)

theorem stored_unused (l : Link) (addr : String) :
    (l.stored addr).Unused l.connections.length := by
  refine ⟨.fresh addr, ?_, rfl, rfl, rfl⟩
  rw [stored_connection, if_pos rfl]

theorem Unused.publish (h : l.Unused k) (s : LinkState) : (l.publish s).Unused k := by
  unfold Unused
  rwa [(l.publish_fields s).1]

theorem Unused.goes (h : l.Unused k) : l.Goes k failed := by
  obtain ⟨c, hc, hclosing, hwriter, -⟩ := h
  exact ⟨c, hc, hclosing, .inl hwriter⟩

theorem Goes.mono (h : l.Goes k failed) {failed' : Prop} (hf : failed → failed') :
    l.Goes k failed' := by
  obtain ⟨c, hc, hclosing, hwriter⟩ := h
  exact ⟨c, hc, hclosing, hwriter.imp_right (Or.imp_right (And.imp_right (And.imp_right hf)))⟩

theorem Unused.task (h : l.Unused k) {t : Task} (ht : l.task? t = some l') : l'.Unused k := by
  obtain ⟨c, hc, hclosing, hwriter, hqueue⟩ := h
  obtain ⟨c', hc', ⟨hw, hq⟩ | ⟨e, effect, -, hstepped, -⟩⟩ := task?_connection ht hc
  · exact ⟨c', hc', (task?_closing ht hc hc').trans hclosing, hw.trans hwriter, hq.trans hqueue⟩
  · -- A writer without a message can only notice that it is to flush, and it is not.
    cases hstepped <;> simp_all

theorem Goes.task (h : l.Goes k failed) {t : Task} (ht : l.task? t = some l') :
    l'.Goes k (failed ∨ t = .write k .failed) := by
  obtain ⟨c, hc, hclosing, hwriter⟩ := h
  obtain ⟨c', hc', hcases⟩ := task?_connection ht hc
  refine ⟨c', hc', (task?_closing ht hc hc').trans hclosing, ?_⟩
  rcases hcases with ⟨hw, -⟩ | ⟨e, effect, rfl, hstepped, hlost⟩
  · rw [hw]
    refine hwriter.imp_right (Or.imp_right fun ⟨hstopped, hstate, hfailed⟩ => ?_)
    refine ⟨hstopped, ?_, .inl hfailed⟩
    exact (worked_of_task? ht).state.elim (fun hs => hs.trans hstate) id
  · cases hstepped with
    | taken => exact .inr (.inl ⟨_, rfl⟩)
    | takenFlushing hw => simp [hw] at hwriter
    | passed hw =>
      rcases hw with hw | hw
      · exact .inl hw
      · simp [hw] at hwriter
    | sent => exact .inl rfl
    | sentFlushing hw => simp [hw] at hwriter
    | failed => exact .inr (.inr ⟨rfl, hlost rfl, .inr rfl⟩)
    | failedFlushing hw => simp [hw] at hwriter
    | turned _ hc => simp [hc] at hclosing
    | finished hw => simp [hw] at hwriter

/-- A state can be sent to the open connection unless its writer has failed. -/
theorem Goes.send (h : l.Goes k failed) (hk : l.current = some k) {message : Wire.StateMessage}
    (hm : message.state.isDerived = false) :
    (∃ link, l.send message = .ok link ∧ link.Goes k failed) ∨
      l.send message = .error .notConnected ∧ l.state = .disconnected ∧ failed := by
  obtain ⟨c, hc, hclosing, hwriter⟩ := h
  have hsend : l.send message =
      if c.accepts then .ok (l.enqueue k message) else .error .notConnected := by
    simp only [Link.send, hk, hm, hc]
    rfl
  rw [hsend]
  by_cases hstopped : c.writer = .stopped
  · right
    simp_all [Connection.accepts]
  · left
    have haccepts : c.accepts = true := by simp [Connection.accepts, hstopped]
    have hfed := enqueue_fed l k message
    refine ⟨l.enqueue k message, if_pos haccepts, c.feed [message], ?_, ?_, ?_⟩
    · rw [hfed.connection k, hc, if_pos rfl]
      rfl
    · rw [c.feed_closing, hclosing]
    · rw [c.feed_writer, hfed.state_eq]
      exact hwriter

/-- The first state that is queued may be taken and not be written; the second is then refused. -/
theorem Unused.exists_refused (h : l.Unused k) (hk : l.current = some k)
    {first second : Wire.StateMessage} (hfirst : first.state.isDerived = false)
    (hsecond : second.state.isDerived = false) :
    ∃ l₁ l₂ l₃, l.send first = .ok l₁ ∧ l₁.task? (.write k .take) = some l₂ ∧
      l₂.task? (.write k .failed) = some l₃ ∧ l₃.current = some k ∧
      l₃.send second = .error .notConnected := by
  obtain ⟨c, hc, -, hwriter, hqueue⟩ := h
  have haccepts : c.accepts = true := by simp [Connection.accepts, hwriter]
  have hsend : l.send first = .ok (l.enqueue k first) := by
    simp only [send, hk, hfirst, hc, haccepts]
    rfl
  have hfed := enqueue_fed l k first
  have hgiven : (l.enqueue k first).connections[k]? = some { c with queue := [first] } := by
    rw [hfed.connection k, hc, if_pos rfl, Option.map_some, Connection.feed, if_pos haccepts, hqueue]
    rfl
  obtain ⟨line, hencode, -⟩ := Wire.decode_encode_state hfirst
  have htake : Connection.step? { c with queue := [first] } .take =
      some ({ c with queue := [], writer := .writing line }, .nothing) := by
    simp [Connection.step?, hwriter, Connection.take?, hencode]
  obtain ⟨l₂, htaken, hwriting⟩ := exists_task?_of_step? hgiven htake
  obtain ⟨l₃, hfailed, hstopped⟩ := exists_task?_of_step? hwriting (e := .failed) rfl
  have hopen : l₃.current = some k :=
    (worked_of_task? hfailed).current_eq.trans
      ((worked_of_task? htaken).current_eq.trans (hfed.current_eq.trans hk))
  refine ⟨_, l₂, l₃, hsend, htaken, hfailed, hopen, ?_⟩
  simp only [send, hopen, hsecond, hstopped]
  rfl

/-- Disconnected, with no connection open and no observer remembered. -/
structure Down (l : Link) : Prop where
  state : l.state = .disconnected
  peer : l.peer? = none
  attached : l.isAttached = false

theorem peer?_eq_none (h : l.current = none) : l.peer? = none := by
  rw [peer?, connection?, h]
  rfl

theorem isAttached_eq_false (h : l.observer = none) : l.isAttached = false := by
  rw [isAttached, h]
  rfl

theorem Steady.peer?_isSome (h : l.Steady) (hk : l.current = some k) : l.peer?.isSome = true := by
  obtain ⟨c, hc, -⟩ := Option.map_eq_some_iff.mp (h.current k hk)
  rw [peer?, connection?, hk, Option.bind_some, hc]
  rfl

end Link

namespace Client

/-- The moves by which an attempt to connect is carried on, amid the tasks. -/
def Move.carriesOn : Move → Bool
  | .answer _ | .publish | .push | .task _ => true
  | .operation _ | .forward _ _ => false

/-- How far an attempt to connect has come by some moves, and how it has ended. -/
inductive Attempt (moves : List Move) (s : Client) : Prop where
  | waiting {addr} (stage : s.stage = .dialing addr) (model : s.model.Consistent)
      (current : s.link.current = none) (observer : s.link.observer = none)
      (unanswered : .answer .accepted ∉ moves)
  | opened {k} (stage : s.stage = .opened) (model : s.model.Consistent)
      (current : s.link.current = some k) (observer : s.link.observer = none)
      (unused : s.link.Unused k) (accepted : .answer .accepted ∈ moves)
  | pushing {k states} (stage : s.stage = .pushing k states)
      (selectable : ∀ message ∈ states, message.state.isDerived = false)
      (current : s.link.current = some k) (observer : s.link.observer = none)
      (goes : s.link.Goes k (.task (.write k .failed) ∈ moves)) (accepted : .answer .accepted ∈ moves)
      (rules : states.length ≤ s.model.tree.rules.length)
      (begun : s.link.Unused k ∨ states.length < s.model.tree.rules.length)
  | attached (stage : s.stage = .idle) (fault : s.fault = none)
      (attached : s.link.isAttached = true) (accepted : .answer .accepted ∈ moves)
  /-- Nobody has accepted. -/
  | turnedDown {e} (stage : s.stage = .idle) (fault : s.fault = some e) (fault_ne : e ≠ .notConnected)
      (state : s.link.state = .disconnected) (current : s.link.current = none)
      (observer : s.link.observer = none) (unanswered : .answer .accepted ∉ moves)
  /-- A write has failed before all states were queued. -/
  | brokenOff {k} (stage : s.stage = .idle) (fault : s.fault = some .notConnected)
      (state : s.link.state = .disconnected) (current : s.link.current = some k)
      (observer : s.link.observer = none) (accepted : .answer .accepted ∈ moves)
      (failed : .task (.write k .failed) ∈ moves) (rules : 2 ≤ s.model.tree.rules.length)

variable {s s' : Client} {moves : List Move} {m : RuleModel}

theorem begun_attempt (s : Client) (addr : String) (hm : m.Consistent) :
    Attempt [] (s.begun (.connect addr m)) := by
  obtain ⟨-, hcurrent, hobserver⟩ := s.link.dial_fields m
  obtain ⟨observers, hmodel⟩ := s.link.detach_model m
  have hdialed : (s.link.dial m).2 = { m with observers } := hmodel
  refine .waiting rfl ?_ hcurrent hobserver (by simp)
  rw [begun, hdialed]
  exact hm.withObservers observers

theorem Attempt.task (h : Attempt moves s) {t : Link.Task} {link : Link}
    (ht : s.link.task? t = some link) : Attempt (moves ++ [.task t]) { s with link } := by
  have hw := Link.worked_of_task? ht
  have hunanswered : .answer .accepted ∉ moves → .answer .accepted ∉ moves ++ [.task t] := by simp
  have hstate : s.link.state = .disconnected → link.state = .disconnected := fun hs =>
    hw.state.elim (fun he => he.trans hs) id
  cases h with
  | waiting hstage hmodel hcurrent hobserver hno =>
    exact .waiting hstage hmodel (hw.current_eq.trans hcurrent) (hw.observer_eq.trans hobserver)
      (hunanswered hno)
  | opened hstage hmodel hcurrent hobserver hunused haccepted =>
    exact .opened hstage hmodel (hw.current_eq.trans hcurrent) (hw.observer_eq.trans hobserver)
      (hunused.task ht) (List.mem_append_left _ haccepted)
  | pushing hstage hselectable hcurrent hobserver hgoes haccepted hrules hbegun =>
    refine .pushing hstage hselectable (hw.current_eq.trans hcurrent)
      (hw.observer_eq.trans hobserver) ((hgoes.task ht).mono fun hfailed => ?_)
      (List.mem_append_left _ haccepted) hrules (hbegun.imp_left fun hunused => hunused.task ht)
    rcases hfailed with hfailed | rfl
    · exact List.mem_append_left _ hfailed
    · exact List.mem_append_right _ List.mem_cons_self
  | attached hstage hfault hattached haccepted =>
    refine .attached hstage hfault ?_ (List.mem_append_left _ haccepted)
    rw [Link.isAttached, hw.observer_eq]
    exact hattached
  | turnedDown hstage hfault hne hs hcurrent hobserver hno =>
    exact .turnedDown hstage hfault hne (hstate hs) (hw.current_eq.trans hcurrent)
      (hw.observer_eq.trans hobserver) (hunanswered hno)
  | brokenOff hstage hfault hs hcurrent hobserver haccepted hfailed hrules =>
    exact .brokenOff hstage hfault (hstate hs) (hw.current_eq.trans hcurrent)
      (hw.observer_eq.trans hobserver) (List.mem_append_left _ haccepted)
      (List.mem_append_left _ hfailed) hrules

theorem Attempt.answered (h : Attempt moves s) {addr : String} (hdialing : s.stage = .dialing addr)
    (dial : Dial) : Attempt (moves ++ [.answer dial]) (s.answered addr dial) := by
  cases h with
  | waiting hstage hmodel hcurrent hobserver hno =>
    obtain ⟨-, hcurrent', hobserver'⟩ := s.link.publish_fields .disconnected
    have hstate := s.link.publish_state .disconnected
    have hnone := hcurrent'.trans hcurrent
    have hquiet := hobserver'.trans hobserver
    cases dial with
    | accepted => exact .opened rfl hmodel rfl hobserver (s.link.stored_unused addr) (by simp)
    | refused | invalid | silent =>
      exact .turnedDown rfl rfl nofun hstate hnone hquiet (by simp [hno])
  | opened hstage | pushing hstage | attached hstage | turnedDown hstage | brokenOff hstage =>
    rw [hstage] at hdialing
    cases hdialing

theorem Attempt.published (h : Attempt moves s) (hopened : s.stage = .opened) :
    Attempt (moves ++ [.publish]) (beginAttach (s.link.publish .connected) s.model) := by
  cases h with
  | opened hstage hmodel hcurrent hobserver hunused haccepted =>
    obtain ⟨-, hcurrent', -⟩ := s.link.publish_fields .connected
    have hopen := hcurrent'.trans hcurrent
    rcases beginAttach_cases (s.link.publish .connected) s.model with ⟨hnone, -⟩ | ⟨k, hk, he⟩
    · rw [hnone] at hopen
      cases hopen
    · obtain rfl := Option.some.inj (hk.symm.trans hopen)
      obtain ⟨observers, hdetached⟩ := (s.link.publish .connected).detach_model s.model
      have hunused' := hunused.publish .connected
      rw [he, hdetached]
      exact .pushing rfl (RuleModel.table_selectable (hmodel.withObservers observers)) hopen rfl
        hunused'.goes (List.mem_append_left _ haccepted)
        (Nat.le_of_eq (RuleModel.table_length { s.model with observers })) (.inl hunused')
  | waiting hstage | pushing hstage | attached hstage | turnedDown hstage | brokenOff hstage =>
    rw [hstage] at hopened
    cases hopened

theorem Attempt.pushed (h : Attempt moves s) {k : Nat} {states : List Wire.StateMessage}
    (hpushing : s.stage = .pushing k states) : Attempt (moves ++ [.push]) (s.pushed k states) := by
  cases h with
  | pushing hstage hselectable hcurrent hobserver hgoes haccepted hrules hbegun =>
    rw [hpushing] at hstage
    cases hstage
    have haccepted' := List.mem_append_left [Move.push] haccepted
    have hfailed : ∀ {j : Nat}, Move.task (.write j .failed) ∈ moves →
        Move.task (.write j .failed) ∈ moves ++ [.push] := List.mem_append_left _
    cases states with
    | nil => exact .attached rfl rfl rfl haccepted'
    | cons message rest =>
      rw [Client.pushed]
      rcases hgoes.send hcurrent (hselectable message List.mem_cons_self) with
        ⟨link, hsend, hgoes'⟩ | ⟨hsend, hstate, hbroken⟩
      · obtain ⟨given, hfed, -⟩ := Link.exists_fed_send hsend
        rw [hsend]
        exact .pushing rfl (fun message hm => hselectable message (List.mem_cons_of_mem _ hm))
          (hfed.current_eq.trans hcurrent) (hfed.observer_eq.trans hobserver) (hgoes'.mono hfailed)
          haccepted' (Nat.le_of_lt hrules) (.inr hrules)
      · -- The writer has been given a state before, since it has failed.
        have hless : (message :: rest).length < s.model.tree.rules.length := by
          refine hbegun.resolve_left fun hunused => ?_
          have hgoing : s.link.Goes k False := hunused.goes
          obtain ⟨link, hsend', -⟩ | ⟨-, -, hfalse⟩ :=
            hgoing.send hcurrent (hselectable message List.mem_cons_self)
          · rw [hsend] at hsend'
            cases hsend'
          · exact hfalse
        rw [List.length_cons] at hless
        have htwo : 2 ≤ s.model.tree.rules.length := by omega
        rw [hsend]
        exact .brokenOff rfl rfl hstate hcurrent hobserver haccepted' (hfailed hbroken) htwo
  | waiting hstage | opened hstage | attached hstage | turnedDown hstage | brokenOff hstage =>
    rw [hstage] at hpushing
    cases hpushing

theorem Attempt.step (h : Attempt moves s) {mv : Move} (hmv : mv.carriesOn = true)
    (hs : s.step? mv = some s') : Attempt (moves ++ [mv]) s' := by
  cases stepped_of_step? hs with
  | begun | forwarded => cases hmv
  | answered dial hdialing => exact h.answered hdialing dial
  | published hopened => exact h.published hopened
  | pushed hpushing => exact h.pushed hpushing
  | worked ht => exact h.task ht

theorem Attempt.run (h : Attempt moves s) {more : List Move}
    (hmore : ∀ mv ∈ more, mv.carriesOn = true) (hs : s.run? more = some s') :
    Attempt (moves ++ more) s' := by
  induction more generalizing s moves with
  | nil =>
    cases hs
    rwa [List.append_nil]
  | cons mv rest ih =>
    obtain ⟨s₁, hstep, hrest⟩ := Option.bind_eq_some_iff.mp hs
    have hfirst := h.step (hmore mv List.mem_cons_self) hstep
    have hall := ih hfirst (fun mv' hmv' => hmore mv' (List.mem_cons_of_mem _ hmv')) hrest
    rwa [List.append_assoc] at hall

theorem run?_refused {l : Link} {k : Nat} (hl : l.Unused k) (hk : l.current = some k)
    {first second : Wire.StateMessage} (hfirst : first.state.isDerived = false)
    (hsecond : second.state.isDerived = false) (m : RuleModel) (rest : List Wire.StateMessage) :
    ∃ l', (⟨l, m, .pushing k (first :: second :: rest), none⟩ : Client).run?
        [.push, .task (.write k .take), .task (.write k .failed), .push] =
          some (ended l' m (some .notConnected)) ∧ l'.current = some k := by
  obtain ⟨l₁, l₂, l₃, hsend, htaken, hfailed, hstill, hrefused⟩ :=
    hl.exists_refused hk hfirst hsecond
  refine ⟨l₃, ?_, hstill⟩
  have hfirst : (⟨l, m, .pushing k (first :: second :: rest), none⟩ : Client).step? .push =
      some ⟨l₁, m, .pushing k (second :: rest), none⟩ := by
    simp only [step?, pushed, hsend]
  have hlast : (⟨l₃, m, .pushing k (second :: rest), none⟩ : Client).step? .push =
      some (ended l₃ m (some .notConnected)) := by
    simp only [step?, pushed, hrefused]
  have htaken : (⟨l₁, m, .pushing k (second :: rest), none⟩ : Client).step?
      (.task (.write k .take)) = some ⟨l₂, m, .pushing k (second :: rest), none⟩ := by
    rw [step?, htaken]
    rfl
  have hfailed : (⟨l₂, m, .pushing k (second :: rest), none⟩ : Client).step?
      (.task (.write k .failed)) = some ⟨l₃, m, .pushing k (second :: rest), none⟩ := by
    rw [step?, hfailed]
    rfl
  rw [run?_cons hfirst, run?_cons htaken, run?_cons hfailed, run?_cons hlast]
  rfl

/-- The runtime accepts; the state of the first rule cannot be written, and then that of the second
cannot be queued. -/
def brokenMoves (k : Nat) : List Move :=
  [.answer .accepted, .publish, .push, .task (.write k .take), .task (.write k .failed), .push]

theorem run?_brokenMoves {l : Link} (hobserver : l.observer = none) (hm : m.Consistent)
    (hrules : 2 ≤ m.tree.rules.length) (addr : String) :
    ∃ l', (⟨l, m, .dialing addr, none⟩ : Client).run? (brokenMoves l.connections.length) =
      some (ended l' m (some .notConnected)) ∧ l'.current = some l.connections.length := by
  obtain ⟨-, hcurrent, hquiet⟩ := (l.stored addr).publish_fields .connected
  have hunused := (l.stored_unused addr).publish .connected
  generalize hopen : (l.stored addr).publish .connected = opened at hcurrent hquiet hunused
  have hk : opened.current = some l.connections.length := hcurrent
  have hpushing : beginAttach opened m =
      ⟨opened, m, .pushing l.connections.length m.table, none⟩ := by
    rw [beginAttach, Link.detach, hquiet.trans hobserver]
    dsimp only
    rw [hk]
    rfl
  have hlength := m.table_length
  obtain ⟨first, tail, htable⟩ := List.exists_cons_of_length_pos (l := m.table) (by omega)
  have htail : 0 < tail.length := by
    rw [htable, List.length_cons] at hlength
    omega
  obtain ⟨second, rest, rfl⟩ := List.exists_cons_of_length_pos htail
  have hselectable := RuleModel.table_selectable hm
  rw [htable] at hselectable
  obtain ⟨l', hrun, hstill⟩ := run?_refused hunused hk (hselectable first (by simp))
    (hselectable second (by simp)) m rest
  refine ⟨l', ?_, hstill⟩
  have hanswered : (⟨l, m, .dialing addr, none⟩ : Client).step? (.answer .accepted) =
      some ⟨l.stored addr, m, .opened, none⟩ := rfl
  have hpublished : (⟨l.stored addr, m, .opened, none⟩ : Client).step? .publish =
      some ⟨opened, m, .pushing l.connections.length (first :: second :: rest), none⟩ := by
    rw [step?, hopen, hpushing, htable]
  rw [brokenMoves, run?_cons hanswered, run?_cons hpublished, hrun]

/-- With two rules, an attempt to connect may be broken off, and its connection stays in place. -/
theorem exists_broken_attempt (h : s.Sound) (hidle : s.stage = .idle) (hm : s.model.Consistent)
    (hrules : 2 ≤ s.model.tree.rules.length) (addr : String) : ∃ during s',
      s.run? (.operation (.connect addr s.model) :: during) = some s' ∧
      (∀ mv ∈ during, mv.carriesOn = true) ∧ s'.stage = .idle ∧
      s'.fault = some .notConnected ∧ s'.link.peer?.isSome = true := by
  obtain ⟨observers, hmodel⟩ := s.link.detach_model s.model
  have hdialed : (s.link.dial s.model).2 = { s.model with observers } := hmodel
  obtain ⟨l', hrun, hopen⟩ := run?_brokenMoves (s.link.dial_fields s.model).2.2
    (hm.withObservers observers) hrules addr
  rw [← hdialed] at hrun
  have hbegun : s.step? (.operation (.connect addr s.model)) =
      some (s.begun (.connect addr s.model)) := if_pos hidle
  have hall := (run?_cons hbegun).trans hrun
  exact ⟨_, _, hall, by simp [brokenMoves, Move.carriesOn], rfl, rfl,
    (h.run hall).steady.peer?_isSome hopen⟩

/-- How an attempt to connect ends: attached, or disconnected with nothing attached. A connection
stays in place if and only if it was accepted, and then a write has failed. -/
theorem connect_ends (h : s.Sound) (hm : s.model.Consistent) {addr : String} {during : List Move}
    (hs : s.run? (.operation (.connect addr s.model) :: during) = some s')
    (hduring : ∀ mv ∈ during, mv.carriesOn = true) (hidle : s'.stage = .idle) :
    (s'.fault = none → s'.link.isAttached = true) ∧
    ∀ e, s'.fault = some e → s'.link.state = .disconnected ∧ s'.link.isAttached = false ∧
      (s'.link.peer? = none ↔ e ≠ .notConnected) ∧
      (e ≠ .notConnected ↔ .answer .accepted ∉ during) ∧
      (e = .notConnected → 2 ≤ s'.model.tree.rules.length ∧
        ∃ k, s'.link.current = some k ∧ .task (.write k .failed) ∈ during) := by
  have hsound := h.run hs
  obtain ⟨s₁, hstep, hrest⟩ := Option.bind_eq_some_iff.mp hs
  obtain ⟨-, hbegun⟩ := Option.ite_none_right_eq_some.mp hstep
  cases hbegun
  cases (begun_attempt s addr hm).run hduring hrest with
  | waiting hstage | opened hstage | pushing hstage =>
    rw [hidle] at hstage
    cases hstage
  | attached _ hfault hattached =>
    refine ⟨fun _ => hattached, fun e he => ?_⟩
    rw [hfault] at he
    cases he
  | turnedDown _ hfault hne hstate hcurrent hobserver hno =>
    refine ⟨fun hnone => ?_, fun e he => ?_⟩
    · rw [hfault] at hnone
      cases hnone
    · rw [hfault] at he
      cases he
      exact ⟨hstate, Link.isAttached_eq_false hobserver,
        iff_of_true (Link.peer?_eq_none hcurrent) hne, iff_of_true hne hno,
        fun heq => absurd heq hne⟩
  | brokenOff _ hfault hstate hcurrent hobserver haccepted hfailed hrules =>
    refine ⟨fun hnone => ?_, fun e he => ?_⟩
    · rw [hfault] at hnone
      cases hnone
    · rw [hfault] at he
      cases he
      have hpeer := hsound.steady.peer?_isSome hcurrent
      refine ⟨hstate, Link.isAttached_eq_false hobserver, iff_of_false (fun hnone => ?_) (by simp),
        iff_of_false (by simp) (not_not_intro haccepted),
        fun _ => ⟨hrules, _, hcurrent, hfailed⟩⟩
      rw [hnone] at hpeer
      cases hpeer

end Client

end RuleScope
