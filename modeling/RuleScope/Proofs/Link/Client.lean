import RuleScope.Proofs.Link.Steady

namespace RuleScope

theorem Link.attach_eq (l : Link) (m : RuleModel) : l.attach m =
    match l.current with
    | none => ({ l with observer := none }, (l.detach m).2, some .notConnected)
    | some k =>
      match ({ l with observer := none } : Link).sendAll
          ((l.detach m).2.ruleStates.map fun r => ⟨r.1, r.2⟩) with
      | (l', some e) => (l', (l.detach m).2, some e)
      | (l', none) =>
        ({ l' with observer := some ((l.detach m).2.subscribeRules (.connection k)).2 },
          ((l.detach m).2.subscribeRules (.connection k)).1, none) := by
  have hlink := l.detach_link m
  unfold attach
  generalize l.detach m = detached at hlink ⊢
  obtain ⟨link, model⟩ := detached
  cases hlink
  cases l.current <;> rfl

namespace Client

/-- How far the operation of a client has come. -/
inductive Stage where
  | idle
  /-- Nobody has answered yet. -/
  | dialing (addr : String)
  /-- The connection is stored and its tasks run; that it is connected is not published yet. -/
  | opened
  /-- These states are still to be queued on the connection `k`; then the model is followed. -/
  | pushing (k : Nat) (states : List Wire.StateMessage)
  /-- The client has been dropped. -/
  | gone
  deriving DecidableEq, Repr

end Client

/-- The debugger's end amid its operations. The tasks of all connections take their steps at any time,
also between two steps of one operation. -/
structure Client where
  link : Link
  /-- The model that the last operation was given. -/
  model : RuleModel
  stage : Client.Stage
  /-- How the last operation that has ended failed. -/
  fault : Option LinkFault

namespace Client

/-- What the debugger can do while it does nothing else, each with the model of the time. -/
inductive Operation where
  | connect (addr : String) (m : RuleModel)
  | attach (m : RuleModel)
  | replaced (m : RuleModel)
  | detach (m : RuleModel)
  | disconnect (m : RuleModel)
  | close
  | send (message : Wire.StateMessage)

inductive Move where
  | operation (o : Operation)
  | answer (dial : Dial)
  | publish
  | push
  | task (t : Link.Task)
  /-- A model that is still followed tells its changes. -/
  | forward (m : RuleModel) (notices : List Notice)

/-- A model without a node. -/
def blankModel : RuleModel := .ofTree ⟨.root, #[], [], [], [], [], [], []⟩

def start (timeout : Nat) : Client := ⟨.new timeout, blankModel, .idle, none⟩

/-- An operation is over. -/
def ended (link : Link) (model : RuleModel) (fault : Option LinkFault) : Client :=
  ⟨link, model, .idle, fault⟩

/-- Attaching, up to the first state that is queued. -/
def beginAttach (l : Link) (m : RuleModel) : Client :=
  let (link, model) := l.detach m
  match link.current with
  | none => ended link model (some .notConnected)
  | some k => ⟨link, model, .pushing k (model.ruleStates.map fun r => ⟨r.1, r.2⟩), none⟩

/-- An operation up to the first point at which the tasks may come in between. -/
def begun (s : Client) : Operation → Client
  | .connect addr m => ⟨(s.link.dial m).1, (s.link.dial m).2, .dialing addr, none⟩
  | .attach m => beginAttach s.link m
  | .replaced m =>
    let link := { s.link with observer := none }
    if link.isConnected then beginAttach link m else ended link m none
  | .detach m => ended (s.link.detach m).1 (s.link.detach m).2 none
  | .disconnect m => ended (s.link.disconnect m).1 (s.link.disconnect m).2 none
  | .close => ended s.link.close s.model none
  | .send message =>
    match s.link.send message with
    | .ok link => ended link s.model none
    | .error e => ended s.link s.model (some e)

/-- An attempt to connect is answered; the new connection is stored. -/
def answered (s : Client) (addr : String) : Dial → Client
  | .accepted => { s with link := s.link.stored addr, stage := .opened }
  | .refused => ended (s.link.publish .disconnected) s.model (some (.refused addr))
  | .invalid => ended (s.link.publish .disconnected) s.model (some (.invalidAddress addr))
  | .silent => ended (s.link.publish .disconnected) s.model (some (.timedOut addr s.link.timeout))

/-- The next state is queued, or the connection follows the model. -/
def pushed (s : Client) (k : Nat) : List Wire.StateMessage → Client
  | [] =>
    let (model, id) := s.model.subscribeRules (.connection k)
    ended { s.link with observer := some id } model none
  | message :: rest =>
    match s.link.send message with
    | .ok link => { s with link, stage := .pushing k rest }
    | .error e => ended s.link s.model (some e)

/-- One move, if it can be made. -/
def step? (s : Client) : Move → Option Client
  | .operation o => if s.stage = .idle then some (s.begun o) else none
  | .answer dial =>
    match s.stage with
    | .dialing addr => some (s.answered addr dial)
    | _ => none
  | .publish =>
    match s.stage with
    | .opened => some (beginAttach (s.link.publish .connected) s.model)
    | _ => none
  | .push =>
    match s.stage with
    | .pushing k states => some (s.pushed k states)
    | _ => none
  | .task t => (s.link.task? t).map fun link => { s with link }
  | .forward m notices => some { s with link := s.link.forward m notices }

def run? (s : Client) (moves : List Move) : Option Client := moves.foldlM step? s

/-- What a move can be. -/
inductive Stepped (s : Client) : Move → Client → Prop where
  | begun (o : Operation) (idle : s.stage = .idle) : s.Stepped (.operation o) (s.begun o)
  | answered {addr} (dial : Dial) (dialing : s.stage = .dialing addr) :
      s.Stepped (.answer dial) (s.answered addr dial)
  | published (opened : s.stage = .opened) :
      s.Stepped .publish (beginAttach (s.link.publish .connected) s.model)
  | pushed {k states} (pushing : s.stage = .pushing k states) : s.Stepped .push (s.pushed k states)
  | worked {t link} (task : s.link.task? t = some link) : s.Stepped (.task t) { s with link }
  | forwarded (m : RuleModel) (notices : List Notice) :
      s.Stepped (.forward m notices) { s with link := s.link.forward m notices }

variable {s s' : Client} {m : RuleModel} {l l' : Link}

theorem stepped_of_step? {mv : Move} (hs : s.step? mv = some s') : s.Stepped mv s' := by
  cases mv with
  | operation o =>
    simp only [step?, Option.ite_none_right_eq_some, Option.some.injEq] at hs
    obtain ⟨hidle, rfl⟩ := hs
    exact .begun o hidle
  | answer dial =>
    simp only [step?] at hs
    split at hs
    next hstage => cases hs; exact .answered dial hstage
    next => cases hs
  | publish =>
    simp only [step?] at hs
    split at hs
    next hstage => cases hs; exact .published hstage
    next => cases hs
  | push =>
    simp only [step?] at hs
    split at hs
    next hstage => cases hs; exact .pushed hstage
    next => cases hs
  | task t =>
    obtain ⟨link, htask, rfl⟩ := Option.map_eq_some_iff.mp hs
    exact .worked htask
  | forward m notices =>
    cases hs
    exact .forwarded m notices

/-- Attaching comes to nothing without a connection; otherwise there are states to be queued. -/
theorem beginAttach_cases (l : Link) (m : RuleModel) :
    (l.current = none ∧ beginAttach l m =
      ended { l with observer := none } (l.detach m).2 (some .notConnected)) ∨
    ∃ k, l.current = some k ∧ beginAttach l m = ⟨{ l with observer := none }, (l.detach m).2,
      .pushing k ((l.detach m).2.ruleStates.map fun r => ⟨r.1, r.2⟩), none⟩ := by
  unfold beginAttach
  dsimp only
  rw [Link.detach_link]
  dsimp only
  split
  next hnone => exact .inl ⟨hnone, rfl⟩
  next k hk => exact .inr ⟨k, hk, rfl⟩

theorem beginAttach_link (l : Link) (m : RuleModel) :
    (beginAttach l m).link = { l with observer := none } := by
  rcases beginAttach_cases l m with ⟨-, he⟩ | ⟨k, -, he⟩
  · rw [he, ended]
  · rw [he]

/-- What is known of a link at a stage. -/
def Stage.Holds (l : Link) : Stage → Prop
  | .idle => l.state ≠ .connecting
  | .dialing _ => l.current = none ∧ l.observer = none
  | .opened => l.current.isSome = true ∧ l.observer = none
  | .pushing k _ => l.state ≠ .connecting ∧ l.current = some k ∧ l.observer = none
  | .gone => l.current = none

theorem Stage.Holds.congr {stage : Stage} (h : stage.Holds l) (hcurrent : l'.current = l.current)
    (hobserver : l'.observer = l.observer) (hstate : l'.state = l.state ∨ l'.state = .disconnected) :
    stage.Holds l' := by
  have hresting : l.state ≠ .connecting → l'.state ≠ .connecting := by
    rcases hstate with hs | hs
    · exact hs ▸ id
    · simp [hs]
  cases stage with
  | idle => exact hresting h
  | dialing addr => exact ⟨hcurrent.trans h.1, hobserver.trans h.2⟩
  | opened => exact ⟨hcurrent ▸ h.1, hobserver.trans h.2⟩
  | pushing k states => exact ⟨hresting h.1, hcurrent.trans h.2.1, hobserver.trans h.2.2⟩
  | gone => exact hcurrent.trans h

structure Sound (s : Client) : Prop where
  steady : s.link.Steady
  holds : s.stage.Holds s.link

theorem start_sound (timeout : Nat) : (start timeout).Sound :=
  ⟨Link.steady_new timeout, by rw [start]; nofun⟩

theorem beginAttach_sound (h : l.Steady) (hstate : l.state ≠ .connecting) :
    (beginAttach l m).Sound := by
  refine ⟨?_, ?_⟩
  · rw [beginAttach_link]
    exact h.alike (l.withObserver_alike none)
  · rcases beginAttach_cases l m with ⟨-, he⟩ | ⟨k, hk, he⟩
    · rw [he]
      exact hstate
    · rw [he]
      exact ⟨hstate, hk, rfl⟩

theorem ended_sound {fault : Option LinkFault} (h : l.Steady) (hstate : l.state ≠ .connecting) :
    (ended l m fault).Sound := ⟨h, hstate⟩

theorem send_sound (stage : Stage) {message : Wire.StateMessage} {link : Link}
    (hsteady : l.Steady) (hholds : stage.Holds l) (hsend : l.send message = .ok link) :
    link.Steady ∧ stage.Holds link := by
  obtain ⟨given, hfed, -⟩ := Link.exists_fed_send hsend
  exact ⟨hsteady.alike hfed.alike, hholds.congr hfed.current_eq hfed.observer_eq (.inl hfed.state_eq)⟩

theorem Sound.begun (h : s.Sound) (hidle : s.stage = .idle) (o : Operation) : (s.begun o).Sound := by
  have hresting : s.link.state ≠ .connecting := by
    have := h.holds
    rwa [hidle] at this
  cases o with
  | connect addr m =>
    obtain ⟨-, hcurrent, hobserver⟩ := s.link.dial_fields m
    exact ⟨h.steady.dial m, hcurrent, hobserver⟩
  | attach m => exact beginAttach_sound h.steady hresting
  | replaced m =>
    have hquiet := h.steady.alike (s.link.withObserver_alike none)
    unfold Client.begun
    dsimp only
    split
    next => exact beginAttach_sound hquiet hresting
    next => exact ended_sound hquiet hresting
  | detach m =>
    refine ended_sound (h.steady.alike (s.link.detach_alike m)) ?_
    rw [Link.detach_link]
    exact hresting
  | disconnect m =>
    refine ended_sound (h.steady.disconnect m) ?_
    rw [Link.disconnect, (Link.close_fields _).1]
    nofun
  | close =>
    refine ended_sound h.steady.close ?_
    rw [(Link.close_fields _).1]
    nofun
  | send message =>
    unfold Client.begun
    dsimp only
    split
    next link hsend =>
      obtain ⟨hsteady, hholds⟩ := send_sound .idle h.steady hresting hsend
      exact ended_sound hsteady hholds
    next => exact ended_sound h.steady hresting

theorem Sound.answered (h : s.Sound) {addr : String} (hdialing : s.stage = .dialing addr)
    (dial : Dial) : (s.answered addr dial).Sound := by
  have hholds := h.holds
  rw [hdialing] at hholds
  have failed : ∀ fault, (ended (s.link.publish .disconnected) s.model fault).Sound := fun fault => by
    refine ended_sound (h.steady.alike (s.link.publish_alike nofun)) ?_
    rw [Link.publish_state]
    nofun
  cases dial with
  | accepted => exact ⟨h.steady.stored hholds.1 addr, rfl, hholds.2⟩
  | refused | invalid | silent => exact failed _

theorem Sound.pushed (h : s.Sound) {k : Nat} {states : List Wire.StateMessage}
    (hpushing : s.stage = .pushing k states) : (s.pushed k states).Sound := by
  have hholds := h.holds
  rw [hpushing] at hholds
  cases states with
  | nil => exact ended_sound (h.steady.alike (s.link.withObserver_alike _)) hholds.1
  | cons message rest =>
    rw [Client.pushed]
    split
    next link hsend =>
      obtain ⟨hsteady, hholds⟩ := send_sound (.pushing k rest) h.steady hholds hsend
      exact ⟨hsteady, hholds⟩
    next => exact ended_sound h.steady hholds.1

theorem Sound.step (h : s.Sound) {mv : Move} (hs : s.step? mv = some s') : s'.Sound := by
  cases stepped_of_step? hs with
  | begun o hidle => exact h.begun hidle o
  | answered dial hdialing => exact h.answered hdialing dial
  | published hopened =>
    have hholds := h.holds
    rw [hopened] at hholds
    refine beginAttach_sound (h.steady.publish_connected hholds.1) ?_
    rw [Link.publish_state]
    nofun
  | pushed hpushing => exact h.pushed hpushing
  | worked htask =>
    have hw := Link.worked_of_task? htask
    exact ⟨h.steady.worked hw, h.holds.congr hw.current_eq hw.observer_eq hw.state⟩
  | forwarded m notices =>
    have hfed := Link.forward_fed m s.link notices
    exact ⟨h.steady.alike hfed.alike,
      h.holds.congr hfed.current_eq hfed.observer_eq (.inl hfed.state_eq)⟩

theorem Sound.run (h : s.Sound) {moves : List Move} (hs : s.run? moves = some s') : s'.Sound := by
  induction moves generalizing s with
  | nil =>
    cases hs
    exact h
  | cons mv rest ih =>
    obtain ⟨s₁, hstep, hrest⟩ := Option.bind_eq_some_iff.mp hs
    exact ih (h.step hstep) hrest

theorem run?_cons {mv : Move} {moves : List Move} (hs : s.step? mv = some s') :
    s.run? (mv :: moves) = s'.run? moves := by
  rw [run?, List.foldlM_cons, hs]
  rfl

/-- Where nothing comes between, the states are queued one after the other and the model is followed. -/
theorem run?_push (l : Link) (m : RuleModel) (k : Nat) (states : List Wire.StateMessage) :
    ∃ n, (⟨l, m, .pushing k states, none⟩ : Client).run? (List.replicate n .push) =
      some (match l.sendAll states with
        | (l', some e) => ended l' m (some e)
        | (l', none) => ended { l' with observer := some (m.subscribeRules (.connection k)).2 }
          (m.subscribeRules (.connection k)).1 none) := by
  induction states generalizing l with
  | nil => exact ⟨1, rfl⟩
  | cons message rest ih =>
    rw [Link.sendAll]
    cases hsend : l.send message with
    | error e =>
      refine ⟨1, ?_⟩
      rw [List.replicate_one, run?_cons rfl, pushed, hsend]
      rfl
    | ok l' =>
      obtain ⟨n, hn⟩ := ih l'
      have hstep : (⟨l, m, .pushing k (message :: rest), none⟩ : Client).step? .push =
          some ⟨l', m, .pushing k rest, none⟩ := by
        simp only [step?, pushed, hsend]
      refine ⟨n + 1, ?_⟩
      rw [List.replicate_succ, run?_cons hstep, hn]

theorem run?_beginAttach (l : Link) (m : RuleModel) :
    ∃ n, (beginAttach l m).run? (List.replicate n .push) =
      some (ended (l.attach m).1 (l.attach m).2.1 (l.attach m).2.2) := by
  rw [Link.attach_eq]
  rcases beginAttach_cases l m with ⟨hnone, he⟩ | ⟨k, hk, he⟩
  · rw [he, hnone]
    exact ⟨0, rfl⟩
  · obtain ⟨n, hn⟩ := run?_push { l with observer := none } (l.detach m).2 k
      ((l.detach m).2.ruleStates.map fun r => ⟨r.1, r.2⟩)
    refine ⟨n, ?_⟩
    rw [he, hn, hk]
    dsimp only
    split
    next => rfl
    next => rfl

/-- Where no task comes between, attaching is what it is as one step. -/
theorem run?_attach (s : Client) (hidle : s.stage = .idle) (m : RuleModel) :
    ∃ n, s.run? (.operation (.attach m) :: List.replicate n .push) =
      some (ended (s.link.attach m).1 (s.link.attach m).2.1 (s.link.attach m).2.2) := by
  obtain ⟨n, hn⟩ := run?_beginAttach s.link m
  exact ⟨n, (run?_cons (by rw [step?, if_pos hidle]; rfl)).trans hn⟩

theorem run?_replaced (s : Client) (hidle : s.stage = .idle) (m : RuleModel) :
    ∃ n, s.run? (.operation (.replaced m) :: List.replicate n .push) =
      some (ended (s.link.modelReplaced m).1 (s.link.modelReplaced m).2.1
        (s.link.modelReplaced m).2.2) := by
  have hstep : s.step? (.operation (.replaced m)) = some (s.begun (.replaced m)) := if_pos hidle
  unfold Link.modelReplaced
  dsimp only
  split
  next hconnected =>
    obtain ⟨n, hn⟩ := run?_beginAttach { s.link with observer := none } m
    refine ⟨n, (run?_cons (hstep.trans ?_)).trans hn⟩
    rw [begun, if_pos hconnected]
  next hconnected =>
    refine ⟨0, run?_cons (hstep.trans ?_)⟩
    rw [begun, if_neg hconnected]

theorem run?_connect (s : Client) (hidle : s.stage = .idle) (addr : String) (dial : Dial)
    (m : RuleModel) : ∃ more, s.run? (.operation (.connect addr m) :: .answer dial :: more) =
      some (ended (s.link.connect addr dial m).1 (s.link.connect addr dial m).2.1
        (s.link.connect addr dial m).2.2) := by
  have hstep : s.step? (.operation (.connect addr m)) = some (s.begun (.connect addr m)) :=
    if_pos hidle
  cases dial with
  | accepted =>
    obtain ⟨n, hn⟩ := run?_beginAttach ((s.link.dial m).1.opened addr) (s.link.dial m).2
    refine ⟨.publish :: List.replicate n .push, ?_⟩
    rw [run?_cons hstep, run?_cons rfl, run?_cons rfl]
    exact hn
  | refused | invalid | silent => exact ⟨[], run?_cons hstep⟩

/-- The debugger connects to a runtime and attaches a model without rules. -/
def connectMoves : List Move :=
  [.operation (.connect "127.0.0.1:7777" blankModel), .answer .accepted, .publish, .push]

end Client

end RuleScope
