import RuleScope.Proofs.Link.MirrorRuns
import RuleScope.Proofs.Link.Steady

namespace RuleScope

namespace Link

variable {l : Link} {m : RuleModel}

theorem publish_listening (l : Link) (s : LinkState) : (l.publish s).listening = l.listening := by
  unfold publish
  split <;> rfl

theorem send_listening {l' : Link} {message : Wire.StateMessage} (h : l.send message = .ok l') :
    l'.listening = l.listening := by
  unfold send at h
  split at h
  next => cases h
  next =>
    split at h
    next => cases h
    next =>
      split at h
      next =>
        split at h
        next =>
          cases h
          rfl
        next => cases h
      next => cases h

theorem sendAll_listening (l : Link) (messages : List Wire.StateMessage) :
    (l.sendAll messages).1.listening = l.listening := by
  induction messages generalizing l with
  | nil => rfl
  | cons message rest ih =>
    unfold sendAll
    split
    next l₁ hsend => exact (ih l₁).trans (send_listening hsend)
    next => rfl

theorem detach_listening (l : Link) (m : RuleModel) : (l.detach m).1.listening = l.listening := by
  rw [detach_link]

theorem attach_listening (l : Link) (m : RuleModel) : (l.attach m).1.listening = l.listening := by
  have hdetach := detach_listening l m
  unfold attach
  dsimp only
  split
  next => exact hdetach
  next k _ =>
    have hsend := sendAll_listening (l.detach m).1
      ((l.detach m).2.ruleStates.map fun r => ⟨r.1, r.2⟩)
    split
    next l₁ e h =>
      rw [h] at hsend
      exact hsend.trans hdetach
    next l₁ h =>
      rw [h] at hsend
      exact hsend.trans hdetach

theorem close_listening (l : Link) : l.close.listening = l.listening := by
  unfold close
  rw [publish_listening]
  cases l.current <;> rfl

theorem disconnect_listening (l : Link) (m : RuleModel) :
    (l.disconnect m).1.listening = l.listening :=
  (close_listening _).trans (detach_listening l m)

theorem forward_listening (l : Link) (m : RuleModel) (notices : List Notice) :
    (l.forward m notices).listening = l.listening := by
  induction notices generalizing l with
  | nil => rfl
  | cons n rest ih =>
    have hone : (forwardOne m l n).listening = l.listening := by
      unfold forwardOne
      split <;> rfl
    exact (ih _).trans hone

theorem read_line_listening (l : Link) (k : Nat) (text : String) :
    (l.read k (.line text)).listening = l.listening := by
  have hreceive : ∀ message, (l.receive message).listening = l.listening := fun message => by
    unfold receive
    split <;> rfl
  unfold read
  split
  next => rfl
  next =>
    split
    next => rfl
    next =>
      dsimp only
      split
      next => rfl
      next =>
        split
        next => exact hreceive _
        next => rfl

/-- A link that is attached to a model with rules has the rules in its queue at first. -/
theorem attach_queue (hl : l.Sound) (hm : m.Consistent) (hf : m.observers.Fresh)
    (ha : (l.attach m).1.isAttached = true) {k : Nat} (hk : (l.attach m).1.current = some k)
    (hrules : m.tree.rules ≠ []) :
    ∃ c, (l.attach m).1.connections[k]? = some c ∧ c.queue ≠ [] := by
  rcases attach_spec hl hm hf with ⟨_, hlink, _⟩ | ⟨j, id, l₁, hj, hfed, hlink, _⟩
  · rw [hlink, detach_link] at ha
    cases ha
  · have hcurrent : (l.attach m).1.current = some j := by
      rw [hlink]
      exact hfed.current_eq.trans hj
    obtain rfl : j = k := Option.some.inj (hcurrent.symm.trans hk)
    obtain ⟨c, hc, hclosing, _⟩ := hl.current_last j hj
    have htable : m.table ≠ [] := by
      obtain ⟨r, hr⟩ := List.exists_mem_of_ne_nil _ hrules
      have hmem : (⟨r.1, m.state r.2⟩ : Wire.StateMessage) ∈ m.table :=
        RuleModel.mem_table_iff.mpr ⟨r.2, hr, rfl⟩
      exact List.ne_nil_of_mem hmem
    refine ⟨c.feed m.table, ?_, ?_⟩
    · have hfeed := hfed.connection j
      rw [if_pos rfl] at hfeed
      rw [hlink]
      exact hfeed.trans (congrArg _ hc)
    · rw [Connection.feed_queue, if_pos ((hl.connection j c hc).accepts hclosing)]
      simp [htable]

end Link

namespace Mirror

/-- Somebody listens to the runtime. While a model with rules is attached, the runtime has something
to read on the open connection, or serves that one already. -/
structure Joined (s : Mirror) : Prop where
  heard : s.link.Heard
  listening : s.link.listening = true
  outbound : s.endpoint.outbound = []
  awaited : s.link.isAttached = true → ∀ k, s.link.current = some k → s.model.tree.rules ≠ [] →
    s.unreadAt k ≠ [] ∨ s.served = k ∧ s.endpoint.connected = true

variable {s : Mirror}

theorem start_joined (m : RuleModel) (timeout : Nat) (addr : Address) :
    (start m timeout addr).Joined where
  heard := Link.heard_of_state_ne nofun
  listening := rfl
  outbound := rfl
  awaited := nofun

theorem Joined.unattached (h : s.Joined) {link : Link} {model : RuleModel} {trees : List RuleTree}
    (hheard : link.Heard) (hlistening : link.listening = s.link.listening)
    (hobserver : link.observer = none) :
    ({ s with link, model, trees } : Mirror).Joined where
  heard := hheard
  listening := hlistening.trans h.listening
  outbound := h.outbound
  awaited := fun ha => by
    have hattached : link.observer.isSome = true := ha
    rw [hobserver] at hattached
    cases hattached

theorem unreadOf_ne_nil {c : Connection} (h : c.queue ≠ []) (lines : List String) :
    unreadOf c lines ≠ [] := by
  simp [unreadOf, h]

theorem Joined.attached (h : s.Joined) {l : Link} {m : RuleModel} {trees : List RuleTree}
    (hl : l.Sound) (hheard : l.Heard) (hlistening : l.listening = s.link.listening)
    (hm : m.Consistent) (hf : m.observers.Fresh) :
    ({ s with link := (l.attach m).1, model := (l.attach m).2.1, trees } : Mirror).Joined where
  heard := hheard.alike (l.attach_frame m).2
  listening := (Link.attach_listening l m).trans (hlistening.trans h.listening)
  outbound := h.outbound
  awaited := fun ha k hk hrules => by
    have htree : (l.attach m).2.1.tree = m.tree := by
      obtain ⟨observers, hmodel⟩ := Link.detach_model l m
      obtain ⟨_, _, _, _, ⟨_, _, he⟩ | ⟨_, _, _, he, _⟩⟩ := Link.attach_outcome l m
      · rw [he, hmodel]
      · rw [he, hmodel]
        rfl
    have hrules' : m.tree.rules ≠ [] := by
      rw [← htree]
      exact hrules
    obtain ⟨c, hc, hqueue⟩ := Link.attach_queue hl hm hf ha hk hrules'
    refine Or.inl ?_
    unfold unreadAt
    dsimp only
    rw [hc]
    exact unreadOf_ne_nil hqueue _

theorem connect_joined (h : s.Faithful) (hj : s.Joined) (addr : String) (dial : Dial) :
    ({ s with
      link := (s.link.connect addr dial s.model).1
      model := (s.link.connect addr dial s.model).2.1 } : Mirror).Joined := by
  have hd := disconnect_faithful h
  obtain ⟨_, _, hobserver⟩ := Link.dial_fields s.link s.model
  have hlistening : (s.link.dial s.model).1.listening = s.link.listening :=
    (Link.publish_listening _ _).trans (Link.disconnect_listening s.link s.model)
  rcases Link.connect_outcome s.link addr dial s.model with ⟨-, he⟩ | ⟨-, e, he⟩
  · rw [he]
    obtain ⟨hstate, hopen, _, hconnections⟩ := Link.opened_fields (s.link.dial s.model).1 addr
    obtain ⟨hsame, _, _⟩ := (s.link.disconnect s.model).1.publish_fields .connecting
    have hclosed : (s.link.disconnect s.model).1.current = none :=
      (Link.close_fields (s.link.detach s.model).1).2.1
    have hlast : (s.link.dial s.model).1.connections = (s.link.disconnect s.model).1.connections :=
      hsame
    rw [hlast] at hopen hconnections
    have hsound : ((s.link.dial s.model).1.opened addr).Sound :=
      (Link.open_sound (P := fun _ => True) hd.link hclosed hconnections hopen hstate).1
    exact hj.attached hsound (Link.opened_heard _ addr)
      ((Link.publish_listening _ _).trans hlistening) hd.model hd.observers
  · rw [he]
    obtain ⟨_, _, hkept⟩ := (s.link.dial s.model).1.publish_fields .disconnected
    have hstate := Link.publish_state (s.link.dial s.model).1 .disconnected
    exact hj.unattached (Link.heard_of_state_ne (by simp [hstate]))
      ((Link.publish_listening _ _).trans hlistening) (hkept.trans hobserver)

theorem replace_joined (h : s.Faithful) (hj : s.Joined) {m : RuleModel} (hm : m.Consistent)
    (hf : m.observers.Fresh) (trees : List RuleTree) :
    ({ s with
      link := (s.link.modelReplaced m).1
      model := (s.link.modelReplaced m).2.1
      trees } : Mirror).Joined := by
  unfold Link.modelReplaced
  dsimp only
  split
  next =>
    exact hj.attached (h.link.withObserver none) (hj.heard.alike (Link.withObserver_alike _ none))
      rfl hm hf
  next => exact hj.unattached (hj.heard.alike (Link.withObserver_alike _ none)) rfl rfl

/-- What is fed to connections, or passed on by the transport, leaves something to read where there
was something. -/
theorem Joined.kept (h : s.Joined) {s' : Mirror} (hheard : s'.link.Heard)
    (hlistening : s'.link.listening = s.link.listening)
    (houtbound : s'.endpoint.outbound = s.endpoint.outbound)
    (hobserver : s'.link.observer = s.link.observer) (hcurrent : s'.link.current = s.link.current)
    (htree : s'.model.tree = s.model.tree)
    (hawaited : ∀ k, s.unreadAt k ≠ [] ∨ s.served = k ∧ s.endpoint.connected = true →
      s.link.current = some k →
      s'.unreadAt k ≠ [] ∨ s'.served = k ∧ s'.endpoint.connected = true) : s'.Joined where
  heard := hheard
  listening := hlistening.trans h.listening
  outbound := houtbound.trans h.outbound
  awaited := fun ha k hk hrules => by
    rw [Link.isAttached, hobserver] at ha
    rw [hcurrent] at hk
    rw [htree] at hrules
    exact hawaited k (h.awaited ha k hk hrules) hk

theorem edit_joined (h : s.Faithful) (hj : s.Joined) {e : Edit} {u : Update}
    (hu : s.model.edit? e = some u) :
    ({ s with link := s.link.forward u.model u.notices, model := u.model } : Mirror).Joined := by
  have hfrom := RuleModel.edit?_from h.model hu
  have hfed := Link.forward_fed u.model s.link u.notices
  refine hj.kept (hj.heard.alike hfed.alike) (Link.forward_listening _ _ _) rfl hfed.observer_eq
    hfed.current_eq hfrom.tree_eq fun k hawaited _ => hawaited.imp_left fun hne => ?_
  let s' : Mirror := { s with link := s.link.forward u.model u.notices, model := u.model }
  have hlink : s.link.Fed s'.link fun k => Link.told u.model k u.notices := hfed
  obtain ⟨more, hmore, _⟩ := unreadAt_fed hlink rfl k
  rw [hmore]
  simp [hne]

theorem write_joined (h : s.Faithful) (hj : s.Joined) {k : Nat} {e : WriterEvent} (he : e ≠ .failed)
    {link : Link} {line : Option String} (hs : s.link.writerStep? k e = some (link, line)) :
    ({ s with link, wire := Function.update s.wire k (s.wire k ++ line.toList) } : Mirror).Joined := by
  have hunread := unreadAt_written h he hs
  have hworked : s.link.Worked link := by
    refine Link.worked_of_task? (t := .write k e) ?_
    rw [Link.task?, hs]
    rfl
  obtain ⟨c, c', effect, hc, hstep, rfl, -⟩ := writerStep?_spec h.link he hs
  refine hj.kept (hj.heard.worked hworked) rfl rfl rfl rfl rfl fun j hawaited _ => ?_
  rw [hunread j]
  exact hawaited

theorem report_joined (hj : s.Joined) (k : Nat) (text : String) :
    ({ s with link := s.link.read k (.line text) } : Mirror).Joined := by
  obtain ⟨hconnections, hstate, hcurrent, hobserver⟩ := s.link.read_line_fields k text
  have halike : s.link.Alike (s.link.read k (.line text)) :=
    ⟨hcurrent, fun j => by rw [hconnections], fun hc => hstate ▸ hc⟩
  refine hj.kept (hj.heard.alike halike)
    (Link.read_line_listening _ _ _) rfl hobserver hcurrent rfl fun j hawaited _ => ?_
  unfold unreadAt at hawaited ⊢
  dsimp only
  rw [hconnections]
  exact hawaited

theorem accept_joined (hj : s.Joined) {endpoint : Endpoint}
    (he : s.endpoint.accept? = some endpoint) : ({ s with endpoint } : Mirror).Joined := by
  obtain rfl : { s.endpoint with connected := true } = endpoint := by
    unfold Endpoint.accept? at he
    split at he
    next => cases he
    next => exact Option.some.inj he
  exact hj.kept hj.heard rfl rfl rfl rfl rfl fun k hawaited _ =>
    hawaited.imp_right fun hserved => ⟨hserved.1, rfl⟩

theorem serve_joined (hj : s.Joined) (hc : s.endpoint.connected = true) (line : String)
    (rest : List String) :
    ({ s with endpoint := s.endpoint.read line, wire := Function.update s.wire s.served rest } :
      Mirror).Joined := by
  obtain ⟨houtbound, hconnected⟩ := read_fields s.endpoint line
  refine hj.kept hj.heard rfl houtbound rfl rfl rfl fun k hawaited _ => ?_
  by_cases hk : s.served = k
  · exact Or.inr ⟨hk, hconnected.trans hc⟩
  · have hunread := hawaited.resolve_right fun hserved => hk hserved.1
    refine Or.inl ?_
    unfold unreadAt at hunread ⊢
    dsimp only
    rw [Function.update_of_ne (Ne.symm hk)]
    exact hunread

theorem hangUp_joined (h : s.Faithful) (hj : s.Joined)
    (hstop : s.link.connections[s.served]?.map Connection.writer = some .stopped) :
    ({ s with
      link := s.link.read s.served .ended
      endpoint := s.endpoint.release
      served := s.served + 1 } : Mirror).Joined := by
  obtain ⟨c, hc, hstop⟩ := Option.map_eq_some_iff.mp hstop
  rw [read_ended_of_stopped h.link hc hstop]
  refine hj.kept hj.heard rfl rfl rfl rfl rfl fun k hawaited hk => ?_
  -- The open connection has a writer, so it is not the one that ends.
  have hne : s.served ≠ k := by
    rintro rfl
    obtain ⟨d, hd, hclosing, _⟩ := h.link.current_last s.served hk
    obtain rfl : d = c := Option.some.inj (hd.symm.trans hc)
    rcases (h.link.connection _ d hd).writer_open hclosing with hw | ⟨line, hw⟩ <;>
      simp [hstop] at hw
  exact Or.inl (hawaited.resolve_right fun hserved => hne hserved.1)

theorem step_joined (h : s.Faithful) (hj : s.Joined) {s' : Mirror} {move : Move}
    (hs : s.step? move = some s') : s'.Joined := by
  cases move with
  | connect addr dial =>
    cases hs
    exact connect_joined h hj addr dial
  | attach =>
    cases hs
    exact hj.attached h.link hj.heard rfl h.model h.observers
  | detach =>
    cases hs
    exact hj.unattached (hj.heard.alike (s.link.detach_alike s.model)) (Link.detach_listening _ _)
      (Link.detach_observer _ _)
  | disconnect =>
    cases hs
    obtain ⟨hstate, -, hobserver⟩ := Link.close_fields (s.link.detach s.model).1
    have hne : (s.link.disconnect s.model).1.state ≠ .connected := by
      rw [Link.disconnect, hstate]
      nofun
    exact hj.unattached (Link.heard_of_state_ne hne) (Link.disconnect_listening _ _) hobserver
  | edit e =>
    simp only [step?] at hs
    split at hs
    next u hu =>
      cases hs
      exact edit_joined h hj hu
    next =>
      cases hs
      exact hj
  | replace resolve sourceRoot l actions =>
    simp only [step?] at hs
    split at hs
    next m hb =>
      cases hs
      have hm := RuleModel.build_consistent hb
      exact replace_joined h hj (RuleModel.run_consistent hm actions).1
        (RuleModel.run_fresh (RuleModel.build_fresh hb) hm actions) _
    next => cases hs
  | write k e =>
    simp only [step?] at hs
    split at hs
    next => cases hs
    next he =>
      split at hs
      next link line hw =>
        cases hs
        exact write_joined h hj he hw
      next => cases hs
  | report k text =>
    cases hs
    exact report_joined hj k text
  | accept =>
    simp only [step?] at hs
    split at hs
    next =>
      obtain ⟨endpoint, he, rfl⟩ := Option.map_eq_some_iff.mp hs
      exact accept_joined hj he
    next => cases hs
  | serve =>
    simp only [step?] at hs
    split at hs
    next hc =>
      split at hs
      next line rest _ =>
        cases hs
        exact serve_joined hj hc line rest
      next => cases hs
    next => cases hs
  | hangUp =>
    simp only [step?] at hs
    split at hs
    next hcond =>
      cases hs
      exact hangUp_joined h hj hcond.2.2
    next => cases hs

theorem run_joined (h : s.Faithful) (hj : s.Joined) {s' : Mirror} {moves : List Move}
    (hs : s.run? moves = some s') : s'.Joined := by
  induction moves generalizing s with
  | nil =>
    cases hs
    exact hj
  | cons move rest ih =>
    obtain ⟨s₁, h₁, hrest⟩ := Option.bind_eq_some_iff.mp hs
    exact ih (step_faithful h h₁) (step_joined h hj h₁) hrest

/-- Once it has read everything, the runtime serves a connection on which it is heard. -/
theorem Joined.serves (h : s.Faithful) (hj : s.Joined) (ha : s.link.isAttached = true)
    (hc : s.CaughtUp) (hrules : s.model.tree.rules ≠ []) :
    s.endpoint.connected = true ∧
      s.link.connections[s.served]?.map Connection.reading = some true := by
  obtain ⟨id, hid⟩ := Option.isSome_iff_exists.mp ha
  obtain ⟨k, hk, _⟩ := h.attached id hid
  have hread : s.unreadAt k = [] := by
    obtain ⟨c, hck, _⟩ := h.link.current_last k hk
    obtain ⟨hq, hh, hw⟩ := hc k c hck
    simp [unreadAt, hck, unreadOf, hq, hh, hw]
  obtain ⟨rfl, hconnected⟩ := (hj.awaited ha k hk hrules).resolve_left fun hne => hne hread
  have hstate : s.link.state = .connected := by rw [h.link.state_eq, hk]; rfl
  exact ⟨hconnected, hj.heard hstate _ hk⟩

end Mirror

end RuleScope
