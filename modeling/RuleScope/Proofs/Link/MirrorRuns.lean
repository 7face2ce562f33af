import RuleScope.Proofs.Link.Mirror

namespace RuleScope.Mirror

section

variable {s : Mirror}

/-- A step of the transport: the same model, and connections with no other messages. -/
theorem Faithful.transported (h : s.Faithful) {s' : Mirror} (hmodel : s'.model = s.model)
    (htrees : s'.trees = s.trees) (hl : s'.link.Sound)
    (hlen : s'.link.connections.length = s.link.connections.length)
    (hcurrent : s'.link.current = s.link.current) (hobserver : s'.link.observer = s.link.observer)
    (hbeyond : ∀ k, s.link.connections.length ≤ k → s'.wire k = [])
    (hdone : ∀ k < s'.served, s'.wire k = [] ∧
      ∃ c, s'.link.connections[k]? = some c ∧ c.writer = .stopped)
    (hqueue : ∀ (k : Nat) c', s'.link.connections[k]? = some c' →
      ∃ c, s.link.connections[k]? = some c ∧ ∀ m ∈ c'.queue, m ∈ c.queue)
    (hheard : ∀ id, s'.heard id = s.heard id) : s'.Faithful where
  link := hl
  model := hmodel ▸ h.model
  observers := hmodel ▸ h.observers
  tree_mem := by
    rw [hmodel, htrees]
    exact h.tree_mem
  wire_beyond := by
    rw [hlen]
    exact hbeyond
  served_done := hdone
  queued := fun k c' hc' m hm => by
    obtain ⟨c, hc, hsub⟩ := hqueue k c' hc'
    rw [htrees]
    exact h.queued k c hc m (hsub m hm)
  attached := fun id hid => by
    rw [hobserver] at hid
    rw [hcurrent, hmodel]
    exact h.attached id hid
  mirrors := fun ha n id hn => by
    rw [Link.isAttached, hobserver] at ha
    rw [hmodel] at hn ⊢
    rw [hheard]
    exact h.mirrors ha n id hn

theorem heard_congr {s' : Mirror} (hlen : s'.link.connections.length = s.link.connections.length)
    (hunread : ∀ k < s.link.connections.length, s'.unreadAt k = s.unreadAt k)
    (he : s'.endpoint.state = s.endpoint.state) (id : RuleId) : s'.heard id = s.heard id := by
  have : s'.unread = s.unread := by
    unfold unread
    rw [hlen]
    refine List.flatMap_congr ?_
    intro k hk
    exact hunread k (List.mem_range.mp hk)
  rw [heard, heard, this, he]

/-- The lines that a step of a writer delivers. -/
def delivered : WriterEffect → List String
  | .delivered line => [line]
  | _ => []

/-- A message that may be queued has a line that pushes it. -/
theorem pushed?_of_encode {m : Wire.StateMessage} (hm : m.state.isDerived = false) {line : String}
    (h : (Wire.Message.state m).encode = .ok line) : pushed? line = some m := by
  obtain ⟨line', he, hd⟩ := Wire.decode_encode_state hm
  obtain rfl : line = line' := Except.ok.inj (h.symm.trans he)
  rw [pushed?, hd]

/-- A writer passes on what is queued, in order. -/
theorem unreadOf_step {c c' : Connection} {e : WriterEvent} {effect : WriterEffect}
    (hq : ∀ m ∈ c.queue, m.state.isDerived = false) (he : e ≠ .failed)
    (hs : c.step? e = some (c', effect)) (lines : List String) :
    unreadOf c' (lines ++ delivered effect) = unreadOf c lines ∧ ∀ m ∈ c'.queue, m ∈ c.queue := by
  have taken : ∀ {busy : String → Writer}, c.atHand = [] →
      (∀ line rest, ({ c with queue := rest, writer := busy line } : Connection).atHand = [line]) →
      c.take? busy = some c' →
      unreadOf c' (lines ++ delivered .nothing) = unreadOf c lines ∧ ∀ m ∈ c'.queue, m ∈ c.queue := by
    intro busy hhand hbusy ht
    unfold Connection.take? at ht
    split at ht
    next => cases ht
    next m rest hqueue =>
      have hm := hq m (hqueue ▸ List.mem_cons_self)
      obtain ⟨line, hline, _⟩ := Wire.decode_encode_state hm
      rw [hline] at ht
      cases ht
      refine ⟨?_, fun m' hm' => hqueue ▸ List.mem_cons_of_mem _ hm'⟩
      simp only [unreadOf, hbusy, hhand, hqueue, delivered, List.append_nil, List.filterMap_append,
        List.filterMap_cons, pushed?_of_encode hm hline, List.filterMap_nil, List.append_assoc]
      rfl
  cases e with
  | take =>
    simp only [Connection.step?] at hs
    split at hs
    next hw =>
      obtain ⟨c₁, ht, heq⟩ := Option.map_eq_some_iff.mp hs
      cases heq
      exact taken (by simp [Connection.atHand, hw]) (fun _ _ => rfl) ht
    next hw =>
      obtain ⟨c₁, ht, heq⟩ := Option.map_eq_some_iff.mp hs
      cases heq
      exact taken (by simp [Connection.atHand, hw]) (fun _ _ => rfl) ht
    next => cases hs
  | sent =>
    simp only [Connection.step?] at hs
    split at hs
    next line hw =>
      cases hs
      exact ⟨by simp [unreadOf, Connection.atHand, hw, delivered], fun _ hm => hm⟩
    next line hw =>
      cases hs
      exact ⟨by simp [unreadOf, Connection.atHand, hw, delivered], fun _ hm => hm⟩
    next => cases hs
  | failed => exact absurd rfl he
  | turn =>
    simp only [Connection.step?] at hs
    split at hs
    next hw =>
      cases hs
      exact ⟨by simp [unreadOf, Connection.atHand, hw.1, delivered], fun _ hm => hm⟩
    next => cases hs
  | finish =>
    simp only [Connection.step?] at hs
    split at hs
    next hw =>
      cases hs
      refine ⟨?_, by simp [Connection.stop]⟩
      simp [unreadOf, Connection.atHand, Connection.stop, hw.1, hw.2, delivered]
    next => cases hs

theorem step?_stopped {c : Connection} {e : WriterEvent} (h : c.writer = .stopped) :
    c.step? e = none := by
  cases e <;> simp [Connection.step?, h]

/-- A step of a writer, with the line that it puts on its way. -/
theorem writerStep?_spec {l link : Link} (h : l.Sound) {k : Nat} {e : WriterEvent} (he : e ≠ .failed)
    {line : Option String} (hs : l.writerStep? k e = some (link, line)) :
    ∃ c c' effect, l.connections[k]? = some c ∧ c.step? e = some (c', effect) ∧
      link = l.update k (fun _ => c') ∧ line.toList = delivered effect := by
  unfold Link.writerStep? at hs
  obtain ⟨c, hc, hs⟩ := Option.bind_eq_some_iff.mp hs
  obtain ⟨⟨c', effect⟩, hstep, hs⟩ := Option.bind_eq_some_iff.mp hs
  obtain ⟨-, -, hlost⟩ := (h.connection k c hc).step he hstep
  refine ⟨c, c', effect, hc, hstep, ?_⟩
  dsimp only at hs
  split at hs
  next => cases hs; exact ⟨rfl, rfl⟩
  next => exact absurd rfl hlost
  next hd _ =>
    cases hs
    refine ⟨rfl, ?_⟩
    cases effect with
    | delivered line => exact absurd rfl (hd line)
    | _ => rfl

/-- Whatever a writer does, the runtime has the same messages to read. -/
theorem unreadAt_written (h : s.Faithful) {k : Nat} {e : WriterEvent} (he : e ≠ .failed) {link : Link}
    {line : Option String} (hs : s.link.writerStep? k e = some (link, line)) (j : Nat) :
    ({ s with link, wire := Function.update s.wire k (s.wire k ++ line.toList) } :
      Mirror).unreadAt j = s.unreadAt j := by
  obtain ⟨c, c', effect, hc, hstep, rfl, hline⟩ := writerStep?_spec h.link he hs
  have hq : ∀ m ∈ c.queue, m.state.isDerived = false := fun m hm => (h.queued k c hc m hm).1
  unfold unreadAt
  dsimp only
  rw [Link.update_eq_some hc]
  by_cases hjk : k = j
  · subst hjk
    rw [if_pos rfl, hc, Function.update_self, hline]
    exact (unreadOf_step hq he hstep (s.wire k)).1
  · rw [if_neg hjk, Function.update_of_ne (Ne.symm hjk)]

theorem write_faithful (h : s.Faithful) {k : Nat} {e : WriterEvent} (he : e ≠ .failed) {link : Link}
    {line : Option String} (hs : s.link.writerStep? k e = some (link, line)) :
    ({ s with link, wire := Function.update s.wire k (s.wire k ++ line.toList) } : Mirror).Faithful := by
  have hunread := unreadAt_written h he hs
  obtain ⟨c, c', effect, hc, hstep, rfl, hline⟩ := writerStep?_spec h.link he hs
  obtain ⟨hsound, hclosing, -⟩ := (h.link.connection k c hc).step he hstep
  have hq : ∀ m ∈ c.queue, m.state.isDerived = false := fun m hm => (h.queued k c hc m hm).1
  have hsub := (unreadOf_step hq he hstep []).2
  have hklt := (List.getElem?_eq_some_iff.mp hc).1
  have hlookup : ∀ j : Nat, (s.link.update k fun _ => c').connections[j]? =
      if k = j then some c' else s.link.connections[j]? := Link.update_eq_some hc
  have hlen : (s.link.update k fun _ => c').connections.length = s.link.connections.length := by
    simp [Link.update]
  have hnot : ∀ j < s.served, j ≠ k := by
    rintro j hj rfl
    obtain ⟨_, c₀, h₀, hstop⟩ := h.served_done j hj
    obtain rfl : c₀ = c := Option.some.inj (h₀.symm.trans hc)
    rw [step?_stopped hstop] at hstep
    cases hstep
  refine h.transported rfl rfl (h.link.update hc hsound hclosing) hlen rfl rfl ?_ ?_ ?_
    (heard_congr hlen (fun j _ => hunread j) rfl)
  · intro j hj
    exact (Function.update_of_ne (by omega) _ _).trans (h.wire_beyond j hj)
  · intro j hj
    have hjk := hnot j hj
    obtain ⟨hw, d, hd, hstop⟩ := h.served_done j hj
    exact ⟨(Function.update_of_ne hjk _ _).trans hw, d,
      by rw [hlookup, if_neg (Ne.symm hjk)]; exact hd, hstop⟩
  · intro j d hd
    rw [hlookup] at hd
    split at hd
    next hjk =>
      subst hjk
      cases hd
      exact ⟨c, hc, hsub⟩
    next => exact ⟨d, hd, fun _ hm => hm⟩

theorem report_faithful (h : s.Faithful) (k : Nat) (text : String) :
    ({ s with link := s.link.read k (.line text) } : Mirror).Faithful := by
  obtain ⟨hconnections, hstate, hcurrent, hobserver⟩ := s.link.read_line_fields k text
  refine h.transported rfl rfl ⟨?_, ?_, ?_, ?_⟩ (by rw [hconnections]) hcurrent hobserver
    h.wire_beyond ?_ ?_ ?_
  · rw [hconnections]
    exact h.link.connection
  · rw [hstate, hcurrent]
    exact h.link.state_eq
  · rw [hconnections, hcurrent]
    exact h.link.current_last
  · rw [hconnections, hcurrent]
    exact h.link.others_closing
  · dsimp only
    rw [hconnections]
    exact h.served_done
  · dsimp only
    rw [hconnections]
    exact fun j c hc => ⟨c, hc, fun _ hm => hm⟩
  · refine heard_congr (by rw [hconnections]) (fun j _ => ?_) rfl
    unfold unreadAt
    dsimp only
    rw [hconnections]

theorem accept_faithful (h : s.Faithful) {endpoint : Endpoint}
    (he : s.endpoint.accept? = some endpoint) : ({ s with endpoint } : Mirror).Faithful := by
  obtain rfl : { s.endpoint with connected := true } = endpoint := by
    unfold Endpoint.accept? at he
    split at he
    next => cases he
    next => exact Option.some.inj he
  exact h.transported rfl rfl h.link rfl rfl rfl h.wire_beyond h.served_done
    (fun k c hc => ⟨c, hc, fun _ hm => hm⟩) (heard_congr rfl (fun _ _ => rfl) rfl)

/-- A list that is cut at the front of its first piece that is not empty. -/
theorem flatMap_range_eq {α : Type} {f g : Nat → List α} {front : List α} {n k : Nat} (hk : k < n)
    (before : ∀ j < k, f j = [] ∧ g j = []) (first : f k = front ++ g k)
    (after : ∀ j, k < j → f j = g j) :
    (List.range n).flatMap f = front ++ (List.range n).flatMap g := by
  have nothing : ∀ {h : Nat → List α}, (∀ j < k, h j = []) → (List.range k).flatMap h = [] :=
    fun hh => List.flatMap_eq_nil_iff.mpr fun j hj => hh j (List.mem_range.mp hj)
  induction n with
  | zero => cases hk
  | succ n ih =>
    rw [List.range_succ, List.flatMap_append, List.flatMap_append, List.flatMap_singleton,
      List.flatMap_singleton]
    rcases Nat.lt_or_ge k n with hlt | hge
    · rw [ih hlt, after n hlt, List.append_assoc]
    · obtain rfl : n = k := by omega
      rw [nothing fun j hj => (before j hj).1, nothing fun j hj => (before j hj).2, first]
      rfl

theorem read_of_pushed {line : String} {m : Wire.StateMessage} (h : pushed? line = some m)
    (e : Endpoint) : e.read line =
      { e with table := Table.put m.rule m.state e.table, received := e.received ++ [m] } := by
  unfold pushed? at h
  split at h
  next m' hd =>
    cases h
    rw [Endpoint.read, hd]
  next => cases h

theorem read_of_not_pushed {line : String} (h : pushed? line = none) (e : Endpoint) :
    e.read line = e := by
  unfold Endpoint.read
  split
  next m hd =>
    rw [pushed?, hd] at h
    cases h
  next => rfl

theorem read_fields (e : Endpoint) (line : String) :
    (e.read line).outbound = e.outbound ∧ (e.read line).connected = e.connected := by
  unfold Endpoint.read
  split <;> exact ⟨rfl, rfl⟩

/-- What a line pushes is known once it is read. -/
theorem read_state (e : Endpoint) (line : String) (id : RuleId) :
    (e.read line).state id = (latest? Wire.StateMessage.rule Wire.StateMessage.state id
      (pushed? line).toList).getD (e.state id) := by
  cases hp : pushed? line with
  | some m =>
    rw [read_of_pushed hp, Option.toList_some, latest?_singleton]
    by_cases hid : m.rule = id
    · subst hid
      simp [Endpoint.state, Table.get?_put_self]
    · simp [Endpoint.state, Table.get?_put_of_ne (Ne.symm hid), hid]
  | none =>
    rw [read_of_not_pushed hp]
    rfl

theorem serve_faithful (h : s.Faithful) {line : String} {rest : List String}
    (hw : s.wire s.served = line :: rest) :
    ({ s with endpoint := s.endpoint.read line, wire := Function.update s.wire s.served rest } :
      Mirror).Faithful := by
  have hk : s.served < s.link.connections.length := by
    by_contra hge
    rw [h.wire_beyond s.served (by omega)] at hw
    cases hw
  have other : ∀ j, j ≠ s.served → Function.update s.wire s.served rest j = s.wire j :=
    fun j hj => Function.update_of_ne hj _ _
  refine h.transported rfl rfl h.link rfl rfl rfl ?_ ?_ (fun k c hc => ⟨c, hc, fun _ hm => hm⟩) ?_
  · intro j hj
    exact (other j (by omega)).trans (h.wire_beyond j hj)
  · intro j hj
    have hj : j < s.served := hj
    obtain ⟨hwj, hdone⟩ := h.served_done j hj
    exact ⟨(other j (by omega)).trans hwj, hdone⟩
  · intro id
    set s' : Mirror := { s with
      endpoint := s.endpoint.read line
      wire := Function.update s.wire s.served rest }
    have hunread : s.unread = (pushed? line).toList ++ s'.unread := by
      refine flatMap_range_eq hk ?_ ?_ ?_
      · intro j hj
        obtain ⟨hwj, c, hc, hstop⟩ := h.served_done j hj
        have hq := (h.link.connection j c hc).queue_stopped hstop
        have hhand : c.atHand = [] := by simp [Connection.atHand, hstop]
        have hwj' : s'.wire j = [] := (other j (by omega)).trans hwj
        have hc' : s'.link.connections[j]? = some c := hc
        constructor
        · simp [unreadAt, hc, unreadOf, hwj, hhand, hq]
        · simp [unreadAt, hc', unreadOf, hwj', hhand, hq]
      · obtain ⟨c, hc⟩ : ∃ c, s.link.connections[s.served]? = some c :=
          ⟨_, List.getElem?_eq_getElem hk⟩
        have hc' : s'.link.connections[s.served]? = some c := hc
        have hw' : s'.wire s.served = rest := Function.update_self _ _ _
        simp only [unreadAt, hc, hc', hw, hw', unreadOf, List.cons_append, List.filterMap_cons]
        cases pushed? line <;> rfl
      · intro j hj
        have hwj : s'.wire j = s.wire j := other j (by omega)
        unfold unreadAt
        rw [hwj]
    have hread : s'.endpoint.state id = _ := read_state s.endpoint line id
    rw [heard, heard, hunread, latest?_append, hread]
    cases latest? Wire.StateMessage.rule Wire.StateMessage.state id s'.unread <;> rfl

/-- Nobody is left to read on a connection that has ended. -/
theorem read_ended_of_stopped {l : Link} (h : l.Sound) {k : Nat} {c : Connection}
    (hc : l.connections[k]? = some c) (hstop : c.writer = .stopped) : l.read k .ended = l := by
  have hsound := h.connection k c hc
  have hreading : c.reading = false := by
    refine hsound.reading_closed ?_
    by_contra hclosing
    rcases hsound.writer_open (by simpa using hclosing) with hx | ⟨line, hx⟩ <;> simp [hstop] at hx
  unfold Link.read
  rw [hc]
  simp [hreading]

theorem hangUp_faithful (h : s.Faithful) (hw : s.wire s.served = [])
    (hstop : s.link.connections[s.served]?.map Connection.writer = some .stopped) :
    ({ s with
      link := s.link.read s.served .ended
      endpoint := s.endpoint.release
      served := s.served + 1 } : Mirror).Faithful := by
  obtain ⟨c, hc, hstop⟩ := Option.map_eq_some_iff.mp hstop
  rw [read_ended_of_stopped h.link hc hstop]
  refine h.transported rfl rfl h.link rfl rfl rfl h.wire_beyond ?_
    (fun k c hc => ⟨c, hc, fun _ hm => hm⟩) (heard_congr rfl (fun _ _ => rfl) rfl)
  intro j hj
  rcases Nat.lt_succ_iff_lt_or_eq.mp hj with hj | rfl
  · exact h.served_done j hj
  · exact ⟨hw, c, hc, hstop⟩

theorem step_faithful (h : s.Faithful) {s' : Mirror} {move : Move} (hs : s.step? move = some s') :
    s'.Faithful := by
  cases move with
  | connect addr dial =>
    cases hs
    exact connect_faithful h addr dial
  | attach =>
    cases hs
    exact attach_faithful h
  | detach =>
    cases hs
    exact detach_faithful h
  | disconnect =>
    cases hs
    exact disconnect_faithful h
  | edit e =>
    simp only [step?] at hs
    split at hs
    next u hu =>
      cases hs
      exact edit_faithful h hu
    next =>
      cases hs
      exact h
  | replace resolve sourceRoot l actions =>
    simp only [step?] at hs
    split at hs
    next m hb =>
      cases hs
      have hm := RuleModel.build_consistent hb
      exact replace_faithful h (RuleModel.run_consistent hm actions).1
        (RuleModel.run_fresh (RuleModel.build_fresh hb) hm actions)
    next => cases hs
  | write k e =>
    simp only [step?] at hs
    split at hs
    next => cases hs
    next he =>
      split at hs
      next link line hw =>
        cases hs
        exact write_faithful h he hw
      next => cases hs
  | report k text =>
    cases hs
    exact report_faithful h k text
  | accept =>
    simp only [step?] at hs
    split at hs
    next =>
      obtain ⟨endpoint, he, rfl⟩ := Option.map_eq_some_iff.mp hs
      exact accept_faithful h he
    next => cases hs
  | serve =>
    simp only [step?] at hs
    split at hs
    next =>
      split at hs
      next line rest hw =>
        cases hs
        exact serve_faithful h hw
      next => cases hs
    next => cases hs
  | hangUp =>
    simp only [step?] at hs
    split at hs
    next hcond =>
      cases hs
      exact hangUp_faithful h hcond.2.1 hcond.2.2
    next => cases hs

theorem run_faithful (h : s.Faithful) {s' : Mirror} {moves : List Move}
    (hs : s.run? moves = some s') : s'.Faithful := by
  induction moves generalizing s with
  | nil =>
    cases hs
    exact h
  | cons move rest ih =>
    obtain ⟨s₁, h₁, hrest⟩ := Option.bind_eq_some_iff.mp hs
    exact ih (step_faithful h h₁) hrest

theorem Faithful.knows (h : s.Faithful) (ha : s.link.isAttached = true) (hc : s.CaughtUp)
    {id : RuleId} {n : Nat} (hn : s.model.tree.rule? id = some n) :
    s.endpoint.state id = s.model.state n := by
  rw [← heard_of_caughtUp hc id]
  refine h.mirrors ha n id ?_
  exact (h.model.wellFormed.sound.mem_rules_iff id n).mp (Table.mem_of_get? hn)

/-- After any moves: when the link is attached and the runtime has processed every line, it knows
the state of every rule of the current model; and every message that waits in a queue has a line
that is read back as the state it pushes, a selectable one, of a rule of a model so far. -/
theorem run_mirrors {resolve : String → AbsPath} {sourceRoot : String} {l : Location}
    {m : RuleModel} (built : RuleModel.build resolve sourceRoot l = .ok m) (actions : List Action)
    (timeout : Nat) (addr : Address) {moves : List Move} {s : Mirror}
    (hs : (start (m.run actions) timeout addr).run? moves = some s) :
    (s.link.isAttached = true → s.CaughtUp → ∀ id n, s.model.tree.rule? id = some n →
      s.endpoint.state id = s.model.state n) ∧
    ∀ (k : Nat) c, s.link.connections[k]? = some c → ∀ message ∈ c.queue,
      (∃ line, (Wire.Message.state message).encode = .ok line ∧
        Wire.decode line = .ok (some (.state message))) ∧
      message.state ∈ LoggingState.selectable ∧
      ∃ t ∈ s.trees, (t.rule? message.rule).isSome := by
  have hm := RuleModel.build_consistent built
  have h := run_faithful (start_faithful (RuleModel.run_consistent hm actions).1
    (RuleModel.run_fresh (RuleModel.build_fresh built) hm actions) timeout addr) hs
  constructor
  · exact fun ha hc id n hn => h.knows ha hc hn
  · intro k c hc message hmem
    obtain ⟨hsel, t, ht, n, hn⟩ := h.queued k c hc message hmem
    refine ⟨Wire.decode_encode_state hsel, (LoggingState.isDerived_eq_false_iff _).mp hsel, t, ht, ?_⟩
    rw [Option.isSome_iff_ne_none, RuleTree.rule?, Ne, Table.get?_eq_none_iff, not_not]
    exact List.mem_map.mpr ⟨_, hn, rfl⟩

end

instance (s : Mirror) : Decidable s.CaughtUp :=
  decidable_of_iff (∀ k < s.link.connections.length, ∀ c ∈ s.link.connections[k]?,
      c.queue = [] ∧ c.atHand = [] ∧ s.wire k = [])
    ⟨fun h k c hc => h k (List.getElem?_eq_some_iff.mp hc).1 c hc, fun h k _ c hc => h k c hc⟩

/-- An import with one rule. -/
def rateLocation : Location :=
  ⟨"rules", 1, .imported none [], [⟨"rate", 2, .rule ⟨8, by decide, by decide⟩ "rate > 0" [], []⟩]⟩

/-- The rule is set while its first state is being written; the new state arrives after it. -/
def rateMoves : List Move :=
  [.connect "127.0.0.1:7777" .accepted, .write 0 .take, .edit (.setState 1 .always), .write 0 .sent,
    .accept, .serve, .write 0 .take, .write 0 .sent, .serve]

theorem run_mirrors_rate : ∃ m s,
    RuleModel.build (AbsPath.lexical AbsPath.root) "/src" rateLocation = .ok m ∧
    (start (m.run []) 5000 ⟨[127, 0, 0, 1], 0, 7777⟩).run? rateMoves = some s ∧
    s.link.isAttached = true ∧ s.CaughtUp ∧ s.endpoint.state ⟨8, by decide, by decide⟩ = .always := by
  have seen : ((RuleModel.build (AbsPath.lexical AbsPath.root) "/src" rateLocation).toOption.bind
      fun m => ((start (m.run []) 5000 ⟨[127, 0, 0, 1], 0, 7777⟩).run? rateMoves).map fun s =>
        decide (s.link.isAttached = true ∧ s.CaughtUp ∧
          s.model.tree.rule? ⟨8, by decide, by decide⟩ = some 1 ∧ s.model.state 1 = .always)) =
        some true := by
    decide +kernel
  obtain ⟨m, hm, hrun⟩ := Option.bind_eq_some_iff.mp seen
  obtain ⟨s, hs, hfacts⟩ := Option.map_eq_some_iff.mp hrun
  obtain ⟨hattached, caughtUp, hrule, hstate⟩ := of_decide_eq_true hfacts
  have built : RuleModel.build (AbsPath.lexical AbsPath.root) "/src" rateLocation = .ok m :=
    eq_ok_of_toOption hm
  have mirrors := (run_mirrors built [] 5000 _ hs).1 hattached caughtUp _ 1 hrule
  exact ⟨m, s, built, hs, hattached, caughtUp, mirrors.trans hstate⟩

end RuleScope.Mirror
