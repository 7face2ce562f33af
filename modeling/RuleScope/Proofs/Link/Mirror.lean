import Mathlib.Logic.Function.Basic
import RuleScope.Link.Endpoint
import RuleScope.Proofs.Link.Soundness
import RuleScope.Proofs.Wire.RoundTrip

namespace RuleScope

structure Mirror where
  link : Link
  model : RuleModel
  endpoint : Endpoint
  /-- The lines on their way to the runtime, by connection. -/
  wire : Nat → List String
  /-- How many connections the runtime has served to their end. -/
  served : Nat
  /-- The trees of all models so far. -/
  trees : List RuleTree

namespace Mirror

inductive Move where
  | connect (addr : String) (dial : Dial)
  | attach
  | detach
  | disconnect
  | edit (e : Edit)
  /-- A new model takes the place of the current one, and the link is told at once. -/
  | replace (resolve : String → AbsPath) (sourceRoot : String) (l : Location) (actions : List Action)
  /-- The writer of a connection takes a step; writes succeed. -/
  | write (k : Nat) (e : WriterEvent)
  /-- The runtime reports something. -/
  | report (k : Nat) (text : String)
  /-- The runtime accepts the next connection. -/
  | accept
  /-- The runtime reads a line. -/
  | serve
  /-- The runtime meets the end of the connection. -/
  | hangUp

def start (m : RuleModel) (timeout : Nat) (addr : Address) : Mirror :=
  ⟨Link.new timeout, m, Endpoint.new addr, fun _ => [], 0, [m.tree]⟩

/-- One move, if it can be made. -/
def step? (s : Mirror) : Move → Option Mirror
  | .connect addr dial =>
    let (link, model, _) := s.link.connect addr dial s.model
    some { s with link, model }
  | .attach =>
    let (link, model, _) := s.link.attach s.model
    some { s with link, model }
  | .detach =>
    let (link, model) := s.link.detach s.model
    some { s with link, model }
  | .disconnect =>
    let (link, model) := s.link.disconnect s.model
    some { s with link, model }
  | .edit e =>
    match s.model.edit? e with
    | some u => some { s with link := s.link.forward u.model u.notices, model := u.model }
    | none => some s
  | .replace resolve sourceRoot l actions =>
    match RuleModel.build resolve sourceRoot l with
    | .ok m =>
      let (link, model, _) := s.link.modelReplaced (m.run actions)
      some { s with link, model, trees := s.trees ++ [model.tree] }
    | .error _ => none
  | .write k e =>
    if e = .failed then none
    else match s.link.writerStep? k e with
      | some (link, line) =>
        some { s with link, wire := Function.update s.wire k (s.wire k ++ line.toList) }
      | none => none
  | .report k text => some { s with link := s.link.read k (.line text) }
  | .accept =>
    if s.served < s.link.connections.length then
      s.endpoint.accept?.map fun endpoint => { s with endpoint }
    else none
  | .serve =>
    if s.endpoint.connected then
      match s.wire s.served with
      | line :: rest => some { s with
          endpoint := s.endpoint.read line
          wire := Function.update s.wire s.served rest }
      | [] => none
    else none
  | .hangUp =>
    if s.endpoint.connected ∧ s.wire s.served = [] ∧
        (s.link.connections[s.served]?.map Connection.writer) = some .stopped then
      some { s with
        link := s.link.read s.served .ended
        endpoint := s.endpoint.release
        served := s.served + 1 }
    else none

def run? (s : Mirror) (moves : List Move) : Option Mirror := moves.foldlM step? s

end Mirror

def Connection.atHand (c : Connection) : List String :=
  match c.writer with
  | .writing line | .flushingLine line => [line]
  | _ => []

namespace Mirror

/-- The runtime has processed every line queued so far. -/
def CaughtUp (s : Mirror) : Prop :=
  ∀ (k : Nat) c, s.link.connections[k]? = some c → c.queue = [] ∧ c.atHand = [] ∧ s.wire k = []

/-- A message that may be queued: a state that can be selected, of a rule of a model so far. -/
def Proper (trees : List RuleTree) (m : Wire.StateMessage) : Prop :=
  m.state.isDerived = false ∧ ∃ t ∈ trees, ∃ n, (m.rule, n) ∈ t.rules

def pushed? (line : String) : Option Wire.StateMessage :=
  match Wire.decode line with
  | .ok (some (.state m)) => some m
  | _ => none

/-- The messages of a connection that the runtime has not read, given the lines on their way. -/
def unreadOf (c : Connection) (lines : List String) : List Wire.StateMessage :=
  (lines ++ c.atHand).filterMap pushed? ++ c.queue

def unreadAt (s : Mirror) (k : Nat) : List Wire.StateMessage :=
  match s.link.connections[k]? with
  | some c => unreadOf c (s.wire k)
  | none => []

/-- All that the runtime has not read, in the order in which it will. -/
def unread (s : Mirror) : List Wire.StateMessage :=
  (List.range s.link.connections.length).flatMap s.unreadAt

/-- What the runtime will know of a rule when it has read everything. -/
def heard (s : Mirror) (id : RuleId) : LoggingState :=
  (latest? Wire.StateMessage.rule Wire.StateMessage.state id s.unread).getD (s.endpoint.state id)

/-- What is true at every moment. -/
structure Faithful (s : Mirror) : Prop where
  link : s.link.Sound
  model : s.model.Consistent
  observers : s.model.observers.Fresh
  tree_mem : s.model.tree ∈ s.trees
  wire_beyond : ∀ k, s.link.connections.length ≤ k → s.wire k = []
  served_done : ∀ k < s.served, s.wire k = [] ∧
    ∃ c, s.link.connections[k]? = some c ∧ c.writer = .stopped
  queued : ∀ (k : Nat) c, s.link.connections[k]? = some c → ∀ m ∈ c.queue, Proper s.trees m
  attached : ∀ id, s.link.observer = some id → ∃ k, s.link.current = some k ∧ s.model.Watched id k
  mirrors : s.link.isAttached = true → ∀ n id, s.model.tree.ruleId? n = some id →
    s.heard id = s.model.state n

section

variable {s : Mirror}

theorem Proper.mono {trees trees' : List RuleTree} {m : Wire.StateMessage} (h : Proper trees m)
    (hsub : ∀ t ∈ trees, t ∈ trees') : Proper trees' m := by
  obtain ⟨hs, t, ht, hn⟩ := h
  exact ⟨hs, t, hsub t ht, hn⟩

/-- Once everything is read, nothing more will be heard. -/
theorem heard_of_caughtUp (h : s.CaughtUp) (id : RuleId) : s.heard id = s.endpoint.state id := by
  have none : s.unread = [] := by
    refine List.flatMap_eq_nil_iff.mpr fun k _ => ?_
    unfold unreadAt
    split
    next c hc =>
      obtain ⟨hq, hh, hw⟩ := h k c hc
      simp [unreadOf, hq, hh, hw]
    next => rfl
  rw [heard, none]
  rfl

theorem start_faithful {m : RuleModel} (hm : m.Consistent) (hf : m.observers.Fresh) (timeout : Nat)
    (addr : Address) : (start m timeout addr).Faithful where
  link := Link.sound_new timeout
  model := hm
  observers := hf
  tree_mem := List.mem_singleton.mpr rfl
  wire_beyond := fun _ _ => rfl
  served_done := fun k hk => absurd hk (Nat.not_lt_zero k)
  queued := by simp [start, Link.new]
  attached := by simp [start, Link.new]
  mirrors := by simp [start, Link.new, Link.isAttached]

/-- A step of the link and the model that leaves the lines on their way as they are. -/
theorem Faithful.moved (h : s.Faithful) {link : Link} {model : RuleModel} {trees : List RuleTree}
    (hl : link.Sound) (hg : s.link.Grown link (Proper trees)) (hm : model.Consistent)
    (hf : model.observers.Fresh) (hsub : ∀ t ∈ s.trees, t ∈ trees) (ht : model.tree ∈ trees)
    (ha : ∀ id, link.observer = some id → ∃ k, link.current = some k ∧ model.Watched id k)
    (hs : link.isAttached = true → ∀ n id, model.tree.ruleId? n = some id →
      ({ s with link, model, trees } : Mirror).heard id = model.state n) :
    ({ s with link, model, trees } : Mirror).Faithful where
  link := hl
  model := hm
  observers := hf
  tree_mem := ht
  wire_beyond := fun k hk => h.wire_beyond k (Nat.le_trans hg.length_le hk)
  served_done := fun k hk => by
    obtain ⟨hw, c, hc, hstop⟩ := h.served_done k hk
    obtain ⟨c', hc', he⟩ := hg.writer_kept k c hc
    exact ⟨hw, c', hc', he.trans hstop⟩
  queued := fun k c hc m hm => by
    rcases hg.queue_new k c hc m hm with ⟨c₀, h₀, hm⟩ | hm
    · exact (h.queued k c₀ h₀ m hm).mono hsub
    · exact hm
  attached := ha
  mirrors := hs

theorem Faithful.unattached (h : s.Faithful) {link : Link} {model : RuleModel}
    {trees : List RuleTree} (hl : link.Sound) (hg : s.link.Grown link (Proper trees))
    (ho : link.observer = none) (hm : model.Consistent) (hf : model.observers.Fresh)
    (hsub : ∀ t ∈ s.trees, t ∈ trees) (ht : model.tree ∈ trees) :
    ({ s with link, model, trees } : Mirror).Faithful := by
  refine h.moved hl hg hm hf hsub ht (fun id hid => ?_) (fun ha => ?_)
  · rw [ho] at hid
    cases hid
  · rw [Link.isAttached, ho] at ha
    cases ha

/-- What is fed to a connection stands behind everything else on it. -/
theorem unreadAt_fed {s' : Mirror} {messages : Nat → List Wire.StateMessage}
    (hf : s.link.Fed s'.link messages) (hw : s'.wire = s.wire) (k : Nat) :
    ∃ more, s'.unreadAt k = s.unreadAt k ++ more ∧ (more = messages k ∨ more = []) ∧
      ∀ c, s.link.connections[k]? = some c → c.accepts = true → more = messages k := by
  unfold unreadAt
  rw [hf.connection k, hw]
  cases hc : s.link.connections[k]? with
  | none => exact ⟨[], rfl, Or.inr rfl, fun c hc => by cases hc⟩
  | some c =>
    refine ⟨if c.accepts then messages k else [], ?_, ?_, ?_⟩
    · simp only [Option.map_some, unreadOf, Connection.atHand, Connection.feed_writer,
        Connection.feed_queue, List.append_assoc]
    · by_cases ha : c.accepts = true
      · exact Or.inl (if_pos ha)
      · exact Or.inr (if_neg ha)
    · intro c' hc' ha
      cases hc'
      exact if_pos ha

/-- Of a rule that some messages do not mention, the same is heard when they are fed. -/
theorem heard_fed_of_not_mem (s s' : Mirror) {messages : Nat → List Wire.StateMessage}
    (hf : s.link.Fed s'.link messages) (hw : s'.wire = s.wire)
    (he : s'.endpoint.state = s.endpoint.state) {id : RuleId}
    (hnot : ∀ k, ∀ m ∈ messages k, m.rule ≠ id) : s'.heard id = s.heard id := by
  have same : s'.unread.filter (·.rule = id) = s.unread.filter (·.rule = id) := by
    unfold unread
    rw [List.filter_flatMap, List.filter_flatMap, hf.length_eq]
    refine List.flatMap_congr ?_
    intro k _
    obtain ⟨more, hmore, hcase, _⟩ := unreadAt_fed hf hw k
    have hnone : more.filter (·.rule = id) = [] := by
      refine List.filter_eq_nil_iff.mpr fun m hm => ?_
      rcases hcase with rfl | rfl
      · simpa using hnot k m hm
      · cases hm
    rw [hmore, List.filter_append, hnone, List.append_nil]
  have := congrArg (latest? Wire.StateMessage.rule Wire.StateMessage.state id) same
  rw [latest?_filter, latest?_filter] at this
  rw [heard, heard, this, he]

/-- What is fed to the open connection prevails over all that the runtime has not read yet. -/
theorem heard_fed (s s' : Mirror) {messages : Nat → List Wire.StateMessage} (hl : s.link.Sound)
    (hf : s.link.Fed s'.link messages) (hw : s'.wire = s.wire) {k : Nat}
    (hk : s.link.current = some k) {id : RuleId} {state : LoggingState}
    (hlast : latest? Wire.StateMessage.rule Wire.StateMessage.state id (messages k) = some state) :
    s'.heard id = state := by
  obtain ⟨c, hc, hclosing, hlen⟩ := hl.current_last k hk
  obtain ⟨more, hmore, _, hopen⟩ := unreadAt_fed hf hw k
  obtain rfl := hopen c hc ((hl.connection k c hc).accepts hclosing)
  unfold heard unread
  rw [hf.length_eq, hlen, List.range_succ, List.flatMap_append, List.flatMap_singleton, hmore,
    latest?_append, latest?_append, hlast]
  rfl

theorem table_proper {m : RuleModel} (hm : m.Consistent) {trees : List RuleTree}
    (ht : m.tree ∈ trees) : ∀ message ∈ m.table, Proper trees message := by
  intro message hmem
  obtain ⟨n, hn, _⟩ := RuleModel.mem_table_iff.mp hmem
  exact ⟨RuleModel.table_selectable hm message hmem, m.tree, ht, n, hn⟩

/-- The last that a table says of a rule is its state. -/
theorem latest?_table {m : RuleModel} (hm : m.Consistent) {n : Nat} {id : RuleId}
    (hn : m.tree.ruleId? n = some id) :
    latest? Wire.StateMessage.rule Wire.StateMessage.state id m.table = some (m.state n) := by
  have sound := hm.wellFormed.sound
  refine latest?_eq_some _ _ _ ⟨⟨id, m.state n⟩, ?_, rfl⟩ fun message hmem he => ?_
  · exact RuleModel.mem_table_iff.mpr ⟨n, (sound.mem_rules_iff id n).mpr hn, rfl⟩
  · obtain ⟨k, hk, hs⟩ := RuleModel.mem_table_iff.mp hmem
    rw [he] at hk
    rw [hs, sound.ruleId?_inj ((sound.mem_rules_iff id k).mp hk) hn]

theorem detach_faithful (h : s.Faithful) :
    ({ s with link := (s.link.detach s.model).1, model := (s.link.detach s.model).2 } :
      Mirror).Faithful := by
  obtain ⟨hlink, observers, hfresh, hmodel⟩ := Link.detach_spec s.link h.observers
  rw [hlink, hmodel]
  exact h.unattached (h.link.withObserver none)
    ⟨fun _ c hc => ⟨c, hc, rfl⟩, fun _ c hc _ hm => Or.inl ⟨c, hc, hm⟩⟩ rfl
    (h.model.withObservers observers) hfresh (fun _ ht => ht) h.tree_mem

theorem attach_faithful (h : s.Faithful) :
    ({ s with link := (s.link.attach s.model).1, model := (s.link.attach s.model).2.1 } :
      Mirror).Faithful := by
  rcases Link.attach_spec h.link h.model h.observers with
    ⟨_, hlink, hmodel⟩ | ⟨k, id, l₁, hk, hfed, hlink, observers, hfresh, hmodel, hwatched⟩
  · rw [hlink, hmodel]
    exact detach_faithful h
  · rw [hmodel] at hwatched
    rw [hlink, hmodel]
    have hsound := ((h.link.withObserver none).fed hfed).withObserver (some id)
    have hgrown := hfed.grown (P := Proper s.trees) fun j message hm => by
      split at hm
      next => exact table_proper h.model h.tree_mem message hm
      next => cases hm
    refine h.moved hsound ⟨hgrown.writer_kept, hgrown.queue_new⟩
      (h.model.withObservers observers) hfresh (fun _ ht => ht) h.tree_mem ?_ ?_
    · intro id' hid
      cases hid
      exact ⟨k, hfed.current_eq.trans hk, hwatched⟩
    · intro _ n rule hn
      refine heard_fed { s with link := { s.link with observer := none } }
        { s with link := l₁ } (h.link.withObserver none) hfed rfl hk ?_
      rw [if_pos rfl]
      exact latest?_table h.model hn

theorem disconnect_faithful (h : s.Faithful) :
    ({ s with link := (s.link.disconnect s.model).1, model := (s.link.disconnect s.model).2 } :
      Mirror).Faithful := by
  have hd := detach_faithful h
  obtain ⟨hsound, hgrown⟩ := Link.close_sound (P := Proper s.trees) hd.link
  obtain ⟨_, _, hobserver⟩ := Link.close_fields (s.link.detach s.model).1
  exact hd.unattached hsound hgrown hobserver hd.model hd.observers (fun _ ht => ht) hd.tree_mem

theorem connect_faithful (h : s.Faithful) (addr : String) (dial : Dial) :
    ({ s with
      link := (s.link.connect addr dial s.model).1
      model := (s.link.connect addr dial s.model).2.1 } : Mirror).Faithful := by
  have hd := disconnect_faithful h
  obtain ⟨hstate, hcurrent, hobserver⟩ := Link.close_fields (s.link.detach s.model).1
  set l := (s.link.disconnect s.model).1 with hl
  have hcurrent : l.current = none := hcurrent
  have hobserver : l.observer = none := hobserver
  obtain ⟨hcs, hcc, hco⟩ := l.publish_fields .connecting
  -- A failed attempt publishes two states and changes nothing else.
  have failed : ({ s with
      link := (l.publish .connecting).publish .disconnected
      model := (s.link.disconnect s.model).2 } : Mirror).Faithful := by
    obtain ⟨hds, hdc, hdo⟩ := (l.publish .connecting).publish_fields .disconnected
    have hconnections := hds.trans hcs
    refine hd.unattached ⟨?_, ?_, ?_, ?_⟩ ⟨?_, ?_⟩ ((hdo.trans hco).trans hobserver) hd.model
      hd.observers (fun _ ht => ht) hd.tree_mem
    · rw [hconnections]
      exact hd.link.connection
    · rw [Link.publish_state, hdc, hcc, hcurrent]
      rfl
    · rw [hdc, hcc, hcurrent]
      simp
    · rw [hconnections, hdc, hcc]
      exact hd.link.others_closing
    · rw [hconnections]
      exact fun k c hc => ⟨c, hc, rfl⟩
    · rw [hconnections]
      exact fun k c hc m hm => Or.inl ⟨c, hc, hm⟩
  unfold Link.connect
  cases dial with
  | refused => exact failed
  | invalid => exact failed
  | silent => exact failed
  | accepted =>
    let opened : Link := { l.publish .connecting with
      current := some (l.publish .connecting).connections.length
      connections := (l.publish .connecting).connections ++ [Connection.fresh addr] }
    obtain ⟨hos, hoc, hoo⟩ := opened.publish_fields .connected
    have hconnections : (opened.publish .connected).connections =
        l.connections ++ [Connection.fresh addr] := by rw [hos, ← hcs]
    obtain ⟨hsound, hgrown⟩ := Link.open_sound (P := Proper s.trees) hd.link hcurrent hconnections
      (by rw [hoc, ← hcs]) (Link.publish_state _ _)
    have ready : ({ s with
        link := opened.publish .connected
        model := (s.link.disconnect s.model).2 } : Mirror).Faithful :=
      hd.unattached hsound hgrown ((hoo.trans hco).trans hobserver) hd.model hd.observers
        (fun _ ht => ht) hd.tree_mem
    have attached := attach_faithful ready
    exact attached

theorem replace_faithful (h : s.Faithful) {m : RuleModel} (hm : m.Consistent)
    (hf : m.observers.Fresh) :
    ({ s with
      link := (s.link.modelReplaced m).1
      model := (s.link.modelReplaced m).2.1
      trees := s.trees ++ [(s.link.modelReplaced m).2.1.tree] } : Mirror).Faithful := by
  have quiet : ({ s with
      link := { s.link with observer := none }
      model := m
      trees := s.trees ++ [m.tree] } : Mirror).Faithful :=
    h.unattached (h.link.withObserver none)
      ⟨fun _ c hc => ⟨c, hc, rfl⟩, fun _ c hc _ hm => Or.inl ⟨c, hc, hm⟩⟩ rfl hm hf
      (fun _ ht => List.mem_append_left _ ht) (List.mem_append_right _ (List.mem_singleton.mpr rfl))
  unfold Link.modelReplaced
  dsimp only
  split
  next =>
    have ha := attach_faithful quiet
    have htree : (({ s.link with observer := none } : Link).attach m).2.1.tree = m.tree := by
      rcases Link.attach_spec quiet.link hm hf with
        ⟨_, _, hmodel⟩ | ⟨k, id, l₁, _, _, _, observers, _, hmodel, _⟩
      · obtain ⟨_, observers, _, hdetached⟩ := Link.detach_spec { s.link with observer := none } hf
        rw [hmodel, hdetached]
      · rw [hmodel]
    rw [htree]
    exact ha
  next => exact quiet

/-- A change of the model is told to the connections that follow it. -/
theorem edit_faithful (h : s.Faithful) {e : Edit} {u : Update} (hu : s.model.edit? e = some u) :
    ({ s with link := s.link.forward u.model u.notices, model := u.model } : Mirror).Faithful := by
  have hfrom := RuleModel.edit?_from h.model hu
  have sound := h.model.wellFormed.sound
  have allowed := hfrom.allowed h.model
  have hfed := Link.forward_fed u.model s.link u.notices
  rw [Update.notices, hfrom.observers_eq] at hfed
  have hsame : ∀ k, Link.told u.model k (s.model.observers.notices u.changes) =
      Link.told s.model k (s.model.observers.notices u.changes) := fun k => by
    rw [Link.told, Link.told, hfrom.observers_eq]
  simp only [hsame] at hfed
  rw [Update.notices, hfrom.observers_eq]
  have proper : ∀ k, ∀ m ∈ Link.told s.model k (s.model.observers.notices u.changes),
      Proper s.trees m := fun k m hm => by
    obtain ⟨c, hc, hrule, hstate⟩ := Link.mem_told hm
    have hallow := allowed c hc
    have hid : s.model.tree.ruleId? c.node = some m.rule := by rw [← hallow.rule_eq, hrule]
    refine ⟨?_, s.model.tree, h.tree_mem, c.node, (sound.mem_rules_iff _ _).mpr hid⟩
    rw [hstate]
    exact hallow.mayHold.selectable (RuleTree.isRule_iff_ruleId?.mpr (by rw [hid]; rfl))
  have watched : ∀ id k, s.model.Watched id k → u.model.Watched id k := fun id k hw => by
    refine ⟨by rw [hfrom.observers_eq]; exact hw.receiver, fun r hr => ?_⟩
    rw [hfrom.observers_eq]
    exact hw.subscribed r (by rwa [hfrom.tree_eq] at hr)
  refine h.moved (h.link.fed hfed) (hfed.grown proper) hfrom.consistent
    (by rw [hfrom.observers_eq]; exact h.observers) (fun _ ht => ht)
    (by rw [hfrom.tree_eq]; exact h.tree_mem) ?_ ?_
  · intro id hid
    rw [hfed.observer_eq] at hid
    obtain ⟨k, hk, hw⟩ := h.attached id hid
    exact ⟨k, hfed.current_eq.trans hk, watched id k hw⟩
  · intro ha n rule hn
    rw [hfrom.tree_eq] at hn
    rw [Link.isAttached, hfed.observer_eq] at ha
    obtain ⟨id, hid⟩ := Option.isSome_iff_exists.mp ha
    obtain ⟨k, hk, hw⟩ := h.attached id hid
    rw [hfrom.state_eq h.model n]
    cases hc : changedTo? n u.changes with
    | none =>
      rw [Option.getD_none, ← h.mirrors ha n rule hn]
      exact heard_fed_of_not_mem s
        { s with link := s.link.forward u.model (s.model.observers.notices u.changes) } hfed rfl rfl
        (fun k => Link.told_of_not_changed sound allowed hn hc k)
    | some state =>
      rw [Option.getD_some]
      refine heard_fed s
        { s with link := s.link.forward u.model (s.model.observers.notices u.changes) } h.link hfed rfl
        hk ?_
      rw [← hc]
      exact Link.latest?_told hw.receiver hw.subscribed sound allowed hn

end

end Mirror

end RuleScope
