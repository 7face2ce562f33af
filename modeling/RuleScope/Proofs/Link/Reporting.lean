import RuleScope.Proofs.Link.Joined
import RuleScope.Proofs.RuleModel.Shown

namespace RuleScope

/-- The line of a report. -/
def Wire.LogMessage.line (m : Wire.LogMessage) : String :=
  (Wire.envelope Wire.logMethod [.integer m.rule.value, .list (m.results.map .boolean)]).compact

/-- A runtime at work, and the debugger at the other end of the connection that it serves. -/
structure Reporting where
  endpoint : Endpoint
  link : Link
  served : Nat
  /-- The lines on their way to the debugger. -/
  wire : List String

namespace Reporting

inductive Event where
  | evaluated (id : RuleId) (results : List Bool)
  /-- The runtime sends the reports that wait. -/
  | send
  /-- The debugger reads a line. -/
  | read

def step (r : Reporting) : Event → Reporting
  | .evaluated id results => { r with endpoint := r.endpoint.evaluated id results }
  | .send => { r with endpoint := r.endpoint.flush.1, wire := r.wire ++ r.endpoint.flush.2 }
  | .read =>
    match r.wire with
    | [] => r
    | line :: rest => { r with link := r.link.read r.served (.line line), wire := rest }

def run (r : Reporting) (events : List Event) : Reporting := events.foldl step r

/-- The evaluations of a run, each with the answer whether it is reported. -/
def answers (r : Reporting) : List Event → List (Wire.LogMessage × Bool)
  | [] => []
  | .evaluated id results :: rest =>
    (⟨id, results⟩, r.endpoint.reports id results) ::
      (r.step (.evaluated id results)).answers rest
  | .send :: rest => (r.step .send).answers rest
  | .read :: rest => (r.step .read).answers rest

/-- The evaluations that are reported, in order. -/
def reported (r : Reporting) (events : List Event) : List Wire.LogMessage :=
  ((r.answers events).filter Prod.snd).map Prod.fst

end Reporting

namespace Link

variable {l : Link} {k : Nat}

/-- A report that is read waits for the debugger. -/
theorem read_log (hk : l.connections[k]?.map Connection.reading = some true)
    (hl : l.listening = true) (m : Wire.LogMessage) :
    l.read k (.line m.line) = { l with inbound := l.inbound ++ [.log m] } := by
  have hdecode : Wire.decode m.line = .ok (some (.log m)) := Wire.decode_of_encode rfl
  rw [read_line hk hl, Wire.message?, hdecode]
  rfl

end Link

namespace Endpoint

variable {e e' : Endpoint}

theorem reports_congr (h : e'.table = e.table) (id : RuleId) (results : List Bool) :
    e'.reports id results = e.reports id results := by
  unfold reports state
  rw [h]

theorem flush_eq (e : Endpoint) : e.flush =
    if e.connected then ({ e with outbound := [] }, e.outbound.map Wire.LogMessage.line)
    else (e, []) := by
  unfold flush
  split
  next =>
    refine Prod.ext rfl ?_
    rw [← List.filterMap_eq_map]
    rfl
  next => rfl

end Endpoint

namespace RuleModel

/-- Reports of evaluations change nothing, and show their lines one after the other. -/
theorem reportEach_logs (m : RuleModel) (es : List Wire.LogMessage) :
    m.reportEach (es.map .log) = (m, [], es.flatMap m.entryLines) := by
  induction es with
  | nil => rfl
  | cons e rest ih => rw [List.map_cons, reportEach_log, ih, List.flatMap_cons]

/-- However evaluations arrive and are cut into batches, their lines are shown one after the other. -/
theorem reportAll_receiveAll {m : RuleModel} (hm : m.Consistent) (window : Nat) (pauses : Nat → Nat)
    (now : Nat) {arrivals : List LogBatch.Arrival} {es : List Wire.LogMessage}
    (hes : arrivals.map LogBatch.Arrival.message = es.map .log) :
    m.reportAll ((LogBatch.receiveAll window pauses now arrivals).map fun r => r.cut.batch) =
      (m, [], es.flatMap m.entryLines) := by
  let cut := (LogBatch.receiveAll window pauses now arrivals).map fun r =>
    r.cut.taken.map LogBatch.Arrival.message
  have hcut : cut.flatten = es.map .log := by
    obtain ⟨htaken, -⟩ := LogBatch.receiveAll_spec window pauses now arrivals
    rw [← hes, ← htaken, List.map_flatMap, List.flatMap_def]
  have hbatches : (LogBatch.receiveAll window pauses now arrivals).map (fun r => r.cut.batch) =
      cut.map .ofMessages := by
    rw [List.map_map]
    rfl
  have hundisturbed : ∀ ms ∈ cut, Wire.Undisturbed ms := by
    intro ms hms
    have hlogs : ∀ x ∈ ms, x.state? = none := fun x hx => by
      have hmem : x ∈ cut.flatten := List.mem_flatten.mpr ⟨ms, hms, hx⟩
      rw [hcut] at hmem
      obtain ⟨e, -, rfl⟩ := List.mem_map.mp hmem
      rfl
    refine List.pairwise_of_forall_mem_list ?_
    intro x _ y hy e _ state hstate
    rw [hlogs y hy] at hstate
    cases hstate
  obtain ⟨hmodel, hnotices, hlines⟩ := reportAll_eq_reportEach hm cut
  have heach := m.reportEach_logs es
  rw [hcut, heach] at hmodel hnotices hlines
  rw [hbatches]
  exact Prod.ext hmodel (Prod.ext hnotices (hlines hundisturbed))

end RuleModel

namespace Mirror

/-- The runtime and the debugger from a moment on at which nothing is on its way to the debugger. -/
def reporting (s : Mirror) : Reporting := ⟨s.endpoint, s.link, s.served, []⟩

end Mirror

namespace Reporting

/-- The reports so far have been read, are on their way, or wait, in order. -/
structure Conveys (start : Reporting) (told : List Wire.LogMessage) (r : Reporting) : Prop where
  table : r.endpoint.table = start.endpoint.table
  connected : r.endpoint.connected = start.endpoint.connected
  served : r.served = start.served
  connections : r.link.connections = start.link.connections
  listening : r.link.listening = true
  heard : told ≠ [] → start.endpoint.connected = true ∧
    start.link.connections[start.served]?.map Connection.reading = some true
  held : ∃ got sent, told = got ++ sent ++ r.endpoint.outbound ∧
    r.link.inbound = start.link.inbound ++ got.map .log ∧ r.wire = sent.map Wire.LogMessage.line

variable {start r : Reporting} {told : List Wire.LogMessage}

/-- The report that an event adds. -/
def added (r : Reporting) : Event → List Wire.LogMessage
  | .evaluated id results => if r.endpoint.reports id results then [⟨id, results⟩] else []
  | .send | .read => []

theorem reported_cons (r : Reporting) (e : Event) (rest : List Event) :
    r.reported (e :: rest) = r.added e ++ (r.step e).reported rest := by
  cases e with
  | evaluated id results =>
    simp only [reported, answers, added, List.filter_cons]
    split <;> simp
  | send => rfl
  | read => rfl

theorem Conveys.step (h : Conveys start told r) {e : Event}
    (hevent : ∀ id results, e = .evaluated id results → start.endpoint.connected = true ∧
      start.link.connections[start.served]?.map Connection.reading = some true) :
    Conveys start (told ++ r.added e) (r.step e) := by
  obtain ⟨got, sent, htold, hinbound, hwire⟩ := h.held
  cases e with
  | evaluated id results =>
    have hheard := hevent id results rfl
    by_cases hreports : r.endpoint.reports id results = true
    · have hendpoint : r.endpoint.evaluated id results = r.endpoint.log id results := if_pos hreports
      have hadded : r.added (.evaluated id results) = [⟨id, results⟩] := if_pos hreports
      rw [Reporting.step, hendpoint, hadded]
      refine ⟨h.table, h.connected, h.served, h.connections, h.listening, fun _ => hheard,
        got, sent, ?_, hinbound, hwire⟩
      rw [htold, List.append_assoc]
      rfl
    · have hendpoint : r.endpoint.evaluated id results = r.endpoint := if_neg hreports
      have hadded : r.added (.evaluated id results) = [] := if_neg hreports
      rw [Reporting.step, hendpoint, hadded, List.append_nil]
      exact h
  | send =>
    have hadded : r.added .send = [] := rfl
    rw [hadded, List.append_nil]
    by_cases hconnected : r.endpoint.connected = true
    · have hflush : r.endpoint.flush =
          ({ r.endpoint with outbound := [] }, r.endpoint.outbound.map Wire.LogMessage.line) := by
        rw [Endpoint.flush_eq, if_pos hconnected]
      rw [Reporting.step, hflush]
      refine ⟨h.table, h.connected, h.served, h.connections, h.listening, h.heard,
        got, sent ++ r.endpoint.outbound, ?_, hinbound, ?_⟩
      · rw [htold, List.append_nil, List.append_assoc]
      · rw [hwire, List.map_append]
    · have hflush : r.endpoint.flush = (r.endpoint, []) := by
        rw [Endpoint.flush_eq, if_neg hconnected]
      rw [Reporting.step, hflush, List.append_nil]
      exact h
  | read =>
    have hadded : r.added .read = [] := rfl
    rw [hadded, List.append_nil]
    cases sent with
    | nil =>
      have hstep : r.step .read = r := by
        simp only [Reporting.step]
        rw [hwire]
        rfl
      rw [hstep]
      exact h
    | cons m rest =>
      have htold' : told ≠ [] := by
        rw [htold]
        simp
      have hreading := (h.heard htold').2
      rw [← h.served, ← h.connections] at hreading
      have hread := Link.read_log hreading h.listening m
      have hstep : r.step .read = { r with
          link := { r.link with inbound := r.link.inbound ++ [.log m] }
          wire := rest.map Wire.LogMessage.line } := by
        simp only [Reporting.step]
        rw [hwire, List.map_cons]
        dsimp only
        rw [hread]
      rw [hstep]
      refine ⟨h.table, h.connected, h.served, h.connections, h.listening, h.heard,
        got ++ [m], rest, ?_, ?_, rfl⟩
      · rw [htold]
        simp
      · dsimp only
        rw [hinbound, List.map_append, List.append_assoc]
        rfl

theorem Conveys.run (h : Conveys start told r) {events : List Event}
    (hevents : ∀ id results, .evaluated id results ∈ events → start.endpoint.connected = true ∧
      start.link.connections[start.served]?.map Connection.reading = some true) :
    Conveys start (told ++ r.reported events) (r.run events) := by
  induction events generalizing r told with
  | nil =>
    have hnone : r.reported [] = [] := rfl
    rw [hnone, List.append_nil]
    exact h
  | cons e rest ih =>
    have hfirst := h.step fun id results he => hevents id results (he ▸ List.mem_cons_self)
    have hrest := ih hfirst fun id results hmem => hevents id results (List.mem_cons_of_mem _ hmem)
    rw [reported_cons, ← List.append_assoc]
    exact hrest

/-- Every answer is given by the states that were known at the start. -/
theorem mem_answers (htable : r.endpoint.table = start.endpoint.table) {events : List Event}
    {c : Wire.LogMessage × Bool} (hc : c ∈ r.answers events) :
    .evaluated c.1.rule c.1.results ∈ events ∧
      c.2 = start.endpoint.reports c.1.rule c.1.results := by
  induction events generalizing r with
  | nil => cases hc
  | cons e rest ih =>
    have hstep : (r.step e).endpoint.table = start.endpoint.table := by
      rw [← htable]
      cases e with
      | evaluated id results =>
        simp only [step, Endpoint.evaluated]
        split <;> rfl
      | send =>
        simp only [step, Endpoint.flush_eq]
        split <;> rfl
      | read =>
        simp only [step]
        split <;> rfl
    have later : c ∈ (r.step e).answers rest → .evaluated c.1.rule c.1.results ∈ e :: rest ∧
        c.2 = start.endpoint.reports c.1.rule c.1.results := fun hmem =>
      (ih hstep hmem).imp_left (List.mem_cons_of_mem _)
    cases e with
    | evaluated id results =>
      rcases List.mem_cons.mp hc with rfl | hc
      · exact ⟨List.mem_cons_self, Endpoint.reports_congr htable id results⟩
      · exact later hc
    | send => exact later hc
    | read => exact later hc

/-- Reading on takes all lines off the connection. -/
theorem run_reads (r : Reporting) :
    (r.run (.replicate r.wire.length .read)).wire = [] ∧
      (r.run (.replicate r.wire.length .read)).endpoint = r.endpoint := by
  obtain ⟨endpoint, link, served, wire⟩ := r
  induction wire generalizing link with
  | nil => exact ⟨rfl, rfl⟩
  | cons line rest ih => exact ih (link.read served (.line line))

/-- The reports that wait can be sent and read. -/
theorem Conveys.travels (h : Conveys start told r) : ∃ more : List Event,
    (∀ id results, .evaluated id results ∉ more) ∧ (r.run more).endpoint.outbound = [] ∧
      (r.run more).wire = [] := by
  let sent := r.step .send
  obtain ⟨hwire, hendpoint⟩ := run_reads sent
  refine ⟨.send :: .replicate sent.wire.length .read, ?_, ?_, hwire⟩
  · intro id results hmem
    rcases List.mem_cons.mp hmem with hmem | hmem
    · cases hmem
    · cases List.eq_of_mem_replicate hmem
  · have hrun : (r.run (.send :: .replicate sent.wire.length .read)).endpoint = sent.endpoint :=
      hendpoint
    have hsent : sent.endpoint = r.endpoint.flush.1 := rfl
    rw [hrun, hsent, Endpoint.flush_eq]
    split
    next => rfl
    next hconnected =>
      obtain ⟨got, onWire, htold, -⟩ := h.held
      by_contra hwaiting
      have htold' : told ≠ [] := by
        rw [htold]
        simp [hwaiting]
      exact hconnected (h.connected.trans (h.heard htold').1)

end Reporting

namespace Mirror

variable {s : Mirror}

/-- The runtime's answer is what the debugger shows. -/
theorem Faithful.reports_iff (h : s.Faithful) (ha : s.link.isAttached = true) (hc : s.CaughtUp)
    {e : Wire.LogMessage} {n : Nat} (hn : s.model.tree.rule? e.rule = some n) :
    s.endpoint.reports e.rule e.results = (Evaluation.line? (s.model.state n) e.results).isSome := by
  have hknows := h.knows ha hc hn
  unfold Endpoint.reports
  rw [hknows]
  cases e.results with
  | nil => rfl
  | cons outcome terms =>
    simp only [Evaluation.line?]
    split <;> simp_all

/-- After any moves after which the link is attached and the runtime has processed every line, however
the runtime goes on to evaluate rules of the model: it reports an evaluation exactly when the
evaluation has an outcome and would be shown. Its reports can be sent and read to the last; and when
they have been, then however they arrive and are cut into batches, the model stays as it is and shows
one line for each evaluation that was reported, in order, from which the evaluation can be read back. -/
theorem run_reports {resolve : String → AbsPath} {sourceRoot : String} {l : Location}
    {m : RuleModel} (built : RuleModel.build resolve sourceRoot l = .ok m) (actions : List Action)
    (timeout : Nat) (addr : Address) {moves : List Move}
    (hs : (start (m.run actions) timeout addr).run? moves = some s)
    (ha : s.link.isAttached = true) (hc : s.CaughtUp) (events : List Reporting.Event)
    (hevents : ∀ id results, .evaluated id results ∈ events →
      (s.model.tree.rule? id).isSome = true) :
    (∀ c ∈ s.reporting.answers events, c.2 = true ↔
      c.1.results ≠ [] ∧ (s.model.report (.ofMessages [.log c.1])).2.2 ≠ []) ∧
    (∃ more, (∀ id results, .evaluated id results ∉ more) ∧
      ((s.reporting.run events).run more).endpoint.outbound = [] ∧
      ((s.reporting.run events).run more).wire = []) ∧
    ((s.reporting.run events).endpoint.outbound = [] → (s.reporting.run events).wire = [] →
      ∀ window pauses now (arrivals : List LogBatch.Arrival),
        s.link.inbound ++ arrivals.map LogBatch.Arrival.message =
          (s.reporting.run events).link.inbound →
        ∃ lines, s.model.reportAll
            ((LogBatch.receiveAll window pauses now arrivals).map fun r => r.cut.batch) =
              (s.model, [], lines) ∧
          lines.Forall₂ (fun line e => (s.model.report (.ofMessages [.log e])).2.2 = [line] ∧
            Evaluation.ofLine? line = some e.results) (s.reporting.reported events)) := by
  have hm := RuleModel.build_consistent built
  have first := start_faithful (RuleModel.run_consistent hm actions).1
    (RuleModel.run_fresh (RuleModel.build_fresh built) hm actions) timeout addr
  have h := run_faithful first hs
  have hj := run_joined first (start_joined _ timeout addr) hs
  have hshown : ∀ e, (s.model.report (.ofMessages [.log e])).2.2 = s.model.entryLines e := fun e => by
    rw [RuleModel.report_ofMessages]
    exact List.flatMap_singleton _ e
  -- Where there is a rule to evaluate, the runtime serves the open connection.
  have hserves : ∀ id results, .evaluated id results ∈ events →
      s.reporting.endpoint.connected = true ∧ s.reporting.link.connections[
        s.reporting.served]?.map Connection.reading = some true := fun id results hmem => by
    refine hj.serves h ha hc ?_
    obtain ⟨n, hn⟩ := Option.isSome_iff_exists.mp (hevents id results hmem)
    exact List.ne_nil_of_mem (Table.mem_of_get? hn)
  have hstart : Reporting.Conveys s.reporting [] s.reporting :=
    ⟨rfl, rfl, rfl, rfl, hj.listening, nofun, [], [], by rw [reporting, hj.outbound]; rfl,
      (List.append_nil _).symm, rfl⟩
  have hconveys := hstart.run hserves
  rw [List.nil_append] at hconveys
  -- Both sides decide by the state of the rule.
  have hanswer : ∀ c ∈ s.reporting.answers events, ∃ n, s.model.tree.rule? c.1.rule = some n ∧
      c.2 = (Evaluation.line? (s.model.state n) c.1.results).isSome := fun c hmem => by
    obtain ⟨hevent, hreports⟩ := Reporting.mem_answers rfl hmem
    obtain ⟨n, hn⟩ := Option.isSome_iff_exists.mp (hevents _ _ hevent)
    exact ⟨n, hn, hreports.trans (h.reports_iff ha hc hn)⟩
  refine ⟨fun c hmem => ?_, hconveys.travels, fun hout hwire window pauses now arrivals harrivals => ?_⟩
  · obtain ⟨n, hn, hreports⟩ := hanswer c hmem
    rw [hshown, hreports]
    rcases RuleModel.entryLines_eq hn with ⟨hnone, hlines⟩ | ⟨line, hsome, hlines, -⟩
    · simp [hnone, hlines]
    · have hresults : c.1.results ≠ [] := by
        intro hempty
        rw [hempty] at hsome
        cases hsome
      simp [hsome, hlines, hresults]
  · obtain ⟨got, sent, htold, hinbound, hsent⟩ := hconveys.held
    have hnone : sent = [] := List.map_eq_nil_iff.mp (hsent.symm.trans hwire)
    rw [hnone, hout, List.append_nil, List.append_nil] at htold
    rw [hinbound, ← htold] at harrivals
    have hmessages := List.append_cancel_left harrivals
    refine ⟨_, RuleModel.reportAll_receiveAll h.model window pauses now hmessages, ?_⟩
    have hone : ∀ e ∈ s.reporting.reported events, ∃ line, s.model.entryLines e = [line] ∧
        Evaluation.ofLine? line = some e.results := fun e he => by
      obtain ⟨c, hmem, rfl⟩ := List.mem_map.mp he
      obtain ⟨hmem, htrue⟩ := List.mem_filter.mp hmem
      obtain ⟨n, hn, hreports⟩ := hanswer c hmem
      rcases RuleModel.entryLines_eq hn with ⟨hnone, -⟩ | ⟨line, -, hlines, hread⟩
      · rw [hreports, hnone] at htrue
        cases htrue
      · exact ⟨line, hlines, hread⟩
    simp only [hshown]
    exact RuleModel.forall₂_entryLines hone

/-- The rule of `rateLocation`. -/
def rateId : RuleId := (RuleId.ofInt? 8).getD default

/-- The rule is evaluated three times, once without an outcome, while its reports are on their way. -/
def rateEvents : List Reporting.Event :=
  [.evaluated rateId [true, false], .send, .evaluated rateId [], .read, .evaluated rateId [false],
    .send, .read]

theorem run_reports_rate : ∃ m s, ∃ arrivals : List LogBatch.Arrival,
    RuleModel.build (AbsPath.lexical AbsPath.root) "/src" rateLocation = .ok m ∧
    (start (m.run []) 5000 ⟨[127, 0, 0, 1], 0, 7777⟩).run? rateMoves = some s ∧
    arrivals.map LogBatch.Arrival.message = (s.reporting.run rateEvents).link.inbound ∧
    (s.model.reportAll
      ((LogBatch.receiveAll 100 (fun _ => 0) 0 arrivals).map fun r => r.cut.batch)).2.2 =
        ["rules/rate #8: true [f]", "rules/rate #8: false"] := by
  let arrivals : List LogBatch.Arrival :=
    [⟨3, .log ⟨rateId, [true, false]⟩⟩, ⟨200, .log ⟨rateId, [false]⟩⟩]
  have seen : ((RuleModel.build (AbsPath.lexical AbsPath.root) "/src" rateLocation).toOption.bind
      fun m => ((start (m.run []) 5000 ⟨[127, 0, 0, 1], 0, 7777⟩).run? rateMoves).map fun s =>
        decide (s.link.isAttached = true ∧ s.CaughtUp ∧ (s.model.tree.rule? rateId).isSome = true ∧
          (s.reporting.run rateEvents).endpoint.outbound = [] ∧
          (s.reporting.run rateEvents).wire = [] ∧ s.link.inbound = [] ∧
          arrivals.map LogBatch.Arrival.message = (s.reporting.run rateEvents).link.inbound ∧
          (s.reporting.reported rateEvents).map (fun e => (s.model.report (.ofMessages [.log e])).2.2) =
            [["rules/rate #8: true [f]"], ["rules/rate #8: false"]])) = some true := by
    decide +kernel
  obtain ⟨m, hm, hrun⟩ := Option.bind_eq_some_iff.mp seen
  obtain ⟨s, hs, hfacts⟩ := Option.map_eq_some_iff.mp hrun
  obtain ⟨ha, hc, hrule, hout, hwire, hnone, hinbound, hshown⟩ := of_decide_eq_true hfacts
  have built : RuleModel.build (AbsPath.lexical AbsPath.root) "/src" rateLocation = .ok m :=
    eq_ok_of_toOption hm
  have hevents : ∀ id results, Reporting.Event.evaluated id results ∈ rateEvents →
      (s.model.tree.rule? id).isSome = true := by
    intro id results hmem
    have hid : id = rateId := by
      simp only [rateEvents, List.mem_cons, Reporting.Event.evaluated.injEq, reduceCtorEq,
        List.not_mem_nil, or_false, false_or] at hmem
      rcases hmem with ⟨rfl, -⟩ | ⟨rfl, -⟩ | ⟨rfl, -⟩ <;> rfl
    rw [hid]
    exact hrule
  obtain ⟨-, -, hall⟩ := run_reports built [] 5000 _ hs ha hc rateEvents hevents
  obtain ⟨lines, hlines, hshow⟩ := hall hout hwire 100 (fun _ => 0) 0 arrivals (by
    rw [hnone]
    exact hinbound)
  refine ⟨m, s, arrivals, built, hs, hinbound, ?_⟩
  rw [hlines]
  -- One line for each report, so the lines are those of the reports.
  have hsame : lines.map (fun line => [line]) = [["rules/rate #8: true [f]"],
      ["rules/rate #8: false"]] := by
    rw [← hshown]
    refine List.forall₂_eq_eq_eq ▸ ?_
    exact List.forall₂_map_left_iff.mpr (List.forall₂_map_right_iff.mpr
      (hshow.imp fun _ _ h => h.1.symm))
  exact List.map_injective_iff.mpr (fun _ _ h => List.singleton_inj.mp h) hsame

end Mirror

end RuleScope
