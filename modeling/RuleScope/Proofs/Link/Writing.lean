import RuleScope.Proofs.Link.MirrorRuns

namespace RuleScope

/-- What a writer does to its socket. -/
inductive Output where
  | byte (b : UInt8)
  | shutdown
  deriving DecidableEq, Repr

namespace Output

/-- The bytes of some lines, each with a line feed. -/
def ofLines (lines : List String) : List Output :=
  (lines.flatMap fun line => line.toUTF8.data.toList ++ [10]).map .byte

theorem ofLines_append (lines more : List String) :
    ofLines (lines ++ more) = ofLines lines ++ ofLines more := by
  rw [ofLines, List.flatMap_append, List.map_append]
  rfl

/-- A line has at least the byte of its line feed. -/
theorem ofLines_eq_nil_iff {lines : List String} : ofLines lines = [] ↔ lines = [] := by
  cases lines <;> simp [ofLines]

/-- What a step of a writer does to the socket. -/
def ofEffect : WriterEffect → List Output
  | .delivered line => ofLines [line]
  | .shut => [shutdown]
  | .nothing | .lost => []

end Output

namespace Wire

/-- The line of a message, if it has one. -/
def line? (m : StateMessage) : Option String := (Message.state m).encode.toOption

theorem line?_of_encode {m : StateMessage} {line : String} (h : (Message.state m).encode = .ok line) :
    line? m = some line := by
  rw [line?, h]
  rfl

theorem line?_of_error {m : StateMessage} {s : LoggingState}
    (h : (Message.state m).encode = .error s) : line? m = none := by
  rw [line?, h]
  rfl

/-- From the lines of some messages all of them can be read, save for derived states, which have no
line. -/
theorem filterMap_pushed?_line? (messages : List StateMessage) :
    (messages.filterMap line?).filterMap Mirror.pushed? =
      messages.filter fun m => !m.state.isDerived := by
  induction messages with
  | nil => rfl
  | cons m rest ih =>
    cases hencode : (Message.state m).encode with
    | ok line =>
      have hderived : m.state.isDerived = false := by
        rw [Bool.eq_false_iff]
        intro hd
        obtain ⟨s, hs⟩ := (encode_eq_error_iff (.state m)).mpr ⟨m, rfl, hd⟩
        rw [hencode] at hs
        cases hs
      rw [List.filterMap_cons_some (line?_of_encode hencode),
        List.filterMap_cons_some (Mirror.pushed?_of_encode hderived hencode), ih,
        List.filter_cons_of_pos (by simp [hderived])]
    | error s =>
      obtain ⟨m', hm', hderived⟩ := (encode_eq_error_iff (.state m)).mp ⟨s, hencode⟩
      cases hm'
      rw [List.filterMap_cons_none (line?_of_error hencode), ih,
        List.filter_cons_of_neg (by simp [hderived])]

end Wire

namespace Connection

variable {c c' c'' : Connection}

/-- The lines that a connection has still to write. -/
def unwritten (c : Connection) : List String := c.atHand ++ c.queue.filterMap Wire.line?

/-- What a step of a writer can be. -/
inductive Stepped (c : Connection) : WriterEvent → Connection → WriterEffect → Prop where
  | taken {m rest line} (idle : c.writer = .idle) (queue : c.queue = m :: rest)
      (encoded : Wire.line? m = some line) :
      c.Stepped .take { c with queue := rest, writer := .writing line } .nothing
  | takenFlushing {m rest line} (flushing : c.writer = .flushing) (queue : c.queue = m :: rest)
      (encoded : Wire.line? m = some line) :
      c.Stepped .take { c with queue := rest, writer := .flushingLine line } .nothing
  /-- A message that has no line is passed over. -/
  | passed {m rest} (waiting : c.writer = .idle ∨ c.writer = .flushing) (queue : c.queue = m :: rest)
      (unencodable : Wire.line? m = none) :
      c.Stepped .take { c with queue := rest } .nothing
  | sent {line} (writing : c.writer = .writing line) :
      c.Stepped .sent { c with writer := .idle } (.delivered line)
  | sentFlushing {line} (writing : c.writer = .flushingLine line) :
      c.Stepped .sent { c with writer := .flushing } (.delivered line)
  | failed {line} (writing : c.writer = .writing line) : c.Stepped .failed c.stop .lost
  | failedFlushing {line} (writing : c.writer = .flushingLine line) : c.Stepped .failed c.stop .shut
  | turned (idle : c.writer = .idle) (closing : c.closing = true) :
      c.Stepped .turn { c with writer := .flushing } .nothing
  | finished (flushing : c.writer = .flushing) (queue : c.queue = []) :
      c.Stepped .finish c.stop .shut

theorem take?_cases {busy : String → Writer} (h : c.take? busy = some c') :
    ∃ m rest, c.queue = m :: rest ∧
      ((∃ line, Wire.line? m = some line ∧ c' = { c with queue := rest, writer := busy line }) ∨
        Wire.line? m = none ∧ c' = { c with queue := rest }) := by
  unfold take? at h
  split at h
  next => cases h
  next m rest hq =>
    refine ⟨m, rest, hq, ?_⟩
    split at h
    next line hencode =>
      cases h
      exact .inl ⟨line, Wire.line?_of_encode hencode, rfl⟩
    next s hencode =>
      cases h
      exact .inr ⟨Wire.line?_of_error hencode, rfl⟩

theorem stepped_of_step? {e : WriterEvent} {effect : WriterEffect}
    (hs : c.step? e = some (c', effect)) : c.Stepped e c' effect := by
  cases e with
  | take =>
    simp only [step?] at hs
    split at hs
    next hw =>
      obtain ⟨c₁, htake, heq⟩ := Option.map_eq_some_iff.mp hs
      cases heq
      obtain ⟨m, rest, hq, ⟨line, hl, rfl⟩ | ⟨hl, rfl⟩⟩ := take?_cases htake
      · exact .taken hw hq hl
      · exact .passed (.inl hw) hq hl
    next hw =>
      obtain ⟨c₁, htake, heq⟩ := Option.map_eq_some_iff.mp hs
      cases heq
      obtain ⟨m, rest, hq, ⟨line, hl, rfl⟩ | ⟨hl, rfl⟩⟩ := take?_cases htake
      · exact .takenFlushing hw hq hl
      · exact .passed (.inr hw) hq hl
    next => cases hs
  | sent =>
    simp only [step?] at hs
    split at hs
    next line hw => cases hs; exact .sent hw
    next line hw => cases hs; exact .sentFlushing hw
    next => cases hs
  | failed =>
    simp only [step?] at hs
    split at hs
    next line hw => cases hs; exact .failed hw
    next line hw => cases hs; exact .failedFlushing hw
    next => cases hs
  | turn =>
    simp only [step?] at hs
    split at hs
    next hw => cases hs; exact .turned hw.1 hw.2
    next => cases hs
  | finish =>
    simp only [step?] at hs
    split at hs
    next hw => cases hs; exact .finished hw.1 hw.2
    next => cases hs

variable {e : WriterEvent} {effect : WriterEffect}

/-- Only a writer that runs takes a step. -/
theorem Stepped.running (h : c.Stepped e c' effect) : c.writer ≠ .stopped := by
  cases h with
  | taken hw | takenFlushing hw | sent hw | sentFlushing hw | failed hw | failedFlushing hw
  | turned hw | finished hw => simp [hw]
  | passed hw => rcases hw with hw | hw <;> simp [hw]

/-- A writer that stops leaves nothing in the queue. -/
theorem Stepped.queue_stopped (h : c.Stepped e c' effect) (hw : c'.writer = .stopped) :
    c'.queue = [] := by
  cases h with
  | taken | takenFlushing | sent | sentFlushing | turned => cases hw
  | passed hwaiting =>
    have hstopped : c.writer = .stopped := hw
    rcases hwaiting with hwaiting | hwaiting <;> simp [hwaiting] at hstopped
  | failed | failedFlushing | finished => rfl

/-- A writer queues nothing. -/
theorem Stepped.queue_length_le (h : c.Stepped e c' effect) : c'.queue.length ≤ c.queue.length := by
  cases h with
  | taken _ hq _ | takenFlushing _ hq _ | passed _ hq _ =>
    rw [hq]
    exact Nat.le_succ _
  | sent | sentFlushing | turned => exact Nat.le_refl _
  | failed | failedFlushing | finished => exact Nat.zero_le _

/-- A step of a writer that does not fail writes the line that is the first to be written, or it shuts
the socket down when no line is left, or it leaves the lines and the socket as they are. -/
theorem Stepped.unwritten (h : c.Stepped e c' effect) (he : e ≠ .failed) :
    (∃ line, effect = .delivered line ∧ c.unwritten = line :: c'.unwritten ∧ c'.writer ≠ .stopped) ∨
    (effect = .shut ∧ c.unwritten = [] ∧ c'.unwritten = [] ∧ c'.writer = .stopped) ∨
    (effect = .nothing ∧ c'.unwritten = c.unwritten ∧ c'.writer ≠ .stopped) := by
  cases h with
  | taken hw hq hl => exact .inr (.inr ⟨rfl, by simp [Connection.unwritten, atHand, hw, hq, hl], by simp⟩)
  | takenFlushing hw hq hl =>
    exact .inr (.inr ⟨rfl, by simp [Connection.unwritten, atHand, hw, hq, hl], by simp⟩)
  | passed hw hq hl =>
    refine .inr (.inr ⟨rfl, ?_, ?_⟩)
    · rcases hw with hw | hw <;> simp [Connection.unwritten, atHand, hw, hq, hl]
    · rcases hw with hw | hw <;> simp [hw]
  | sent hw => exact .inl ⟨_, rfl, by simp [Connection.unwritten, atHand, hw], by simp⟩
  | sentFlushing hw => exact .inl ⟨_, rfl, by simp [Connection.unwritten, atHand, hw], by simp⟩
  | failed | failedFlushing => exact absurd rfl he
  | turned hw _ => exact .inr (.inr ⟨rfl, by simp [Connection.unwritten, atHand, hw], by simp⟩)
  | finished hw hq =>
    exact .inr (.inl ⟨rfl, by simp [Connection.unwritten, atHand, hw, hq], rfl, rfl⟩)

/-- What becomes of a connection when its writer does nothing: it is given messages, unless the writer
has stopped, it is closed, or its reader stops. -/
structure Gains (c c' : Connection) : Prop where
  writer_eq : c'.writer = c.writer
  queue : c.queue <+: c'.queue
  queue_eq : c.writer = .stopped → c'.queue = c.queue
  closing : c.closing = true → c'.closing = true

theorem Gains.refl (c : Connection) : c.Gains c :=
  ⟨rfl, List.prefix_refl _, fun _ => rfl, id⟩

theorem Gains.trans (h : c.Gains c') (h' : c'.Gains c'') : c.Gains c'' where
  writer_eq := h'.writer_eq.trans h.writer_eq
  queue := h.queue.trans h'.queue
  queue_eq hw := (h'.queue_eq (h.writer_eq.trans hw)).trans (h.queue_eq hw)
  closing hc := h'.closing (h.closing hc)

theorem gains_feed (c : Connection) (messages : List Wire.StateMessage) :
    c.Gains (c.feed messages) where
  writer_eq := c.feed_writer messages
  queue := by
    rw [feed_queue]
    exact List.prefix_append _ _
  queue_eq hw := by simp [feed_queue, accepts, hw]
  closing hc := (c.feed_closing messages).trans hc

theorem gains_close (c : Connection) : c.Gains c.close :=
  ⟨rfl, List.prefix_refl _, fun _ => rfl, fun _ => rfl⟩

theorem gains_cancel (c : Connection) : c.Gains c.cancel :=
  ⟨rfl, List.prefix_refl _, fun _ => rfl, fun _ => rfl⟩

theorem gains_silenced (c : Connection) : c.Gains { c with reading := false } :=
  ⟨rfl, List.prefix_refl _, fun _ => rfl, id⟩

/-- A connection none of whose writes has failed, with all messages that have been queued on it and
all that its writer has done to the socket. -/
structure Balanced (c : Connection) (queued : List Wire.StateMessage) (socket : List Output) :
    Prop where
  queue_stopped : c.writer = .stopped → c.queue = []
  socket_eq : ∃ written, queued.filterMap Wire.line? = written ++ c.unwritten ∧
    socket = Output.ofLines written ++ if c.writer = .stopped then [.shutdown] else []

variable {queued : List Wire.StateMessage} {socket : List Output}

theorem balanced_fresh (addr : String) : (fresh addr).Balanced [] [] := ⟨nofun, [], rfl, rfl⟩

/-- What is queued stands behind all that is still to be written. -/
theorem Balanced.gains (h : c.Balanced queued socket) (hg : c.Gains c') :
    c'.Balanced (queued ++ c'.queue.drop c.queue.length) socket := by
  obtain ⟨written, hlines, hsocket⟩ := h.socket_eq
  have hqueue := List.prefix_iff_eq_append.mp hg.queue
  have hhand : c'.atHand = c.atHand := by rw [atHand, atHand, hg.writer_eq]
  have hunwritten : c'.unwritten =
      c.unwritten ++ (c'.queue.drop c.queue.length).filterMap Wire.line? := by
    rw [unwritten, unwritten, hhand, List.append_assoc, ← List.filterMap_append, hqueue]
  refine ⟨fun hw => ?_, written, ?_, by rw [hg.writer_eq, hsocket]⟩
  · rw [hg.writer_eq] at hw
    exact (hg.queue_eq hw).trans (h.queue_stopped hw)
  · rw [List.filterMap_append, hlines, hunwritten, List.append_assoc]

theorem Balanced.step (h : c.Balanced queued socket) (he : e ≠ .failed)
    (hs : c.step? e = some (c', effect)) :
    c'.Balanced queued (socket ++ Output.ofEffect effect) := by
  obtain ⟨written, hlines, hsocket⟩ := h.socket_eq
  have hstepped := stepped_of_step? hs
  -- Only a writer that runs takes a step, so that the socket has not been shut down.
  rw [if_neg hstepped.running, List.append_nil] at hsocket
  refine ⟨hstepped.queue_stopped, ?_⟩
  obtain ⟨line, rfl, hline, hw⟩ | ⟨rfl, hnone, hnone', hw⟩ | ⟨rfl, hsame, hw⟩ :=
    hstepped.unwritten he
  · refine ⟨written ++ [line], by rw [hlines, hline, List.append_assoc]; rfl, ?_⟩
    rw [if_neg hw, hsocket, Output.ofLines_append, List.append_nil]
    rfl
  · refine ⟨written, by rw [hlines, hnone, hnone'], ?_⟩
    rw [if_pos hw, hsocket]
    rfl
  · refine ⟨written, by rw [hlines, hsame], ?_⟩
    rw [if_neg hw, hsocket]
    rfl

/-- Once the writer has stopped, all lines have been written, and then the socket was shut down. -/
theorem Balanced.stopped (h : c.Balanced queued socket) (hw : c.writer = .stopped) :
    socket = Output.ofLines (queued.filterMap Wire.line?) ++ [.shutdown] := by
  obtain ⟨written, hlines, hsocket⟩ := h.socket_eq
  have hunwritten : c.unwritten = [] := by
    simp [Connection.unwritten, atHand, hw, h.queue_stopped hw]
  rw [hsocket, if_pos hw, hlines, hunwritten, List.append_nil]

/-- Until then the first of them have been written. -/
theorem Balanced.running (h : c.Balanced queued socket) (hw : c.writer ≠ .stopped) :
    socket <+: Output.ofLines (queued.filterMap Wire.line?) := by
  obtain ⟨written, hlines, hsocket⟩ := h.socket_eq
  rw [hsocket, if_neg hw, List.append_nil, hlines, Output.ofLines_append]
  exact List.prefix_append _ _

/-- The most steps that a writer can take before it has stopped: two for each message, and those of the
line at hand and of the end. -/
def work (c : Connection) : Nat :=
  2 * c.queue.length + match c.writer with
    | .idle => 2
    | .writing _ => 3
    | .flushing => 1
    | .flushingLine _ => 2
    | .stopped => 0

theorem work_le (c : Connection) : c.work ≤ 2 * c.queue.length + 3 := by
  unfold work
  split <;> omega

theorem Gains.work_eq (h : c.Gains c') :
    c'.work = c.work + 2 * (c'.queue.drop c.queue.length).length := by
  have hlength := h.queue.length_le
  rw [work, work, h.writer_eq, List.length_drop]
  omega

/-- Every step of a writer leaves it less to do. -/
theorem Stepped.work_lt (h : c.Stepped e c' effect) : c'.work < c.work := by
  cases h with
  | taken hw hq _ | takenFlushing hw hq _ =>
    simp only [work, hw, hq, List.length_cons]
    omega
  | passed hw hq _ =>
    simp only [work, hq, List.length_cons]
    omega
  | sent hw | sentFlushing hw | turned hw _ => simp [work, hw]
  | failed hw | failedFlushing hw | finished hw _ => simp [work, stop, hw]

/-- The writer of a closed connection can go on until it has stopped. -/
theorem exists_step?_of_closing (hc : c.closing = true) (hw : c.writer ≠ .stopped) :
    ∃ e, e ≠ .failed ∧ (c.step? e).isSome = true := by
  cases hwriter : c.writer with
  | idle => exact ⟨.turn, by simp, by simp [step?, hwriter, hc]⟩
  | writing line => exact ⟨.sent, by simp, by simp [step?, hwriter]⟩
  | flushing =>
    cases hq : c.queue with
    | nil => exact ⟨.finish, by simp, by simp [step?, hwriter, hq]⟩
    | cons m rest =>
      refine ⟨.take, by simp, ?_⟩
      simp only [step?, hwriter, take?, hq, Option.isSome_map]
      split <;> rfl
  | flushingLine line => exact ⟨.sent, by simp, by simp [step?, hwriter]⟩
  | stopped => exact absurd hwriter hw

end Connection

end RuleScope
