import Mathlib.Data.List.Chain
import RuleScope.LogBatch

namespace RuleScope

namespace Wire.Message

def log? : Message → Option LogMessage
  | .log m => some m
  | .state _ => none

def state? : Message → Option StateMessage
  | .log _ => none
  | .state m => some m

end Wire.Message

/-- The evaluations of a group as they were reported. -/
def RuleLogs.entries (g : RuleLogs) : List Wire.LogMessage := g.evaluations.map (⟨g.rule, ·⟩)

namespace LogBatch

def entries (b : LogBatch) : List Wire.LogMessage := b.logs.flatMap RuleLogs.entries

/-- How many reports a batch holds. -/
def size (b : LogBatch) : Nat := b.evaluationCount + b.states.length

/-- No group is empty, and neighbours are of different rules. -/
structure Grouped (logs : List RuleLogs) : Prop where
  nonempty : ∀ g ∈ logs, g.evaluations ≠ []
  apart : logs.IsChain fun g h => g.rule ≠ h.rule

section

variable {logs : List RuleLogs} {b : LogBatch}

theorem pushLog_entries (logs : List RuleLogs) (m : Wire.LogMessage) :
    (pushLog logs m).flatMap RuleLogs.entries = logs.flatMap RuleLogs.entries ++ [m] := by
  unfold pushLog
  split
  next last hlast =>
    obtain ⟨before, rfl⟩ := List.getLast?_eq_some_iff.mp hlast
    split
    next hrule => simp [RuleLogs.entries, hrule]
    next => simp [RuleLogs.entries]
  next hnone =>
    have hempty : logs = [] := List.getLast?_eq_none_iff.mp hnone
    simp [hempty, RuleLogs.entries]

theorem Grouped.pushLog (h : Grouped logs) (m : Wire.LogMessage) : Grouped (pushLog logs m) := by
  unfold LogBatch.pushLog
  split
  next last hlast =>
    obtain ⟨before, rfl⟩ := List.getLast?_eq_some_iff.mp hlast
    split
    next hrule =>
      -- The last group grows and keeps its rule, so its neighbour stays another one.
      rw [List.dropLast_concat]
      refine ⟨fun g hg => ?_, ?_⟩
      · rcases List.mem_append.mp hg with hg | hg
        · exact h.nonempty g (List.mem_append_left _ hg)
        · rw [List.mem_singleton.mp hg]
          simp
      · have hchain := List.isChain_append.mp h.apart
        refine List.isChain_append.mpr ⟨hchain.1, .singleton _, fun g hg k hk => ?_⟩
        obtain rfl : k = ⟨last.rule, last.evaluations ++ [m.results]⟩ := by simpa using Eq.symm hk
        exact hchain.2.2 g hg last rfl
    next hrule =>
      refine ⟨fun g hg => ?_, ?_⟩
      · rcases List.mem_append.mp hg with hg | hg
        · exact h.nonempty g hg
        · rw [List.mem_singleton.mp hg]
          simp
      · refine List.isChain_append.mpr ⟨h.apart, .singleton _, fun g hg k hk => ?_⟩
        obtain rfl : last = g := by simpa using hg
        obtain rfl : k = ⟨m.rule, [m.results]⟩ := by simpa using Eq.symm hk
        exact hrule
  next => exact ⟨by simp, .singleton _⟩

/-- What a batch holds when some messages are pushed onto it. -/
theorem foldl_push_spec (ms : List Wire.Message) (hb : Grouped b.logs) :
    Grouped (ms.foldl push b).logs ∧
      (ms.foldl push b).entries = b.entries ++ ms.filterMap Wire.Message.log? ∧
      (ms.foldl push b).states = b.states ++ ms.filterMap Wire.Message.state? := by
  induction ms generalizing b with
  | nil => simpa using hb
  | cons m rest ih =>
    cases m with
    | log m =>
      have hpush : (push b (.log m)).entries = b.entries ++ [m] := pushLog_entries b.logs m
      obtain ⟨hgrouped, hentries, hstates⟩ := ih (b := push b (.log m)) (hb.pushLog m)
      refine ⟨hgrouped, ?_, hstates⟩
      rw [List.foldl_cons, hentries, hpush, List.append_assoc]
      rfl
    | state m =>
      obtain ⟨hgrouped, hentries, hstates⟩ := ih (b := push b (.state m)) hb
      refine ⟨hgrouped, hentries, ?_⟩
      rw [List.foldl_cons, hstates, push, List.append_assoc]
      rfl

theorem ofMessages_spec (ms : List Wire.Message) : Grouped (ofMessages ms).logs ∧
    (ofMessages ms).entries = ms.filterMap Wire.Message.log? ∧
    (ofMessages ms).states = ms.filterMap Wire.Message.state? := by
  have hempty : Grouped empty.logs := ⟨by simp [empty], .nil⟩
  exact foldl_push_spec ms hempty

theorem evaluationCount_eq (b : LogBatch) : b.evaluationCount = b.entries.length := by
  have count : ∀ (logs : List RuleLogs) (n : Nat),
      logs.foldl (fun n l => n + l.evaluations.length) n =
        n + (logs.flatMap RuleLogs.entries).length := by
    intro logs
    induction logs with
    | nil => simp
    | cons g rest ih =>
      intro n
      have hlength : g.entries.length = g.evaluations.length := by simp [RuleLogs.entries]
      rw [List.foldl_cons, ih, List.flatMap_cons, List.length_append]
      omega
  have := count b.logs 0
  rwa [Nat.zero_add] at this

theorem length_logs_add_states (ms : List Wire.Message) :
    (ms.filterMap Wire.Message.log?).length + (ms.filterMap Wire.Message.state?).length =
      ms.length := by
  induction ms with
  | nil => rfl
  | cons m rest ih =>
    cases m <;> simp only [List.filterMap_cons, Wire.Message.log?, Wire.Message.state?,
      List.length_cons] <;> omega

theorem ofMessages_size (ms : List Wire.Message) : (ofMessages ms).size = ms.length := by
  obtain ⟨-, hentries, hstates⟩ := ofMessages_spec ms
  rw [size, evaluationCount_eq, hentries, hstates, length_logs_add_states]

end

/-- What is taken comes first; at most `room` reports are, and fewer only when the next is not
admitted. -/
theorem takeAdmitted_spec (window opened room : Nat) (queue : List Arrival) :
    (takeAdmitted window opened room queue).1 ++ (takeAdmitted window opened room queue).2 = queue ∧
      (takeAdmitted window opened room queue).1.length ≤ room ∧
      ((takeAdmitted window opened room queue).1.length < room →
        ∀ a ∈ (takeAdmitted window opened room queue).2.head?, opened + window ≤ a.time) := by
  induction queue generalizing room with
  | nil => cases room <;> simp [takeAdmitted]
  | cons a queue ih =>
    cases room with
    | zero => simp [takeAdmitted]
    | succ room =>
      obtain ⟨happend, hlength, hnext⟩ := ih room
      by_cases ha : admits window opened a = true
      · have htake : takeAdmitted window opened (room + 1) (a :: queue) =
            (a :: (takeAdmitted window opened room queue).1,
              (takeAdmitted window opened room queue).2) := by
          rw [takeAdmitted, if_pos ha]
        rw [htake]
        refine ⟨by rw [List.cons_append, happend], Nat.succ_le_succ hlength, fun hlt => ?_⟩
        exact hnext (Nat.lt_of_succ_lt_succ hlt)
      · have htake : takeAdmitted window opened (room + 1) (a :: queue) = ([], a :: queue) := by
          rw [takeAdmitted, if_neg ha]
        have hlate : opened + window ≤ a.time := by
          simp only [admits, Bool.or_eq_true, decide_eq_true_eq] at ha
          omega
        rw [htake]
        exact ⟨rfl, Nat.zero_le _, fun _ b hb => by cases hb; exact hlate⟩

/-- A batch that was asked for at a time, and what was received then. -/
structure Receipt where
  asked : Nat
  cut : Cut

namespace Receipt

/-- The first report is received when it is there and has been asked for. -/
def opened (r : Receipt) : Nat := max r.asked ((r.cut.taken.head?.map Arrival.time).getD 0)

/-- What one batch takes off the queue. -/
structure Takes (window : Nat) (queue : List Arrival) (r : Receipt) : Prop where
  append_eq : r.cut.taken ++ r.cut.rest = queue
  pos : 1 ≤ r.cut.taken.length
  le_capacity : r.cut.taken.length ≤ capacity
  next_late : r.cut.taken.length < capacity → ∀ a ∈ r.cut.rest.head?, r.opened + window ≤ a.time

end Receipt

/-- All batches of a queue whose sender is gone once the last report has been sent. After each batch
some time passes before the next is asked for, until there is none. -/
def receiveAll (window : Nat) (pauses : Nat → Nat) (now : Nat) (queue : List Arrival) :
    List Receipt :=
  match _h : next? window (now + pauses 0) queue with
  | none => []
  | some c => ⟨now + pauses 0, c⟩ :: receiveAll window (fun k => pauses (k + 1)) c.time c.rest
termination_by queue.length
decreasing_by exact next?_rest_length _h

section

variable {window now : Nat} {queue : List Arrival}

theorem next?_eq_none_iff : next? window now queue = none ↔ queue = [] := by
  cases queue <;> simp [next?]

theorem next?_takes {c : Cut} (h : next? window now queue = some c) :
    Receipt.Takes window queue ⟨now, c⟩ := by
  cases queue with
  | nil => cases h
  | cons first queue =>
    cases h
    obtain ⟨happend, hlength, hnext⟩ :=
      takeAdmitted_spec window (max now first.time) (capacity - 1) queue
    have hcapacity : capacity = 1024 := rfl
    refine ⟨congrArg (first :: ·) happend, Nat.succ_pos _, ?_, fun hlt => ?_⟩
    · simp only [List.length_cons]
      omega
    · simp only [List.length_cons] at hlt
      exact hnext (by omega)

/-- Batches that are asked for at once are the cuts of the queue. -/
theorem cuts_eq_receiveAll (window now : Nat) (queue : List Arrival) :
    cuts window now queue = (receiveAll window (fun _ => 0) now queue).map Receipt.cut := by
  fun_induction cuts window now queue with
  | case1 now queue hnone =>
    have hempty : queue = [] := next?_eq_none_iff.mp hnone
    simp [hempty, receiveAll, next?]
  | case2 now queue c hc ih =>
    rw [receiveAll]
    split
    next hnone => cases hc.symm.trans hnone
    next c' hc' =>
      obtain rfl : c' = c := Option.some.inj (hc'.symm.trans hc)
      rw [List.map_cons, ih]

/-- One batch after the other takes the queue apart. -/
theorem receiveAll_spec (window : Nat) (pauses : Nat → Nat) (now : Nat) (queue : List Arrival) :
    ((receiveAll window pauses now queue).flatMap fun r => r.cut.taken) = queue ∧
      ∀ r ∈ receiveAll window pauses now queue, ∃ before, Receipt.Takes window before r := by
  fun_induction receiveAll window pauses now queue with
  | case1 pauses now queue hnone =>
    have hempty : queue = [] := next?_eq_none_iff.mp hnone
    simp [hempty]
  | case2 pauses now queue c hc ih =>
    obtain ⟨hflat, htakes⟩ := ih
    have hfirst := next?_takes hc
    refine ⟨?_, fun r hr => ?_⟩
    · rw [List.flatMap_cons, hflat]
      exact hfirst.append_eq
    · rcases List.mem_cons.mp hr with rfl | hr
      · exact ⟨queue, hfirst⟩
      · exact htakes r hr

end

/-- Whatever arrives when, and whenever the batches are asked for: the batches hold the evaluations
that were received, one by one and in order, and the states, in order. Each holds 1 to 1024 reports
in groups that are not empty and differ in their rules from their neighbours, and one that is not
full leaves no report behind that came before the end of the window which its first report opened. -/
theorem receiveAll_delivers (window : Nat) (pauses : Nat → Nat) (now : Nat)
    (queue : List Arrival) :
    ((receiveAll window pauses now queue).flatMap fun r => r.cut.batch.entries) =
        (queue.map Arrival.message).filterMap Wire.Message.log? ∧
      ((receiveAll window pauses now queue).flatMap fun r => r.cut.batch.states) =
        (queue.map Arrival.message).filterMap Wire.Message.state? ∧
      ∀ r ∈ receiveAll window pauses now queue,
        1 ≤ r.cut.batch.size ∧ r.cut.batch.size ≤ 1024 ∧ Grouped r.cut.batch.logs ∧
        (r.cut.batch.size < 1024 → ∀ next ∈ r.cut.rest.head?, r.opened + window ≤ next.time) := by
  obtain ⟨hflat, htakes⟩ := receiveAll_spec window pauses now queue
  have hmessages : queue.map Arrival.message = (receiveAll window pauses now queue).flatMap
      fun r => r.cut.taken.map Arrival.message := by
    rw [← List.map_flatMap, hflat]
  refine ⟨?_, ?_, fun r hr => ?_⟩
  · rw [hmessages, List.filterMap_flatMap]
    exact List.flatMap_congr fun r _ => (ofMessages_spec _).2.1
  · rw [hmessages, List.filterMap_flatMap]
    exact List.flatMap_congr fun r _ => (ofMessages_spec _).2.2
  · obtain ⟨before, htake⟩ := htakes r hr
    have hsize : r.cut.batch.size = r.cut.taken.length := by
      rw [Cut.batch, ofMessages_size, List.length_map]
    rw [hsize]
    exact ⟨htake.pos, htake.le_capacity, (ofMessages_spec _).1, htake.next_late⟩

end LogBatch

end RuleScope
