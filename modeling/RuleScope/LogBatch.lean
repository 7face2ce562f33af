import RuleScope.Wire.Message

namespace RuleScope

/-- Evaluations of one rule, in order of arrival. -/
structure RuleLogs where
  rule : RuleId
  evaluations : List (List Bool)
  deriving DecidableEq, Repr

/-- Reports that were received together. Evaluations of one rule that follow each other form a
group. -/
structure LogBatch where
  logs : List RuleLogs
  states : List Wire.StateMessage
  deriving DecidableEq, Repr

namespace LogBatch

def empty : LogBatch := ⟨[], []⟩

/-- A batch holds no more reports than this. -/
def capacity : Nat := 1024

/-- An evaluation joins the last group when that is of its rule. -/
def pushLog (logs : List RuleLogs) (m : Wire.LogMessage) : List RuleLogs :=
  match logs.getLast? with
  | some last =>
    if last.rule = m.rule then
      logs.dropLast ++ [⟨last.rule, last.evaluations ++ [m.results]⟩]
    else logs ++ [⟨m.rule, [m.results]⟩]
  | none => [⟨m.rule, [m.results]⟩]

def push (b : LogBatch) : Wire.Message → LogBatch
  | .log m => { b with logs := pushLog b.logs m }
  | .state m => { b with states := b.states ++ [m] }

def ofMessages (ms : List Wire.Message) : LogBatch := ms.foldl push empty

def isEmpty (b : LogBatch) : Bool := b.logs.isEmpty && b.states.isEmpty

def evaluationCount (b : LogBatch) : Nat :=
  b.logs.foldl (fun n l => n + l.evaluations.length) 0

/-- A report and the time of its arrival in milliseconds. -/
structure Arrival where
  time : Nat
  message : Wire.Message
  deriving DecidableEq, Repr

/-- Whether a batch that opened at `opened` takes a report: one that has arrived by then, or that
arrives before the window closes. -/
def admits (window opened : Nat) (a : Arrival) : Bool :=
  a.time ≤ opened || a.time < opened + window

/-- Splits off at most `room` reports that the batch takes. -/
def takeAdmitted (window opened : Nat) : Nat → List Arrival → List Arrival × List Arrival
  | 0, queue => ([], queue)
  | _, [] => ([], [])
  | room + 1, a :: queue =>
    if admits window opened a then
      let (taken, rest) := takeAdmitted window opened room queue
      (a :: taken, rest)
    else ([], a :: queue)

/-- One batch: its reports, the time at which it is handed out, and the reports left. -/
structure Cut where
  taken : List Arrival
  time : Nat
  rest : List Arrival

/-- Receives a batch, not before `now`. Reports are in order of arrival. A full batch is handed out
with its last report, any other when its window closes. The windows meant are those that settings can
give, less than 2^64 milliseconds: `opened + window` is then still a time that a clock can show. -/
def next? (window now : Nat) : List Arrival → Option Cut
  | [] => none
  | first :: queue =>
    let opened := max now first.time
    let (more, rest) := takeAdmitted window opened (capacity - 1) queue
    let taken := first :: more
    let closed :=
      if taken.length = capacity then max opened ((taken.map Arrival.time).getLast?.getD opened)
      else opened + window
    some ⟨taken, closed, rest⟩

theorem takeAdmitted_length (window opened room : Nat) (queue : List Arrival) :
    (takeAdmitted window opened room queue).2.length ≤ queue.length := by
  induction queue generalizing room with
  | nil => cases room <;> simp [takeAdmitted]
  | cons a queue ih =>
    cases room with
    | zero => simp [takeAdmitted]
    | succ room =>
      unfold takeAdmitted
      split
      · have := ih room
        simp only [List.length_cons]
        omega
      · simp

theorem next?_rest_length {window now : Nat} {queue : List Arrival} {c : Cut}
    (h : next? window now queue = some c) : c.rest.length < queue.length := by
  cases queue with
  | nil => simp [next?] at h
  | cons first queue =>
    simp only [next?, Option.some.injEq] at h
    subst h
    have := takeAdmitted_length window (max now first.time) (capacity - 1) queue
    simp only [List.length_cons]
    omega

/-- All batches of a queue whose sender is gone once the last report has been sent. -/
def cuts (window now : Nat) (queue : List Arrival) : List Cut :=
  match _h : next? window now queue with
  | none => []
  | some c => c :: cuts window c.time c.rest
termination_by queue.length
decreasing_by exact next?_rest_length _h

def Cut.batch (c : Cut) : LogBatch := ofMessages (c.taken.map Arrival.message)

end LogBatch

end RuleScope
