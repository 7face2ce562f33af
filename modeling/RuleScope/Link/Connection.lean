import RuleScope.Wire.Message

namespace RuleScope

/-- A writer takes one message at a time. Once the connection is being closed it flushes what is
still queued, and then stops. A failed write stops it at once; outside a flush the connection then
counts as lost. -/
inductive Writer where
  | idle
  | writing (line : String)
  | flushing
  | flushingLine (line : String)
  | stopped
  deriving DecidableEq, Repr

/-- A connection to the runtime as its debugger's end sees it. -/
structure Connection where
  addr : String
  queue : List Wire.StateMessage
  writer : Writer
  reading : Bool
  closing : Bool
  deriving Repr

inductive WriterEvent where
  /-- The next message is taken from the queue. -/
  | take
  /-- The line at hand has been written. -/
  | sent
  /-- Writing the line at hand has failed. -/
  | failed
  /-- The close is noticed. -/
  | turn
  /-- Nothing is left to flush. -/
  | finish
  deriving DecidableEq, Repr

inductive WriterEffect where
  | nothing
  | delivered (line : String)
  /-- The connection is lost. -/
  | lost
  /-- The stream is shut down. -/
  | shut
  deriving DecidableEq, Repr

namespace Connection

def fresh (addr : String) : Connection := ⟨addr, [], .idle, true, false⟩

/-- Whether messages are still taken. -/
def accepts (c : Connection) : Bool := c.writer ≠ .stopped

/-- Asks the writer to flush and stop, and the reader to stop. -/
def cancel (c : Connection) : Connection := { c with closing := true }

/-- Asks the writer to flush and stop, and stops the reader. -/
def close (c : Connection) : Connection := { c with closing := true, reading := false }

/-- A connection whose link is gone: its tasks have noticed that, so the reader has stopped and the
writer flushes. Nobody sees any more what they publish. -/
def orphan (c : Connection) : Connection :=
  { c.close with
    writer := match c.writer with
      | .idle => .flushing
      | .writing line => .flushingLine line
      | w => w }

def stop (c : Connection) : Connection := { c with writer := .stopped, queue := [] }

/-- Takes the first message; one that has no line is dropped. -/
def take? (c : Connection) (busy : String → Writer) : Option Connection :=
  match c.queue with
  | [] => none
  | m :: rest =>
    match (Wire.Message.state m).encode with
    | .ok line => some { c with queue := rest, writer := busy line }
    | .error _ => some { c with queue := rest }

/-- One step of the writer, if the event can happen. -/
def step? (c : Connection) : WriterEvent → Option (Connection × WriterEffect)
  | .take =>
    match c.writer with
    | .idle => (c.take? .writing).map (·, .nothing)
    | .flushing => (c.take? .flushingLine).map (·, .nothing)
    | _ => none
  | .sent =>
    match c.writer with
    | .writing line => some ({ c with writer := .idle }, .delivered line)
    | .flushingLine line => some ({ c with writer := .flushing }, .delivered line)
    | _ => none
  | .failed =>
    match c.writer with
    | .writing _ => some (c.stop, .lost)
    | .flushingLine _ => some (c.stop, .shut)
    | _ => none
  | .turn => if c.writer = .idle ∧ c.closing then some ({ c with writer := .flushing }, .nothing) else none
  | .finish => if c.writer = .flushing ∧ c.queue = [] then some (c.stop, .shut) else none

/-- What an undisturbed writer does next. Writes succeed as long as the runtime's end is `alive`. -/
def next? (c : Connection) (alive : Bool) : Option WriterEvent :=
  match c.writer with
  | .idle => if !c.queue.isEmpty then some .take else if c.closing then some .turn else none
  | .flushing => if c.queue.isEmpty then some .finish else some .take
  | .writing _ | .flushingLine _ => some (if alive then .sent else .failed)
  | .stopped => none

/-- Lines delivered by a run of the writer, and whether the connection was lost in it. -/
structure Drained where
  connection : Connection
  lines : List String
  lost : Bool
  deriving Repr

def drainSteps (alive : Bool) : Nat → Connection → Drained
  | 0, c => ⟨c, [], false⟩
  | fuel + 1, c =>
    match (c.next? alive).bind c.step? with
    | none => ⟨c, [], false⟩
    | some (c, effect) =>
      let d := drainSteps alive fuel c
      match effect with
      | .delivered line => { d with lines := line :: d.lines }
      | .lost => { d with lost := true }
      | _ => d

/-- Runs the writer until it rests: two steps for each message, one for the line at hand, two for
the close. -/
def drain (alive : Bool) (c : Connection) : Drained := drainSteps alive (2 * c.queue.length + 3) c

end Connection

end RuleScope
