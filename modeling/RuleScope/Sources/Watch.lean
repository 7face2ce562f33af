import RuleScope.Disk.Basic

namespace RuleScope

inductive EventKind where
  | any
  | access
  | other
  | create
  | data
  | metadata
  | rename
  | remove
  deriving DecidableEq, Repr

structure RawEvent where
  kind : EventKind
  paths : List String
  deriving DecidableEq, Repr

/-- What becomes of a path that an event names. -/
inductive SourceChange where
  | changed (path : String)
  | removed (path : String)
  | locationWritten
  deriving DecidableEq, Repr

namespace SourceChange

/-- Two changes are the same when their paths have the same parts. -/
def same : SourceChange → SourceChange → Bool
  | changed p, changed q => Path.parts p = Path.parts q
  | removed p, removed q => Path.parts p = Path.parts q
  | locationWritten, locationWritten => true
  | _, _ => false

end SourceChange

namespace RawEvent

/-- Whether a path has gone with an event of this kind; nothing is known of some kinds. -/
def gone? (d : Disk) (path : String) : EventKind → Option Bool
  | .remove => some true
  | .rename => some !(d.has path)
  | .create | .data | .metadata | .any => some false
  | .access | .other => none

/-- Whether a path leads to the location file. -/
def isLocation (d : Disk) (location path : String) : Bool :=
  Path.parts (d.placeOfFile path).text = Path.parts location

/-- What becomes of one path of an event. -/
def change? (d : Disk) (location : String) (kind : EventKind) (path : String) :
    Option SourceChange :=
  (gone? d path kind).bind fun gone =>
    if isLocation d location path then if gone then none else some .locationWritten
    else if gone then some (.removed path)
    else if d.isDirectory path || Path.isRuleSource path then some (.changed path)
    else none

def changes (e : RawEvent) (d : Disk) (location : String) : List SourceChange :=
  e.paths.filterMap (change? d location e.kind)

end RawEvent

/-- Changes in order of arrival. -/
structure SourceBatch where
  changes : List SourceChange
  deriving DecidableEq, Repr

namespace SourceBatch

/-- A change that is there already is dropped. -/
def push (b : SourceBatch) (c : SourceChange) : SourceBatch :=
  if b.changes.any (·.same c) then b else ⟨b.changes ++ [c]⟩

def ofChanges (cs : List SourceChange) : SourceBatch := cs.foldl push ⟨[]⟩

def isEmpty (b : SourceBatch) : Bool := b.changes.isEmpty

def touchesLocation (b : SourceBatch) : Bool := b.changes.contains .locationWritten

/-- The batch of a burst. -/
def ofBurst (d : Disk) (location : String) (events : List RawEvent) : SourceBatch :=
  ofChanges (events.flatMap fun e => e.changes d location)

/-- The batch, if it holds any change. -/
def nonempty? (b : SourceBatch) : Option SourceBatch := if b.isEmpty then none else some b

/-- What a watcher receives, and when, in milliseconds: an event, or a fault of the system. To handle it
takes no time. -/
structure Signal where
  time : Nat
  event : Option RawEvent
  deriving DecidableEq, Repr

/-- What a signal means, seen on the disk at its time. A fault means nothing. -/
def Signal.changes (disk : Nat → Disk) (location : String) (s : Signal) : List SourceChange :=
  s.event.toList.flatMap fun e => e.changes (disk s.time) location

/-- What comes of waiting for the next signal. -/
inductive Receipt where
  | signal (s : Signal) (coming : List Signal)
  /-- Nothing came in time. -/
  | lull
  /-- The sender is gone, and all signals are received. -/
  | closed

/-- Waits for the next signal, not beyond `limit`; the sender goes at `closing`. -/
def receiveBy (limit closing : Nat) : List Signal → Receipt
  | s :: coming => if s.time ≤ limit then .signal s coming else .lull
  | [] => if closing ≤ limit then .closed else .lull

/-- Where a pump of batches stands. -/
inductive Pump where
  /-- Before a burst. -/
  | waiting (coming : List Signal)
  /-- In a burst whose last signal came at `last`, with the batch so far. -/
  | gathering (last : Nat) (batch : SourceBatch) (coming : List Signal)
  /-- The sender is gone. -/
  | closed
  deriving DecidableEq, Repr

namespace Pump

/-- One wait for a signal: what comes of it, and the batch that is handed out, if any. A burst starts
with an event, and any signal within the quiet period prolongs it. -/
def step (disk : Nat → Disk) (location : String) (quiet closing : Nat) :
    Pump → Pump × Option SourceBatch
  | .waiting [] => (.closed, none)
  | .waiting (s :: coming) =>
    match s.event with
    | some _ => (.gathering s.time (ofChanges (s.changes disk location)) coming, none)
    | none => (.waiting coming, none)
  | .gathering last batch coming =>
    match receiveBy (last + quiet) closing coming with
    | .signal s coming =>
      (.gathering s.time ((s.changes disk location).foldl push batch) coming, none)
    | .lull => (.waiting coming, batch.nonempty?)
    | .closed => (.closed, batch.nonempty?)
  | .closed => (.closed, none)

/-- How many waits are left at most. -/
def waits : Pump → Nat
  | .waiting coming => 2 * coming.length + 1
  | .gathering _ _ coming => 2 * coming.length + 2
  | .closed => 0

theorem step_waits {disk : Nat → Disk} {location : String} {quiet closing : Nat} {p : Pump}
    (h : p ≠ .closed) : (p.step disk location quiet closing).1.waits < p.waits := by
  cases p with
  | closed => exact absurd rfl h
  | waiting coming =>
    cases coming with
    | nil => simp [step, waits]
    | cons s coming =>
      cases hs : s.event with
      | none => simp [step, waits, hs]
      | some e =>
        simp only [step, waits, hs, List.length_cons]
        omega
  | gathering last batch coming =>
    cases coming with
    | nil =>
      by_cases hc : closing ≤ last + quiet
      · simp [step, receiveBy, waits, hc]
      · simp [step, receiveBy, waits, hc]
    | cons s coming =>
      by_cases hs : s.time ≤ last + quiet
      · simp [step, receiveBy, waits, hs]
      · simp [step, receiveBy, waits, hs]

/-- The batches that are handed out until the sender is gone. -/
def run (disk : Nat → Disk) (location : String) (quiet closing : Nat) (p : Pump) :
    List SourceBatch :=
  if _h : p = .closed then []
  else
    (p.step disk location quiet closing).2.toList ++
      run disk location quiet closing (p.step disk location quiet closing).1
termination_by p.waits
decreasing_by exact step_waits _h

end Pump

/-- The batches of all signals, sent by a sender that goes at `closing`, over a disk in change. -/
def pump (disk : Nat → Disk) (location : String) (quiet closing : Nat) (signals : List Signal) :
    List SourceBatch :=
  Pump.run disk location quiet closing (.waiting signals)

end SourceBatch

/-- A watcher over a source root and a location file. -/
structure SourceWatcher where
  root : AbsPath
  location : AbsPath
  quiet : Nat
  deriving DecidableEq, Repr

inductive WatchFault where
  | missingRoot (path : String)
  deriving DecidableEq, Repr

def WatchFault.message : WatchFault → String
  | missingRoot path => "cannot watch " ++ path ++ ": directory does not exist"

namespace SourceWatcher

def new (d : Disk) (root location : String) (quiet : Nat) : Except WatchFault SourceWatcher :=
  if d.isDirectory root then .ok ⟨d.place root, d.placeOfFile location, quiet⟩
  else .error (.missingRoot root)

/-- The directories to watch, and whether with all below them. That of the location file is watched
on its own when it exists outside the root. -/
def directories (w : SourceWatcher) (d : Disk) : List (AbsPath × Bool) :=
  (w.root, true) :: match w.location.parent? with
    | some dir => if !dir.isWithin w.root && d.isDirectory dir.text then [(dir, false)] else []
    | none => []

/-- The batches of a watcher that is stopped with its last signal, over a disk that stays as it is. -/
def batches (w : SourceWatcher) (d : Disk) (signals : List SourceBatch.Signal) :
    List SourceBatch :=
  let closing := (signals.getLast?.map SourceBatch.Signal.time).getD 0
  SourceBatch.pump (fun _ => d) w.location.text w.quiet closing signals

/-- The batch of one burst, if anything of it matters. -/
def batch? (w : SourceWatcher) (d : Disk) (events : List RawEvent) : Option SourceBatch :=
  let b := SourceBatch.ofBurst d w.location.text events
  if b.isEmpty then none else some b

/-- What is shown of a running watcher. -/
def summary : String := "ProjectWatcher \x7b running: true \x7d"

end SourceWatcher

end RuleScope
