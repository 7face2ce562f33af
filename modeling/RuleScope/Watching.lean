import RuleScope.Command.Display
import RuleScope.Link.Exchange

namespace RuleScope

/-- A line for the reader, or one about a fault. -/
inductive Shown where
  | line (text : String)
  | fault (text : String)
  deriving DecidableEq, Repr

/-- A session that follows its sources, its compiles and a running runtime, with all that is
waiting. Only the session holds the model, and the link is told of every model that takes the place
of another. -/
structure Watching where
  settings : Settings
  /-- Whether to connect whenever there is a new model. -/
  connecting : Bool
  session : Session
  watcher : SourceWatcher
  exchange : Exchange
  batches : List SourceBatch
  /-- How many announcements have been handled. -/
  heard : Nat
  /-- How many changes of the link have been handled. -/
  seen : Nat
  deriving Repr

/-- What can be waiting. A step of any kind that has something waiting may come next. -/
inductive Branch where
  | sources
  | rebuilt
  | reports
  | link
  deriving DecidableEq, Repr

namespace Watching

/-- How many announcements are kept until they are heard. -/
def announcementsKept : Nat := 16

/-- The announcement to be heard next; when too many are waiting, the oldest are gone. -/
def upcoming (w : Watching) : Nat :=
  max w.heard (w.session.announcements.length - announcementsKept)

def withLink (w : Watching) (link : Link) : Watching :=
  { w with exchange := { w.exchange with link } }

def withModel (w : Watching) (m : RuleModel) : Watching :=
  { w with session := { w.session with model := some m } }

/-- Connects to the runtime, if there is a model. -/
def tryConnect (w : Watching) : Watching × List Shown :=
  match w.session.model with
  | none => (w, [.line "runtime: waiting for a compiled model before connecting"])
  | some m =>
    let (exchange, m, fault) := w.exchange.connect w.settings.runtimeAddress m
    ({ w with exchange }.withModel m, match fault with
      | some e => [.fault ("runtime: " ++ e.message)]
      | none => [])

/-- Ends the connection and stops following the model. -/
def hangUp (w : Watching) : Watching :=
  match w.session.model with
  | some m =>
    let (link, m) := w.exchange.link.disconnect m
    (w.withLink link).withModel m
  | none => w.withLink w.exchange.link.close

/-- Takes in the next batch of changes on disk. -/
def takeBatch? (w : Watching) (d : Disk) : Option (Watching × List Shown) :=
  match w.batches with
  | [] => none
  | b :: batches =>
    let (session, outcome) := w.session.applyBatch d b
    some ({ w with session, batches }, match outcome with
      | .ok true => []
      | .ok false => [.line ("sources: " ++ session.sources.status.display)]
      | .error e => [.fault ("Rebuild failed: " ++ (Command.Fault.load session.locationFile e).line)])

/-- Hears of the next rebuild: the link turns to the new model, or ends with the old one. -/
def hearRebuild? (w : Watching) : Option (Watching × List Shown) :=
  match w.session.announcements[w.upcoming]? with
  | none => none
  | some a =>
    let w := { w with heard := w.upcoming + 1 }
    let overview := Shown.line (Command.overview w.session)
    if w.exchange.link.isConnected then
      match w.session.model with
      | some m =>
        let (link, m, _) := w.exchange.link.modelReplaced m
        some ((w.withLink link).withModel m, [overview])
      | none => some (w.withLink w.exchange.link.close, [overview])
    else if w.connecting && a.present then
      let (w, lines) := w.tryConnect
      some (w, overview :: lines)
    else some (w, [overview])

/-- Takes the next batch of reports from the runtime in. -/
def takeReports? (w : Watching) : Option (Watching × List Shown) :=
  match w.exchange.link.inbound.take LogBatch.capacity with
  | [] => none
  | reports =>
    let link := w.exchange.link
    let w := w.withLink { link with inbound := link.inbound.drop LogBatch.capacity }
    match w.session.model with
    | none => some (w, [])
    | some m =>
      let (m, notices, lines) := m.report (.ofMessages reports)
      some ((w.withLink (w.exchange.link.forward m notices)).withModel m, lines.map .line)

/-- Takes note of a change of the link; a connection that was lost is given up. -/
def noteLink? (w : Watching) : Option (Watching × List Shown) :=
  let link := w.exchange.link
  if link.transitions ≤ w.seen then none
  else
    let w := { w with seen := link.transitions }
    let line := Shown.line ("runtime: " ++ link.state.text)
    if link.state = .disconnected ∧ link.peer?.isSome then some (w.hangUp, [line])
    else some (w, [line])

/-- One step of a kind, if anything of the kind is waiting. -/
def step? (w : Watching) (d : Disk) : Branch → Option (Watching × List Shown)
  | .sources => w.takeBatch? d
  | .rebuilt => w.hearRebuild?
  | .reports => w.takeReports?
  | .link => w.noteLink?

/-- A step of the first kind that has something waiting. -/
def next? (w : Watching) (d : Disk) : Option (Watching × List Shown) :=
  [Branch.sources, .rebuilt, .reports, .link].findSome? (w.step? d)

/-- A run of steps: where it leads, what it shows, and what the runtime receives meanwhile. -/
structure Run where
  watching : Watching
  shown : List Shown
  sent : List String

/-- So many steps, the writers of the link running between them, or fewer if nothing is left. -/
def runSteps (d : Disk) : Nat → Watching → Run
  | 0, w => ⟨w, [], []⟩
  | fuel + 1, w =>
    let (exchange, sent) := w.exchange.settle
    let w := { w with exchange }
    match w.next? d with
    | none => ⟨w, [], sent⟩
    | some (w, shown) =>
      let more := runSteps d fuel w
      ⟨more.watching, shown ++ more.shown, sent ++ more.sent⟩

/-- What is waiting at most gives rise to so many steps. -/
def pending (w : Watching) : Nat :=
  8 * (w.batches.length + (w.session.announcements.length - w.heard) +
    w.exchange.link.inbound.length + 2)

/-- Steps until nothing is waiting. -/
def settle (w : Watching) (d : Disk) : Run := runSteps d w.pending w

/-- Starts to watch; what is shown comes with the watcher or its fault. -/
def start (d : Disk) (settings : Settings) (connecting : Bool) (listening : List Address) :
    List Shown × Except WatchFault Watching :=
  let session := Session.ofSettings d settings
  let overview := Shown.line (Command.overview session)
  match SourceWatcher.new d settings.sourceRoot settings.locationPath settings.watchQuiet with
  | .error e => ([overview], .error e)
  | .ok watcher =>
    let w : Watching :=
      { settings, connecting, session, watcher
        exchange := ⟨listening, Link.new settings.connectTimeout, []⟩
        batches := []
        heard := session.announcements.length
        seen := 0 }
    if connecting then
      let (w, lines) := w.tryConnect
      (overview :: lines, .ok w)
    else ([overview], .ok w)

/-- A burst of events on disk. -/
def burst (w : Watching) (d : Disk) (events : List RawEvent) : Watching :=
  { w with batches := w.batches ++ (w.watcher.batch? d events).toList }

/-- The runtime sends a text, if it is connected. -/
def receive (w : Watching) (text : String) : Watching :=
  match w.exchange.live? with
  | some k => { w with exchange := w.exchange.sendText k text }
  | none => w

/-- The runtime closes the connection, if there is one. -/
def lose (w : Watching) : Watching :=
  match w.exchange.live? with
  | some k => { w with exchange := w.exchange.sendAndClose k "" }
  | none => w

/-- Stops: the link ends, and the session is saved. -/
def stop (w : Watching) (d : Disk) : Disk × Except StoreFault (List Shown) :=
  let w := w.hangUp
  let (_, d, saved) := w.session.save d
  (d, saved.map fun path => [.line ("Session saved to " ++ path)])

end Watching

end RuleScope
