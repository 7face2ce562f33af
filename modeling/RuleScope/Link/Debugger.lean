import RuleScope.Link.Address
import RuleScope.Link.Connection
import RuleScope.RuleModel.Change
import RuleScope.Text.Blank
import RuleScope.Text.Duration
import RuleScope.Wire.Decode

namespace RuleScope

inductive LinkState where
  | disconnected
  | connecting
  | connected
  deriving DecidableEq, Repr

namespace LinkState

def text : LinkState → String
  | disconnected => "disconnected"
  | connecting => "connecting"
  | connected => "connected"

def constructorName : LinkState → String
  | disconnected => "Disconnected"
  | connecting => "Connecting"
  | connected => "Connected"

end LinkState

inductive LinkFault where
  | refused (addr : String)
  | invalidAddress (addr : String)
  | timedOut (addr : String) (ms : Nat)
  | notConnected
  | derivedState (s : LoggingState)
  deriving DecidableEq, Repr

def LinkFault.message : LinkFault → String
  | refused addr =>
    "could not connect to runtime at " ++ addr ++ ": Connection refused (os error 111)"
  | invalidAddress addr =>
    "could not connect to runtime at " ++ addr ++ ": invalid socket address"
  | timedOut addr ms =>
    "connecting to runtime at " ++ addr ++ " timed out after " ++ Text.durationText ms
  | notConnected => "not connected to a runtime"
  | derivedState s => "invalid message \"\": " ++ s.display ++ " cannot be sent to the runtime"

/-- The debugger's end of the link to the runtime, with at most one open connection. A connection
that was closed may still have lines to flush; connections are numbered and never forgotten, since
observers of an old model may still name them. -/
structure Link where
  /-- How long an attempt to connect may take, in milliseconds. -/
  timeout : Nat
  state : LinkState
  /-- How often the state has changed. -/
  transitions : Nat
  connections : List Connection
  /-- The number of the open connection. -/
  current : Option Nat
  /-- The observer on the model to which the link is attached. -/
  observer : Option ObserverId
  /-- What the runtime has reported and nobody has read. -/
  inbound : List Wire.Message
  /-- Whether anybody will read it. -/
  listening : Bool
  deriving Repr

namespace Link

def defaultTimeout : Nat := 5000

def new (timeout : Nat) : Link := ⟨timeout, .disconnected, 0, [], none, none, [], true⟩

/-- A new link in place of one that is gone. The numbers of the connections stay taken, since
observers may name them; what their tasks publish does not reach the new link. -/
def successor (l : Link) : Link :=
  { new l.timeout with connections := l.connections.map Connection.orphan }

def isConnected (l : Link) : Bool := l.state = .connected

def isAttached (l : Link) : Bool := l.observer.isSome

def connection? (l : Link) : Option Connection := l.current.bind fun k => l.connections[k]?

/-- The address of the open connection. -/
def peer? (l : Link) : Option String := l.connection?.map Connection.addr

/-- Publishes a state; only a new one counts as a change. -/
def publish (l : Link) (s : LinkState) : Link :=
  if l.state = s then l else { l with state := s, transitions := l.transitions + 1 }

def update (l : Link) (k : Nat) (f : Connection → Connection) : Link :=
  { l with connections := l.connections.modify k f }

/-- Queues a message on a connection, if that still takes messages. -/
def enqueue (l : Link) (k : Nat) (m : Wire.StateMessage) : Link :=
  l.update k fun c => if c.accepts then { c with queue := c.queue ++ [m] } else c

/-- Queues a state for the runtime. -/
def send (l : Link) (m : Wire.StateMessage) : Except LinkFault Link :=
  match l.current with
  | none => .error .notConnected
  | some k =>
    if m.state.isDerived then .error (.derivedState m.state)
    else match l.connections[k]? with
      | some c => if c.accepts then .ok (l.enqueue k m) else .error .notConnected
      | none => .error .notConnected

/-- Queues states until one is refused. -/
def sendAll (l : Link) : List Wire.StateMessage → Link × Option LinkFault
  | [] => (l, none)
  | m :: rest =>
    match l.send m with
    | .ok l => l.sendAll rest
    | .error e => (l, some e)

/-- Stops following a model. -/
def detach (l : Link) (m : RuleModel) : Link × RuleModel :=
  match l.observer with
  | none => (l, m)
  | some id => ({ l with observer := none }, (m.unsubscribe id).1)

/-- Queues the state of every rule and follows the rules from then on. -/
def attach (l : Link) (m : RuleModel) : Link × RuleModel × Option LinkFault :=
  let (l, m) := l.detach m
  match l.current with
  | none => (l, m, some .notConnected)
  | some k =>
    match l.sendAll (m.ruleStates.map fun r => ⟨r.1, r.2⟩) with
    | (l, some e) => (l, m, some e)
    | (l, none) =>
      let (m, id) := m.subscribeRules (.connection k)
      ({ l with observer := some id }, m, none)

/-- Closes the connection without regard to a model. -/
def close (l : Link) : Link :=
  let l := match l.current with
    | some k => l.update k Connection.close
    | none => l
  ({ l with current := none, observer := none }).publish .disconnected

def disconnect (l : Link) (m : RuleModel) : Link × RuleModel :=
  let (l, m) := l.detach m
  (l.close, m)

/-- Connects and attaches. Whatever connection there was is closed first; when nobody accepts, the
link ends up disconnected. -/
def connect (l : Link) (addr : String) (dial : Dial) (m : RuleModel) :
    Link × RuleModel × Option LinkFault :=
  let (l, m) := l.disconnect m
  let l := l.publish .connecting
  match dial with
  | .accepted =>
    let l := { l with
      current := some l.connections.length
      connections := l.connections ++ [Connection.fresh addr] }
    (l.publish .connected).attach m
  | .refused => (l.publish .disconnected, m, some (.refused addr))
  | .invalid => (l.publish .disconnected, m, some (.invalidAddress addr))
  | .silent => (l.publish .disconnected, m, some (.timedOut addr l.timeout))

/-- A new model has taken the place of the one that the link was attached to. -/
def modelReplaced (l : Link) (m : RuleModel) : Link × RuleModel × Option LinkFault :=
  let l := { l with observer := none }
  if l.isConnected then l.attach m else (l, m, none)

/-- Queues one notice, if it is a connection's and about a rule. -/
def forwardOne (m : RuleModel) (l : Link) (n : Notice) : Link :=
  match m.observers.receiver? n.observer, n.change.rule with
  | some (.connection k), some rule => l.enqueue k ⟨rule, n.change.new⟩
  | _, _ => l

/-- Queues what the connections among the observers of a model are told. -/
def forward (l : Link) (m : RuleModel) (notices : List Notice) : Link :=
  notices.foldl (forwardOne m) l

inductive ReaderEvent where
  | line (text : String)
  /-- The runtime has closed the connection, or the stream has broken off. -/
  | ended
  deriving DecidableEq, Repr

/-- Hands a report on, if anybody will read it. -/
def receive (l : Link) (m : Wire.Message) : Link :=
  if l.listening then { l with inbound := l.inbound ++ [m] } else l

/-- One step of the reader of a connection; a reader that has stopped takes none. -/
def read (l : Link) (k : Nat) (e : ReaderEvent) : Link :=
  match l.connections[k]? with
  | none => l
  | some c =>
    if !c.reading then l
    else match e with
      | .line text =>
        if Text.isBlankLine text.toList then l
        else match Wire.decode text with
          | .ok (some m) => l.receive m
          | _ => l
      | .ended => (l.update k fun c => { c with reading := false }).publish .disconnected

/-- One step of the writer of a connection, with the line that it delivers. -/
def writerStep? (l : Link) (k : Nat) (e : WriterEvent) : Option (Link × Option String) := do
  let c ← l.connections[k]?
  let (c, effect) ← c.step? e
  let l := l.update k fun _ => c
  match effect with
  | .delivered line => some (l, some line)
  | .lost => some (l.publish .disconnected, none)
  | _ => some (l, none)

/-- What is shown of a link. -/
def summary (l : Link) : String :=
  let peer := match l.peer? with
    | some addr => "Some(" ++ Text.quoted addr ++ ")"
    | none => "None"
  "RuntimeClient \x7b state: " ++ l.state.constructorName ++ ", peer: " ++ peer ++ ", attached: "
    ++ (if l.isAttached then "true" else "false") ++ " \x7d"

end Link

end RuleScope
