import RuleScope.Link.Debugger
import RuleScope.Wire.Stream

namespace RuleScope

/-- A link together with the runtime at its other end, at rest: between two operations all lines
have been delivered and all readers have read what came. The runtime may have closed some
connections; what is written to those is lost. -/
structure Exchange where
  /-- Where runtimes listen. -/
  listening : List Address
  link : Link
  /-- The connections that the runtime has closed. -/
  ended : List Nat
  deriving Repr

namespace Exchange

/-- Runs the writer of one connection, after lines of others. -/
def drainOne (ended : List Nat) (state : Link × List String) (k : Nat) : Link × List String :=
  match state.1.connections[k]? with
  | none => state
  | some c =>
    let d := c.drain (!ended.contains k)
    let l := state.1.update k fun _ => d.connection
    (if d.lost then l.publish .disconnected else l, state.2 ++ d.lines)

/-- Runs all writers until they rest, and gives the lines that the runtime received. -/
def settle (x : Exchange) : Exchange × List String :=
  let (link, lines) :=
    (List.range x.link.connections.length).foldl (drainOne x.ended) (x.link, [])
  ({ x with link }, lines)

/-- The open connection, if it is in working order. -/
def live? (x : Exchange) : Option Nat := if x.link.isConnected then x.link.current else none

/-- The runtime sends lines on a connection. -/
def lines (x : Exchange) (k : Nat) (texts : List String) : Exchange :=
  { x with link := texts.foldl (fun l text => l.read k (.line text)) x.link }

/-- The stream from the runtime ends. -/
def hangUp (x : Exchange) (k : Nat) : Exchange := { x with link := x.link.read k .ended }

/-- The runtime sends a text and keeps the connection open. -/
def sendText (x : Exchange) (k : Nat) (text : String) : Exchange :=
  x.lines k (Wire.Lines.ofText text).texts

/-- The runtime sends a text and closes the connection. -/
def sendAndClose (x : Exchange) (k : Nat) (text : String) : Exchange :=
  let x := (x.sendText k text).hangUp k
  { x with ended := k :: x.ended }

/-- The runtime sends bytes that break the stream off; the connection can still be written to. -/
def sendBytes (x : Exchange) (k : Nat) (bytes : List UInt8) : Exchange :=
  let received := Wire.Lines.ofBytes bytes
  let x := x.lines k received.texts
  if received.broken then x.hangUp k else x

/-- Connects the link to an address. -/
def connect (x : Exchange) (addr : String) (m : RuleModel) :
    Exchange × RuleModel × Option LinkFault :=
  let (link, m, e) := x.link.connect addr (.attempt x.listening addr) m
  ({ x with link }, m, e)

/-- The link is dropped, and another takes its place. -/
def drop (x : Exchange) : Exchange := { x with link := x.link.successor }

end Exchange

end RuleScope
