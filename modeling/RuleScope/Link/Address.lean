import RuleScope.Text.Digits

namespace RuleScope

/-- An IP address and a port; eight groups may name a scope too. -/
structure Address where
  /-- Four octets, or eight groups of 16 bits. -/
  host : List Nat
  /-- Zero where no scope is named. -/
  scope : Nat
  port : Nat
  deriving DecidableEq, Repr

namespace Address

/-- A decimal number of at most `limit` and what follows it. A zero may lead longer numbers only if
`zeros`. -/
def number? (limit : Nat) (zeros : Bool) (cs : List Char) : Option (Nat × List Char) :=
  let digits := cs.takeWhile Text.isDigit
  let n := Text.decimalValue digits
  if digits.isEmpty || n > limit then none
  else if !zeros && digits.length > 1 && digits.head? == some '0' then none
  else some (n, cs.dropWhile Text.isDigit)

/-- The octets that are still to come, each after a dot. -/
def octets? : Nat → List Char → Option (List Nat × List Char)
  | 0, cs => some ([], cs)
  | n + 1, '.' :: cs => do
    let (octet, rest) ← number? 255 false cs
    let (more, rest) ← octets? n rest
    some (octet :: more, rest)
  | _, _ => none

def hostV4? (cs : List Char) : Option (List Nat × List Char) := do
  let (octet, rest) ← number? 255 false cs
  let (more, rest) ← octets? 3 rest
  some (octet :: more, rest)

/-- One to four hexadecimal digits. -/
def group? (cs : List Char) : Option (Nat × List Char) :=
  let values := (cs.map Text.hexValue?).takeWhile Option.isSome
  if values.isEmpty || values.length > 4 then none
  else some (values.foldl (fun n v => 16 * n + v.getD 0) 0, cs.drop values.length)

/-- Up to `room` groups separated by colons. The last two may be written as four octets; the flag
tells whether they are. -/
def groups : Nat → Bool → List Char → List Nat × Bool × List Char
  | 0, _, cs => ([], false, cs)
  | room + 1, first, cs =>
    let start? := if first then some cs else match cs with
      | ':' :: rest => some rest
      | _ => none
    match start? with
    | none => ([], false, cs)
    | some start =>
      match if room = 0 then none else hostV4? start with
      | some ([a, b, c, d], rest) => ([256 * a + b, 256 * c + d], true, rest)
      | _ =>
        match group? start with
        | none => ([], false, cs)
        | some (g, rest) =>
          let (more, octets, rest) := groups room false rest
          (g :: more, octets, rest)

/-- Eight groups, of which one run of zeros may be left out. -/
def hostV6? (cs : List Char) : Option (List Nat × List Char) :=
  let (head, octets, rest) := groups 8 true cs
  if head.length = 8 then some (head, rest)
  else if octets then none
  else match rest with
    | ':' :: ':' :: rest =>
      let (tail, _, rest) := groups (7 - head.length) true rest
      some (head ++ List.replicate (8 - head.length - tail.length) 0 ++ tail, rest)
    | _ => none

/-- A scope after a percent sign, or none. -/
def scope? : List Char → Option (Nat × List Char)
  | '%' :: cs => number? 4294967295 true cs
  | cs => some (0, cs)

def port? (cs : List Char) : Option Nat :=
  match number? 65535 true cs with
  | some (port, []) => some port
  | _ => none

/-- Reads an address as it is written. -/
def ofText? (text : String) : Option Address :=
  match text.toList with
  | '[' :: cs => do
    let (host, rest) ← hostV6? cs
    let (scope, rest) ← scope? rest
    match rest with
    | ']' :: ':' :: rest => (port? rest).map (⟨host, scope, ·⟩)
    | _ => none
  | cs =>
    match hostV4? cs with
    | some (host, ':' :: rest) => (port? rest).map (⟨host, 0, ·⟩)
    | _ => none

def hexText (n : Nat) : String := String.ofList (Text.hexChars n)

/-- Octets between dots. -/
def octetsText (octets : List Nat) : String := String.intercalate "." (octets.map Text.natText)

/-- Groups between colons. -/
def groupsText (groups : List Nat) : String := String.intercalate ":" (groups.map hexText)

/-- The length of the run of zeros at the start. -/
def zeroRun (groups : List Nat) : Nat := (groups.takeWhile (· = 0)).length

/-- Eight groups, the first of the longest runs of at least two zeros left out. The last two of an
address that stands for four octets are written as those. -/
def hostTextV6 (host : List Nat) : String :=
  match host with
  | [0, 0, 0, 0, 0, 65535, high, low] =>
    "::ffff:" ++ octetsText [high / 256, high % 256, low / 256, low % 256]
  | host =>
    let runs := (List.range 8).map fun i => (i, zeroRun (host.drop i))
    let (start, length) := runs.foldl (fun best r => if r.2 > best.2 then r else best) (0, 0)
    if length > 1 then
      groupsText (host.take start) ++ "::" ++ groupsText (host.drop (start + length))
    else groupsText host

def text (a : Address) : String :=
  let host :=
    match a.host with
    | [_, _, _, _] => octetsText a.host
    | host =>
      "[" ++ hostTextV6 host ++ (if a.scope = 0 then "" else "%" ++ Text.natText a.scope) ++ "]"
  host ++ ":" ++ Text.natText a.port

/-- The block that never answers. -/
def isSetAside (a : Address) : Bool :=
  match a.host with
  | [192, 0, 2, _] => true
  | _ => false

/-- The first port that is handed out. -/
def firstPort : Nat := 40001

/-- The first port at which an address is free, looking at one more port than are in use. -/
def freePort (taken : List Address) (a : Address) : Nat :=
  (((List.range (taken.length + 1)).map (firstPort + ·)).find? fun p =>
    !taken.contains { a with port := p }).getD firstPort

/-- Where a listener ends up that asks for an address: port 0 stands for a free one, and an address
in use is refused. -/
def bind? (taken : List Address) (text : String) : Option Address := do
  let a ← ofText? text
  let a := if a.port = 0 then { a with port := freePort taken a } else a
  if taken.contains a then none else some a

end Address

/-- What becomes of an attempt to connect. -/
inductive Dial where
  | accepted
  | refused
  | invalid
  | silent
  deriving DecidableEq, Repr

/-- What becomes of an attempt to connect, given who listens. -/
def Dial.attempt (listening : List Address) (text : String) : Dial :=
  match Address.ofText? text with
  | none => .invalid
  | some a =>
    if a.isSetAside then .silent
    else if listening.contains a then .accepted
    else .refused

end RuleScope
