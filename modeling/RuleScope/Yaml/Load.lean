import RuleScope.Yaml.Event
import RuleScope.Yaml.Value

namespace RuleScope.Yaml

namespace Event

/-- Containers may nest this deep. -/
def depthLimit : Nat := 128

def anchor? : Event → Option String
  | scalar a _ _ _ => a
  | sequenceStart a _ => a
  | mappingStart a _ => a
  | _ => none

/-- Anchors seen so far: a number for each name, and for each number the position of a node. The
number of a new anchor is the number of names before it. -/
structure Anchors where
  numbers : List (String × Nat)
  places : List (Nat × Nat)

def Anchors.add (a : Anchors) (name : String) (place : Nat) : Anchors :=
  let number := a.numbers.length
  ⟨if (a.numbers.lookup name).isSome then
      a.numbers.map fun (n, k) => if n = name then (n, number) else (n, k)
    else (name, number) :: a.numbers,
    (number, place) :: a.places⟩

/-- A node of a document: an event, or the number of an anchor. -/
inductive Node where
  | event (e : Event)
  | jump (number : Nat)
  deriving Inhabited

/-- The nodes up to the end of the document, with what is left. An alias must follow its anchor. -/
def nodesLoop : List Event → Nat → Anchors → List Node →
    Option (List Node × Anchors × List Event)
  | [], _, a, seen => some (seen.reverse, a, [])
  | .documentEnd :: rest, _, a, seen => some (seen.reverse, a, rest)
  | .documentStart :: rest, n, a, seen => nodesLoop rest n a seen
  | .alias name :: rest, n, a, seen => do
    let number ← a.numbers.lookup name
    nodesLoop rest (n + 1) a (.jump number :: seen)
  | e :: rest, n, a, seen =>
    let a :=
      match e.anchor? with
      | some name => a.add name n
      | none => a
    nodesLoop rest (n + 1) a (.event e :: seen)

structure Document where
  nodes : Array Node
  places : List (Nat × Nat)

/-- Reading nodes counts how often an alias has been followed: at most a hundred times as often as
there are events. -/
abbrev Loader (α : Type) := StateT Nat Option α

/-- A value under the name that its tag gives, if it gives one. -/
def withTag (tag : Option Tag) (v : Value) : Value :=
  match tag.bind Tag.name? with
  | some name => .tagged name v
  | none => v

def scalarValue (tag : Option Tag) (text : String) (plain : Bool) : Option Value :=
  let untagged : Option Value := if plain then resolvePlain text else some (.string text)
  match tag with
  | some t => if t.isLocal then untagged.map (withTag tag) else resolveTagged t text
  | none => untagged

/-- Items from a position up to the end of their sequence. -/
def itemsLoop (node : Nat → Loader (Value × Nat)) (nodes : Array Node) :
    Nat → Nat → List Value → Loader (List Value × Nat)
  | 0, _, _ => failure
  | fuel + 1, place, seen => do
    match nodes[place]? with
    | some (.event .sequenceEnd) => return (seen.reverse, place + 1)
    | _ =>
      let (v, place) ← node place
      itemsLoop node nodes fuel place (v :: seen)

/-- Fields from a position up to the end of their mapping. -/
def fieldsLoop (node : Nat → Loader (Value × Nat)) (nodes : Array Node) :
    Nat → Nat → List (Value × Value) → Loader (List (Value × Value) × Nat)
  | 0, _, _ => failure
  | fuel + 1, place, seen => do
    match nodes[place]? with
    | some (.event .mappingEnd) => return (seen.reverse, place + 1)
    | _ =>
      let (k, place) ← node place
      if seen.any fun (l, _) => l.same k then failure
      let (v, place) ← node place
      fieldsLoop node nodes fuel place ((k, v) :: seen)

/-- The value of a node that is no alias, and the position after it. `node` reads what is inside a
container; without it there is no room for one. -/
def eventValue (doc : Document) (node : Option (Nat → Loader (Value × Nat))) (place : Nat) :
    Loader (Value × Nat) := do
  match doc.nodes[place]?, node with
  | some (.event (.scalar _ tag text plain)), _ =>
    match scalarValue tag text plain with
    | some v => return (v, place + 1)
    | none => failure
  | some (.event (.sequenceStart _ tag)), some node =>
    let (items, next) ← itemsLoop node doc.nodes (doc.nodes.size + 1) (place + 1) []
    return (withTag tag (.sequence items), next)
  | some (.event (.mappingStart _ tag)), some node =>
    let (fields, next) ← fieldsLoop node doc.nodes (doc.nodes.size + 1) (place + 1) []
    return (withTag tag (.mapping fields), next)
  | _, _ => failure

/-- A node at a position: an alias is followed to its anchor. -/
def nodeValue (doc : Document) (node : Option (Nat → Loader (Value × Nat))) (place : Nat) :
    Loader (Value × Nat) := do
  match doc.nodes[place]? with
  | some (.jump number) =>
    let jumps ← get
    if doc.nodes.size * 100 < jumps + 1 then failure
    set (jumps + 1)
    match doc.places.lookup number with
    | some target =>
      let (v, _) ← eventValue doc node target
      return (v, place + 1)
    | none => failure
  | _ => eventValue doc node place

/-- The value at a position with room for so many nested containers. -/
def valueAt (doc : Document) : Nat → Nat → Loader (Value × Nat)
  | 0, place => nodeValue doc none place
  | levels + 1, place => nodeValue doc (some (valueAt doc levels)) place

/-- The value of the events of a text: at most one document. -/
def toValue? (events : List Event) : Option Value := do
  let (nodes, anchors, rest) ← nodesLoop events 0 ⟨[], []⟩ []
  if events.isEmpty then return .null
  if !rest.isEmpty then none
  let doc : Document := ⟨nodes.toArray, anchors.places⟩
  let ((v, _), _) ← (valueAt doc depthLimit 0).run 0
  return v

end Event

/-- The value of a text. -/
def Value.ofText? (text : String) : Option Value := do
  let tokens ← Token.ofText? text
  let events ← Event.ofTokens? tokens
  Event.toValue? events

end RuleScope.Yaml
