namespace RuleScope.Yaml

/-- A row of octets, since the escapes of a tag may spell octets that are no text. -/
structure Tag where
  octets : List UInt8
  deriving DecidableEq, Repr, Inhabited

namespace Tag

def ofText (s : String) : Tag := ⟨s.toUTF8.toList⟩

/-- The octets before the first zero. -/
def ofOctets (octets : List UInt8) : Tag := ⟨octets.takeWhile (· != 0)⟩

/-- The bare exclamation mark. -/
def mark : Tag := ofText "!"

def isEmpty (t : Tag) : Bool := t.octets.isEmpty

def append (s t : Tag) : Tag := ⟨s.octets ++ t.octets⟩

/-- A tag of YAML's own schema. -/
def core (name : String) : Tag := ofText ("tag:yaml.org,2002:" ++ name)

/-- A tag that begins with an exclamation mark. -/
def isLocal (t : Tag) : Bool := t.octets.head? == mark.octets.head?

def text? (t : Tag) : Option String := String.fromUTF8? ⟨t.octets.toArray⟩

/-- A tag's text without the exclamation mark that leads it. -/
def bare (text : String) : String :=
  match text.toList with
  | ['!'] => text
  | '!' :: rest => String.ofList rest
  | _ => text

/-- The name that a tag gives to a value of its own. -/
def name? (t : Tag) : Option String := if t.isLocal then t.text?.map bare else none

end Tag

end RuleScope.Yaml
