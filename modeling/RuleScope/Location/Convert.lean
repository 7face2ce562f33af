import RuleScope.Location.Tree
import RuleScope.Yaml.Load

namespace RuleScope.Location

open Yaml (Value)
open Schema (Mismatch Found)

/-- Why an entry cannot be read. -/
inductive EntryFault where
  | notMapping
  | labelMissing
  | labelNotString
  | notNatural (field : String)
  | unknownKind (kind label : String)
  | pathNotString (label : String)
  | idNotInteger (label : String)
  | idOutOfRange (id : Int) (label : String)
  | termNotString (label : String)
  | termsNotList (label : String)
  | importInRule (rule label : String)
  deriving DecidableEq, Repr

def EntryFault.message : EntryFault → String
  | notMapping => "node is not a mapping"
  | labelMissing => "missing field 'label'"
  | labelNotString => "field 'label' is not a string"
  | notNatural field => "field '" ++ field ++ "' is not a non-negative integer"
  | unknownKind kind label => "unknown node kind '" ++ kind ++ "' for " ++ Text.quoted label
  | pathNotString label => "field 'path' of import " ++ Text.quoted label ++ " is not a string"
  | idNotInteger label => "rule " ++ Text.quoted label ++ " has no integer 'id'"
  | idOutOfRange id label =>
    "rule id " ++ Text.intText id ++ " of " ++ Text.quoted label ++ " is out of range"
  | termNotString label => "base term of rule " ++ Text.quoted label ++ " is not a string"
  | termsNotList label =>
    "field 'baseTerms' of rule " ++ Text.quoted label ++ " is not a list"
  | importInRule rule label =>
    "rule " ++ Text.quoted rule ++ " contains import " ++ Text.quoted label

/-- The words for absent values and fractions in errors about YAML data. -/
def wording : Schema.Wording := ⟨"unit value", .plain⟩

/-- A natural number of 64 bits. -/
def natural? (v : Value) : Option Nat :=
  match v.asInteger? with
  | some (.ofNat n) => some n
  | _ => none

/-- A field that is absent, null, or a natural number. -/
def optionalNatural (v : Value) (field : String) : Except EntryFault (Option Nat) :=
  match v.get? field with
  | none => .ok none
  | some .null => .ok none
  | some v =>
    match natural? v with
    | some n => .ok (some n)
    | none => .error (.notNatural field)

def labelOf (v : Value) : Except EntryFault String :=
  match v.get? "label" with
  | some (.string s) => .ok s
  | some (.number n) => .ok n.text
  | some _ => .error .labelNotString
  | none => .error .labelMissing

/-- Whether an entry is an import: by its kind, or by having no id. -/
def importOf (v : Value) (label : String) : Except EntryFault Bool :=
  match (v.get? "kind").bind Value.asString? with
  | some kind =>
    if kind = "import" then .ok true
    else if kind = "rule" then .ok false
    else .error (.unknownKind kind label)
  | none => .ok (v.get? "id").isNone

def pathOf (v : Value) (label : String) : Except EntryFault (Option String) :=
  match v.get? "path" with
  | some (.string s) => .ok (some s)
  | some .null => .ok none
  | none => .ok none
  | some _ => .error (.pathNotString label)

/-- A place inside a diagnostic. -/
def diagnosticPlace (v : Value) : Except Mismatch (Nat × Nat) := do
  let number (before : Option Nat) (name : String) (v : Value) : Except Mismatch (Option Nat) := do
    if before.isSome then .error (.duplicateField name)
    match v.untag with
    | .number (.integer i) =>
      if 0 ≤ i then return some i.toNat else .error (.wrongValue (.integer i) "usize")
    | v => .error (.wrongType v.found "usize")
  let fields ←
    match v.untag with
    | .mapping fields => .ok fields
    | .null => .ok []
    | v => .error (.wrongType v.found "struct RawLocation")
  let (line, column) ← fields.foldlM
    (fun (line, column) (k, v) =>
      match k.untag with
      | .string key => do
        if key = "line" then return (← number line key v, column)
        else if key = "column" then return (line, ← number column key v)
        else return (line, column)
      | k => .error (.wrongType k.found "field identifier"))
    ((none, none) : Option Nat × Option Nat)
  return (line.getD 0, column.getD 0)

/-- The kind of a diagnostic, as a string or as a tag on nothing. -/
def diagnosticKind (v : Value) : Except Mismatch DiagnosticKind := do
  let (name, content) ←
    match v with
    | .tagged tag v => .ok (Yaml.Tag.bare tag, some v)
    | .string s => .ok (s, none)
    | v => .error (.wrongType v.found "a Value::Tagged enum")
  match DiagnosticKind.ofKey? name with
  | none => .error (.unknownVariant name DiagnosticKind.keys)
  | some kind =>
    match content with
    | none => .ok kind
    | some .null => .ok kind
    | some v => .error (.wrongType v.found "unit")

/-- The fields of a diagnostic read so far. -/
structure DiagnosticFields where
  kind : Option DiagnosticKind
  message : Option String
  place : Option (Nat × Nat)

def diagnosticField (f : DiagnosticFields) (key : String) (v : Value) :
    Except Mismatch DiagnosticFields := do
  if key = "type" then
    if f.kind.isSome then .error (.duplicateField key)
    return { f with kind := some (← diagnosticKind v) }
  else if key = "message" then
    if f.message.isSome then .error (.duplicateField key)
    match v.untag with
    | .string s => return { f with message := some s }
    | v => .error (.wrongType v.found "a string")
  else if key = "location" then
    if f.place.isSome then .error (.duplicateField key)
    match v with
    | .null => return { f with place := some (0, 0) }
    | v => return { f with place := some (← diagnosticPlace v) }
  else return f

/-- A diagnostic of the compiler. -/
def diagnosticOf (v : Value) : Except Mismatch Diagnostic := do
  let fields ←
    match v.untag with
    | .mapping fields => .ok fields
    | .null => .ok []
    | v => .error (.wrongType v.found "struct RawDiagnostic")
  let f ← fields.foldlM
    (fun f (k, v) =>
      match k.untag with
      | .string key => diagnosticField f key v
      | k => .error (.wrongType k.found "field identifier"))
    (⟨none, none, none⟩ : DiagnosticFields)
  match f.kind with
  | none => .error (.missingField "type")
  | some kind =>
    let (line, column) := f.place.getD (0, 0)
    return ⟨kind, f.message.getD "", line, column⟩

/-- The diagnostics listed under an import; an item that is none becomes a parse failure at the
line of the import. -/
def listedDiagnostics (v : Value) (line : Nat) : List Diagnostic :=
  match v.get? "errors" with
  | none => []
  | some errors =>
    match errors.asSequence? with
    | some items =>
      items.map fun item =>
        match diagnosticOf item with
        | .ok d => d
        | .error m => .unreadable ("unreadable diagnostic: " ++ m.message wording) line
    | none =>
      if errors.isNull then [] else [.unreadable "field 'errors' is not a list" line]

def idOf (v : Value) (label : String) : Except EntryFault RuleId :=
  match (v.get? "id").bind Value.asInteger? with
  | some i =>
    if i ≤ Text.maxInt64 then
      match RuleId.ofInt? i with
      | some id => .ok id
      | none => .error (.idOutOfRange i label)
    else .error (.idNotInteger label)
  | none => .error (.idNotInteger label)

def expressionOf (v : Value) : String := ((v.get? "expression").bind Value.asString?).getD ""

def baseTermsOf (v : Value) (label : String) : Except EntryFault (List String) :=
  match v.get? "baseTerms" with
  | some (.sequence items) =>
    items.mapM fun t =>
      match t.asString? with
      | some s => .ok s
      | none => .error (.termNotString label)
  | some .null => .ok []
  | none => .ok []
  | some _ => .error (.termsNotList label)

/-- The items of a rule's children; anything but a list has none. -/
def nestedItems (v : Value) : List Value :=
  match v.get? "children" with
  | some (.sequence items) => items
  | _ => []

/-- The items of an import's children, and a diagnostic when they are no list. -/
def childItems (v : Value) (line : Nat) : List Value × List Diagnostic :=
  match v.get? "children" with
  | none => ([], [])
  | some children =>
    match children.asSequence? with
    | some items => (items, [])
    | none =>
      ([], if children.isNull then [] else [.unreadable "field 'children' is not a list" line])

/-- The line that a fault of an entry is reported at. -/
def faultLine (v : Value) (line : Nat) : Nat :=
  match optionalNatural v "line" with
  | .ok (some n) => n
  | _ => line

/-- Sorts converted items into children and diagnostics, in order. -/
def gather (line : Nat) : List (Value × Except EntryFault Location) →
    List Location × List Diagnostic
  | [] => ([], [])
  | (v, r) :: rest =>
    let (children, diagnostics) := gather line rest
    match r with
    | .ok c => (c :: children, diagnostics)
    | .error e => (children, .unreadable e.message (faultLine v line) :: diagnostics)

/-- A rule below a rule; an import has no place there. -/
def nested (label : String) (r : Except EntryFault Location) : Except EntryFault Location :=
  match r with
  | .ok c => if c.isImport then .error (.importInRule label c.label) else .ok c
  | .error e => .error e

/-- Converts an entry with the given conversion of the entries below it. -/
def convertWith (below : Value → Except EntryFault Location) (v : Value) :
    Except EntryFault Location := do
  if v.asMapping?.isNone then .error .notMapping
  let label ← labelOf v
  let line := (← optionalNatural v "line").getD 0
  if ← importOf v label then
    let path ← pathOf v label
    let (items, fault) := childItems v line
    let (children, skipped) := gather line (items.map fun item => (item, below item))
    return ⟨label, line, .imported path (listedDiagnostics v line ++ fault ++ skipped), children⟩
  else
    let id ← idOf v label
    let terms ← baseTermsOf v label
    let children ← (nestedItems v).mapM fun item => nested label (below item)
    return ⟨label, line, .rule id (expressionOf v) terms, children⟩

/-- Converts an entry and what is below it, `levels` deep. -/
def convertWithin : Nat → Value → Except EntryFault Location
  | 0 => fun _ => .error .notMapping
  | levels + 1 => convertWith (convertWithin levels)

/-- Converts an entry and all that is below it. -/
def convert (v : Value) : Except EntryFault Location := convertWithin v.height v

/-- Why a text is no location tree. -/
inductive TextFault where
  | notYaml
  | rootNotMapping
  | entry (fault : EntryFault)
  deriving DecidableEq, Repr

/-- The words for a fault, where the text could be read at all. -/
def TextFault.message? : TextFault → Option String
  | notYaml => none
  | rootNotMapping => some "document root is not a mapping"
  | entry fault => some fault.message

/-- The location tree of a YAML value. -/
def ofValue (v : Value) : Except TextFault Location :=
  if v.asMapping?.isNone then .error .rootNotMapping
  else
    match convert v with
    | .ok l => .ok l
    | .error e => .error (.entry e)

/-- The location tree of a text. -/
def ofText (text : String) : Except TextFault Location :=
  match Value.ofText? text with
  | none => .error .notYaml
  | some v => ofValue v

end RuleScope.Location
