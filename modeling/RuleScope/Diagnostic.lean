import RuleScope.Json.Reader
import RuleScope.Json.Value

namespace RuleScope

inductive DiagnosticKind where
  | error
  | warning
  /-- A part of the location file itself could not be read. -/
  | parseFailure
  deriving DecidableEq, Repr

namespace DiagnosticKind

def all : List DiagnosticKind := [error, warning, parseFailure]

/-- The name in files. -/
def key : DiagnosticKind → String
  | error => "ERROR"
  | warning => "WARNING"
  | parseFailure => "PARSE_ERROR"

def label : DiagnosticKind → String
  | error => "error"
  | warning => "warning"
  | parseFailure => "parse failure"

def keys : List String := all.map key

def ofKey? (text : String) : Option DiagnosticKind := all.find? (·.key == text)

end DiagnosticKind

/-- What the compiler of the rules says of an import. -/
structure Diagnostic where
  kind : DiagnosticKind
  message : String
  line : Nat
  column : Nat
  deriving DecidableEq, Repr

namespace Diagnostic

def unreadable (message : String) (line : Nat) : Diagnostic := ⟨.parseFailure, message, line, 0⟩

def toJson (d : Diagnostic) : Json :=
  .object [("kind", .string d.kind.key), ("message", .string d.message), ("line", .integer d.line),
    ("column", .integer d.column)]

open Json.Reader

/-- The fields read so far. -/
structure Fields where
  kind : Option DiagnosticKind
  message : Option String
  line : Option Nat
  column : Option Nat

def size : Json.Reader Nat := natural Text.maxNat64 "usize"

def kindReader : Json.Reader DiagnosticKind := variant DiagnosticKind.keys DiagnosticKind.ofKey?

def field (f : Fields) (key : String) : Json.Reader Fields := do
  if key = "kind" then return { f with kind := ← once key f.kind kindReader }
  else if key = "message" then return { f with message := ← once key f.message string }
  else if key = "line" then return { f with line := ← once key f.line size }
  else if key = "column" then return { f with column := ← once key f.column size }
  else
    skipField
    return f

def require {α : Type} (name : String) : Option α → Json.Reader α
  | some a => pure a
  | none => failData (.missingField name)

def item {α : Type} (index : Nat) (r : Json.Reader α) : Json.Reader α := do
  match ← field? (index == 0) r with
  | some a => pure a
  | none => failData (.wrongLength index "struct Diagnostic with 4 elements")

def reader : Json.Reader Diagnostic :=
  record "struct Diagnostic"
    (do
      let f ← fields field ⟨none, none, none, none⟩
      let kind ← require "kind" f.kind
      let message ← require "message" f.message
      let line ← require "line" f.line
      let column ← require "column" f.column
      pure ⟨kind, message, line, column⟩)
    (do
      let kind ← item 0 kindReader
      let message ← item 1 string
      let line ← item 2 size
      let column ← item 3 size
      pure ⟨kind, message, line, column⟩)

end Diagnostic

end RuleScope
