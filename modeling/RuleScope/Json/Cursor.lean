import RuleScope.Schema

namespace RuleScope.Json

/-- Containers may nest this deep, less one. -/
def depthLimit : Nat := 128

/-- A place in a text. Lines count from one, and columns in bytes from the last line break. -/
structure Cursor where
  rest : List Char
  line : Nat
  column : Nat
  /-- How many containers may still be opened, plus one. -/
  depth : Nat
  deriving DecidableEq, Repr

structure Position where
  line : Nat
  column : Nat
  deriving DecidableEq, Repr

inductive SyntaxFault where
  | eofList
  | eofObject
  | eofString
  | eofValue
  | expectedColon
  | expectedListEnd
  | expectedObjectEnd
  | expectedIdent
  | expectedValue
  | invalidEscape
  | invalidNumber
  | numberOutOfRange
  | controlCharacter
  | keyNotString
  | loneSurrogate
  | trailingComma
  | trailingCharacters
  | unexpectedHexEnd
  | recursionLimit
  deriving DecidableEq, Repr

def SyntaxFault.message : SyntaxFault → String
  | eofList => "EOF while parsing a list"
  | eofObject => "EOF while parsing an object"
  | eofString => "EOF while parsing a string"
  | eofValue => "EOF while parsing a value"
  | expectedColon => "expected `:`"
  | expectedListEnd => "expected `,` or `]`"
  | expectedObjectEnd => "expected `,` or `\x7d`"
  | expectedIdent => "expected ident"
  | expectedValue => "expected value"
  | invalidEscape => "invalid escape"
  | invalidNumber => "invalid number"
  | numberOutOfRange => "number out of range"
  | controlCharacter => "control character (\\u0000-\\u001F) found while parsing a string"
  | keyNotString => "key must be a string"
  | loneSurrogate => "lone leading surrogate in hex escape"
  | trailingComma => "trailing comma"
  | trailingCharacters => "trailing characters"
  | unexpectedHexEnd => "unexpected end of hex escape"
  | recursionLimit => "recursion limit exceeded"

/-- Why a text cannot be read. -/
inductive ReadError where
  | malformed (fault : SyntaxFault) (place : Position)
  | mismatch (data : Schema.Mismatch) (place : Option Position)
  deriving DecidableEq, Repr

/-- The words for absent values and fractions in errors about JSON. -/
def wording : Schema.Wording := ⟨"null", .signed⟩

def Position.suffix (p : Position) : String :=
  " at line " ++ Text.natText p.line ++ " column " ++ Text.natText p.column

def ReadError.message : ReadError → String
  | malformed fault place => fault.message ++ place.suffix
  | mismatch data (some place) => data.message wording ++ place.suffix
  | mismatch data none => data.message wording

def Cursor.start (text : String) : Cursor := ⟨text.toList, 1, 0, depthLimit⟩

/-- Where the cursor stands. -/
def Cursor.here (c : Cursor) : Position := ⟨c.line, c.column⟩

/-- The position `bytes` bytes further on, even in the middle of a character, or the end. -/
def positionAfter (line column : Nat) : List Char → Nat → Position
  | [], _ => ⟨line, column⟩
  | c :: cs, bytes =>
    if bytes = 0 then ⟨line, column⟩
    else if c = '\n' then positionAfter (line + 1) 0 cs (bytes - 1)
    else if c.utf8Size ≤ bytes then positionAfter line (column + c.utf8Size) cs (bytes - c.utf8Size)
    else ⟨line, column + bytes⟩

/-- The position after the next byte, or the end. -/
def Cursor.ahead (c : Cursor) : Position := positionAfter c.line c.column c.rest 1

/-- A reader moves the cursor and gives a value or an error; after an error the cursor stays where
the reading stopped. -/
abbrev Reader (α : Type) := EStateM ReadError Cursor α

namespace Reader

def peek? : Reader (Option Char) := fun c => .ok c.rest.head? c

/-- Steps over one character. -/
def advance : Reader Unit := fun c =>
  match c.rest with
  | [] => .ok () c
  | x :: r =>
    if x = '\n' then .ok () { c with rest := r, line := c.line + 1, column := 0 }
    else .ok () { c with rest := r, column := c.column + x.utf8Size }

/-- A syntax error at the cursor. -/
def failHere {α : Type} (fault : SyntaxFault) : Reader α := fun c =>
  .error (.malformed fault c.here) c

/-- A syntax error at the next byte. -/
def failAhead {α : Type} (fault : SyntaxFault) : Reader α := fun c =>
  .error (.malformed fault c.ahead) c

/-- Data of the wrong kind, not placed yet. -/
def failData {α : Type} (data : Schema.Mismatch) : Reader α := fun c =>
  .error (.mismatch data none) c

/-- Places a mismatch that has no place at the cursor where the reader stopped. -/
def located {α : Type} (r : Reader α) : Reader α := fun c =>
  match r c with
  | .ok a c' => .ok a c'
  | .error (.mismatch data none) c' => .error (.mismatch data (some c'.here)) c'
  | .error e c' => .error e c'

def isSpace (c : Char) : Bool := c == ' ' || c == '\n' || c == '\t' || c == '\r'

def skipSpaces : Reader Unit := fun c =>
  let rec go : List Char → Nat → Nat → EStateM.Result ReadError Cursor Unit
    | x :: r, line, column =>
      if x = '\n' then go r (line + 1) 0
      else if isSpace x then go r line (column + 1)
      else .ok () ⟨x :: r, line, column, c.depth⟩
    | [], line, column => .ok () ⟨[], line, column, c.depth⟩
  go c.rest c.line c.column

/-- The next character that is no blank. -/
def next? : Reader (Option Char) := do
  skipSpaces
  peek?

/-- The rest of a literal whose first letter has been read. -/
def ident : List Char → Reader Unit
  | [] => pure ()
  | x :: xs => do
    match ← peek? with
    | none => failHere .eofValue
    | some y =>
      if x = y then
        advance
        ident xs
      else failAhead .expectedIdent

end Reader

end RuleScope.Json
