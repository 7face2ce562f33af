import RuleScope.Disk.Basic
import RuleScope.Text.Alphanumeric
import RuleScope.Text.Blank
import RuleScope.Text.Digits

namespace RuleScope

/-- The variables that a program sees. -/
structure Environment where
  vars : List (String × String)
  deriving DecidableEq, Repr

namespace Environment

def get? (e : Environment) (name : String) : Option String := Table.get? name e.vars

/-- A variable that cannot be set. -/
structure Unsettable where
  name : String
  deriving DecidableEq, Repr

/-- Sets a variable that is not set. -/
def offer (e : Environment) (name value : String) : Except Unsettable Environment :=
  match e.get? name with
  | some _ => .ok e
  | none =>
    if value.toList.contains '\x00' then .error ⟨name⟩ else .ok ⟨Table.put name value e.vars⟩

/-- Where the text of an assignment stands. -/
inductive LineState where
  | plain
  | blank
  | escaped
  | single
  | singleEscaped
  | double
  | doubleEscaped
  | comment
  deriving DecidableEq, Repr

/-- A quote opens, or an escape. -/
def opening (c : Char) : LineState :=
  if c = '\\' then .escaped else if c = '"' then .double else if c = '\x27' then .single else .plain

def LineState.next (s : LineState) (c : Char) : LineState :=
  match s with
  | plain => if Text.isBlank c ∧ c ≠ '\n' ∧ c ≠ '\r' then blank else opening c
  | blank => opening c
  | escaped => plain
  | single => if c = '\\' then singleEscaped else if c = '\x27' then plain else single
  | singleEscaped => single
  | double => if c = '\\' then doubleEscaped else if c = '"' then plain else double
  | doubleEscaped => double
  | comment => comment

/-- Reads a line from a state, up to a comment after a blank. -/
def readLine : LineState → List Char → List Char × LineState
  | s, [] => ([], s)
  | s, c :: rest =>
    if s = .blank ∧ c = '#' then ([], .comment)
    else
      let (kept, t) := readLine (s.next c) rest
      (c :: kept, t)

/-- A line without its line break. -/
def chomp (line : List Char) : List Char :=
  match line.reverse with
  | '\n' :: '\r' :: rest => rest.reverse
  | '\n' :: rest => rest.reverse
  | _ => line

/-- The lines of a text, each with its line feed. -/
def linesFrom : List Char → List Char → List (List Char)
  | [], [] => []
  | line, [] => [line.reverse]
  | line, c :: rest =>
    if c = '\n' then (c :: line).reverse :: linesFrom [] rest else linesFrom (c :: line) rest

/-- The texts of the assignments: a quote or an escape that is open at the end of a line takes the
next line in. One that is open at the end of the file is no assignment. -/
def statements (begun : List Char) (s : LineState) : List (List Char) → List (Option (List Char))
  | [] => if s = .plain then [] else [none]
  | line :: rest =>
    let whole := begun ++ line
    if (whole.dropWhile Text.isBlank).head? = some '#' then some [] :: statements [] .plain rest
    else
      match readLine s line with
      | (_, .plain) => some (chomp whole) :: statements [] .plain rest
      | (kept, .comment) => some (begun ++ kept) :: statements [] .plain rest
      | (_, t) => statements whole t rest

inductive Quote where
  | none
  | single
  | double
  deriving DecidableEq, Repr

/-- Whether the name of a variable is being read, after a dollar sign or in braces. -/
inductive Naming where
  | none
  | bare
  | braced
  deriving DecidableEq, Repr

/-- A value read so far. -/
structure ValueState where
  output : List Char
  quote : Quote
  escaped : Bool
  /-- A blank has ended the value. -/
  ended : Bool
  naming : Naming
  name : List Char
  deriving DecidableEq, Repr

namespace ValueState

def start : ValueState := ⟨[], .none, false, false, .none, []⟩

def push (s : ValueState) (c : Char) : ValueState := { s with output := s.output ++ [c] }

/-- Puts the value of the named variable in. -/
def substitute (e : Environment) (s : ValueState) : ValueState :=
  let value := (e.get? (String.ofList s.name)).getD ""
  { s with output := s.output ++ value.toList, name := [], naming := .none }

/-- A character after a backslash. -/
def unescape? (s : ValueState) (c : Char) : Option ValueState :=
  let s := { s with escaped := false }
  if ['\\', '\x27', '"', '$', ' '].contains c then some (s.push c)
  else if c = 'n' then some (s.push '\n')
  else none

/-- A character while a name is read. -/
def stepName (e : Environment) (s : ValueState) (c : Char) : ValueState :=
  if Text.isAlphanumeric c then { s with name := s.name ++ [c] }
  else if s.naming = .braced then
    if c = '\x7d' then s.substitute e else { s with name := s.name ++ [c] }
  else if c = '\x7b' ∧ s.name = [] then { s with naming := .braced }
  else if c = '$' then { s.substitute e with naming := .bare }
  else (s.substitute e).push c

/-- One character, if the value can go on with it. -/
def step? (e : Environment) (s : ValueState) (c : Char) : Option ValueState :=
  if s.ended then if c = ' ' ∨ c = '\t' then some s else none
  else if s.escaped then s.unescape? c
  else if s.quote = .single then
    some (if c = '\x27' then { s with quote := .none } else s.push c)
  else if s.naming ≠ .none then some (s.stepName e c)
  else if c = '$' then some { s with naming := .bare }
  else if c = '\\' then some { s with escaped := true }
  else if s.quote = .double then
    some (if c = '"' then { s with quote := .none } else s.push c)
  else if c = '\x27' then some { s with quote := .single }
  else if c = '"' then some { s with quote := .double }
  else if c = ' ' ∨ c = '\t' then some { s with ended := true }
  else some (s.push c)

/-- Reads a value; a comment may follow it after a blank. -/
def read? (e : Environment) (s : ValueState) : List Char → Option ValueState
  | [] => some s
  | c :: rest => if s.ended ∧ c = '#' then some s else (s.step? e c).bind fun s => s.read? e rest

/-- The complete value, unless a quote or a brace is open. -/
def finish? (e : Environment) (s : ValueState) : Option (List Char) :=
  if s.naming = .braced ∨ s.quote ≠ .none then none else some (s.substitute e).output

end ValueState

def isKeyStart (c : Char) : Bool :=
  ('a' ≤ c && c ≤ 'z') || ('A' ≤ c && c ≤ 'Z') || c = '_'

def isKeyChar (c : Char) : Bool := isKeyStart c || Text.isDigit c || c = '.'

/-- The name at the front, and the text after it and blanks. -/
def key? (cs : List Char) : Option (List Char × List Char) :=
  match cs with
  | c :: _ =>
    if isKeyStart c then
      some (cs.takeWhile isKeyChar, (cs.dropWhile isKeyChar).dropWhile Text.isBlank)
    else none
  | [] => none

/-- The name and the text of the value. The word `export` before a name is dropped. -/
def assignment? (cs : List Char) : Option (List Char × List Char) := do
  let (key, rest) ← key? cs
  match rest with
  | '=' :: value => pure (key, value.dropWhile Text.isBlank)
  | _ =>
    if key = "export".toList then
      match ← key? rest with
      | (key, '=' :: value) => pure (key, value.dropWhile Text.isBlank)
      | _ => none
    else none

/-- The value that the text after an equals sign stands for. -/
def value? (e : Environment) (text : List Char) : Option String :=
  if text.isEmpty || text.head? = some '#' then some ""
  else do return String.ofList (← (← ValueState.start.read? e text).finish? e)

/-- What a line of the file does to the environment; nothing comes of a line that is no
assignment. -/
def run? (e : Environment) (line : List Char) : Option (Except Unsettable Environment) :=
  let cs := Text.trim line
  if cs.isEmpty || cs.head? = some '#' then some (.ok e)
  else do
    let (key, text) ← assignment? cs
    return e.offer (String.ofList key) (← e.value? text)

/-- Runs lines up to the first that is no assignment. -/
def runAll (e : Environment) : List (Option (List Char)) → Except Unsettable Environment
  | some line :: rest =>
    match e.run? line with
    | some (.ok e) => e.runAll rest
    | some (.error fault) => .error fault
    | none => .ok e
  | _ => .ok e

/-- The text without the mark of its encoding. -/
def withoutMark : List Char → List Char
  | c :: rest => if c.toNat = 0xFEFF then rest else c :: rest
  | [] => []

/-- Adds the assignments of a text. -/
def load (e : Environment) (text : String) : Except Unsettable Environment :=
  e.runAll (statements [] .plain (linesFrom [] (withoutMark text.toList)))

/-- The lines of the file `.env` in the first of some directories that has one. -/
def firstLines? (d : Disk) : List AbsPath → Option String
  | [] => none
  | dir :: rest =>
    match d.readLines (dir.child ".env").text with
    | .ok lines => some lines
    | .error .notFound => firstLines? d rest
    | .error .isDirectory => firstLines? d rest
    | .error _ => none

/-- The environment of a program that starts in the working directory: the nearest file `.env`
counts, going up. -/
def start (e : Environment) (d : Disk) : Except Unsettable Environment :=
  match firstLines? d d.workDir.upwards with
  | some lines => e.load lines
  | none => .ok e

end Environment

end RuleScope
