import RuleScope.Text.Digits
import RuleScope.Yaml.Token

namespace RuleScope.Yaml

/-- A place where a key on one line may have begun. -/
structure SimpleKey where
  possible : Bool
  /-- A block mapping admits nothing but a key here. -/
  required : Bool
  /-- The number of tokens before it. -/
  token : Nat
  octet : Nat
  line : Nat
  column : Nat

def SimpleKey.none : SimpleKey := ⟨false, false, 0, 0, 0, 0⟩

/-- A place in a text, the tokens found so far, the indentation of the open block collections, and
for each flow level the last place where a key on one line may have begun. When the colon of such a
key is met, the token for the key is put in front of it. -/
structure Scanner where
  rest : List Char
  /-- The number of octets before the place. -/
  octet : Nat
  line : Nat
  column : Nat
  tokens : Array Token
  /-- The column of the innermost block collection, or minus one. -/
  indent : Int
  indents : List Int
  keyAllowed : Bool
  /-- The innermost flow level first, the block level last. -/
  keys : List SimpleKey

/-- A scanning step; it fails on text that is not YAML. -/
abbrev Scan (α : Type) := StateT Scanner Option α

namespace Scanner

def start (text : String) : Scanner :=
  ⟨text.toList, 0, 0, 0, #[], -1, [], true, [.none]⟩

def inFlow (s : Scanner) : Bool := 1 < s.keys.length

end Scanner

namespace Scan

def fail {α : Type} : Scan α := fun _ => none

def ensure (b : Bool) : Scan Unit := if b then pure () else fail

/-- The character `n` places ahead. -/
def peekAt (n : Nat) : Scan (Option Char) := fun s => some (s.rest[n]?, s)

def peek : Scan (Option Char) := fun s => some (s.rest.head?, s)

def column : Scan Nat := fun s => some (s.column, s)

def inFlow : Scan Bool := fun s => some (s.inFlow, s)

/-- The number of rounds a loop over the rest of the text can need. -/
def fuel : Scan Nat := fun s => some (s.rest.length + 1, s)

/-- The number of octets of some characters. -/
def octetsOf (cs : List Char) : Nat := cs.foldl (fun n c => n + c.utf8Size) 0

/-- Steps over characters that are no line breaks. -/
def skipN (n : Nat) : Scan Unit := fun s =>
  some ((), { s with rest := s.rest.drop n, octet := s.octet + octetsOf (s.rest.take n),
                     column := s.column + n })

def skip : Scan Unit := skipN 1

/-- Steps over a line break and gives its text: a line feed, or the separator itself. -/
def line : Scan String := fun s =>
  match s.rest with
  | '\r' :: '\n' :: r =>
    some ("\n", { s with rest := r, octet := s.octet + 2, line := s.line + 1, column := 0 })
  | c :: r =>
    if isBreak c then
      some (if c = '\u2028' ∨ c = '\u2029' then c.toString else "\n",
        { s with rest := r, octet := s.octet + c.utf8Size, line := s.line + 1, column := 0 })
    else some ("", s)
  | [] => some ("", s)

/-- Takes the characters of a class; the class has no line breaks. -/
def takeWhile (p : Char → Bool) : Scan String := fun s =>
  let taken := s.rest.takeWhile p
  some (String.ofList taken,
    { s with rest := s.rest.drop taken.length, octet := s.octet + octetsOf taken,
             column := s.column + taken.length })

def skipWhile (p : Char → Bool) : Scan Unit := discard (takeWhile p)

def skipComment : Scan Unit := do
  if (← peek) = some '#' then skipWhile (fun c => !isBreak c)

def emit (t : Token) : Scan Unit := modify fun s => { s with tokens := s.tokens.push t }

def allowKey (b : Bool) : Scan Unit := modify fun s => { s with keyAllowed := b }

/-- Three marks at the start of a line, alone: `---` or `...`. -/
def atDocumentMark (mark : Char) : Scan Bool := fun s =>
  some (s.column == 0 && s.rest.take 3 == [mark, mark, mark] && isSpaceOrEnd s.rest[3]?, s)

def atAnyDocumentMark : Scan Bool := do
  return (← atDocumentMark '-') || (← atDocumentMark '.')

/-- Forgets the possible key of the current level; one that is required cannot be forgotten. -/
def removeKey : Scan Unit := do
  let s ← get
  match s.keys with
  | k :: rest =>
    ensure !(k.possible && k.required)
    set { s with keys := { k with possible := false } :: rest }
  | [] => fail

/-- Forgets keys that have become longer than 1024 octets or left their line. -/
def removeStaleKeys : Scan Unit := do
  let s ← get
  let stale (k : SimpleKey) : Bool := k.possible && (k.line < s.line || k.octet + 1024 < s.octet)
  ensure (s.keys.all fun k => !(stale k && k.required))
  set { s with keys := s.keys.map fun k => if stale k then { k with possible := false } else k }

/-- Notes that a key may begin here. -/
def saveKey : Scan Unit := do
  let s ← get
  if s.keyAllowed then
    removeKey
    let k : SimpleKey :=
      ⟨true, !s.inFlow && s.indent == (s.column : Int), s.tokens.size, s.octet, s.line, s.column⟩
    modify fun s => { s with keys := k :: s.keys.tail }

/-- Opens a block collection at a column further in than the current one; its token goes to the
position `at?`, or to the end. -/
def rollIndent (column : Nat) (position : Option Nat) (t : Token) : Scan Unit := do
  let s ← get
  if !s.inFlow && s.indent < (column : Int) then
    let tokens :=
      match position with
      | some i => s.tokens.insertIdxIfInBounds i t
      | none => s.tokens.push t
    set { s with indents := s.indent :: s.indents, indent := column, tokens := tokens }

/-- Closes the block collections that are indented further than the column. -/
def unrollLoop (column : Int) : List Int → Scanner → Scanner
  | [], s => s
  | outer :: rest, s =>
    if column < s.indent then
      unrollLoop column rest
        { s with indent := outer, indents := rest, tokens := s.tokens.push .blockEnd }
    else s

def unrollIndent (column : Int) : Scan Unit := modify fun s =>
  if s.inFlow then s else unrollLoop column s.indents s

/-- Moves to the next token: over blanks, comments and line breaks. A tab is a blank only where no
block key may begin. A byte order mark may begin a line, and takes a column there. -/
def toNextTokenLoop : Nat → Scan Unit
  | 0 => fail
  | fuel + 1 => do
    let s ← get
    if s.column = 0 ∧ s.rest.head? = some '\uFEFF' then skip
    let tabs := s.inFlow || !s.keyAllowed
    skipWhile fun c => c == ' ' || (tabs && c == '\t')
    skipComment
    match ← peek with
    | some c =>
      if isBreak c then
        let _ ← line
        if !s.inFlow then allowKey true
        toNextTokenLoop fuel
    | none => pure ()

def toNextToken : Scan Unit := do
  toNextTokenLoop (← fuel)

end Scan

end RuleScope.Yaml
