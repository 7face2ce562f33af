import RuleScope.Yaml.Token.Scanner

namespace RuleScope.Yaml.Scan

/-- Blanks and breaks between two words of a scalar. -/
structure Gap where
  /-- Blanks before the first break. -/
  blanks : String
  /-- The first break and the breaks after it. -/
  first : String
  more : String
  broken : Bool

def Gap.none : Gap := ⟨"", "", "", false⟩

/-- The text that a gap stands for. -/
def Gap.fold (g : Gap) : String :=
  if g.broken then
    if g.first = "\n" then (if g.more = "" then " " else g.more) else g.first ++ g.more
  else g.blanks

/-- Reads blanks and breaks. In a plain scalar tabs must not stand for indentation. -/
def gapLoop (tabsFrom : Int) : Nat → Gap → Scan Gap
  | 0, _ => fail
  | fuel + 1, g => do
    match ← peek with
    | some c =>
      if isBlank c then
        if g.broken && c == '\t' && ((← column) : Int) < tabsFrom then fail
        skip
        gapLoop tabsFrom fuel (if g.broken then g else { g with blanks := g.blanks.push c })
      else if isBreak c then
        let l ← line
        gapLoop tabsFrom fuel
          (if g.broken then { g with more := g.more ++ l }
          else { g with blanks := "", first := l, broken := true })
      else pure g
    | none => pure g

/-- The number of characters up to the end of a word of a plain scalar. -/
def plainRun (flow : Bool) : List Char → Option Nat
  | [] => some 0
  | c :: r =>
    let next := r.head?
    let flowNext : Bool :=
      match next with
      | some d => isFlowIndicator d || d == '?'
      | none => false
    if isBlank c || isBreak c then some 0
    else if flow && c == ':' && flowNext then none
    else if (c == ':' && isSpaceOrEnd next) || (flow && isFlowIndicator c) then some 0
    else (plainRun flow r).map (· + 1)

/-- Reads words of a plain scalar after `text` and the gap after it. Gives the text and whether the
scalar ended on a line further down. -/
def plainLoop (indent : Int) : Nat → String → Gap → Scan (String × Bool)
  | 0, _, _ => fail
  | fuel + 1, text, gap => do
    if (← atAnyDocumentMark) || (← peek) == some '#' then return (text, gap.broken)
    let flow ← inFlow
    match plainRun flow (← get).rest with
    | none => fail
    | some n =>
      let word := String.ofList ((← get).rest.take n)
      skipN n
      let text := if n = 0 then text else text ++ gap.fold ++ word
      let gap := if n = 0 then gap else .none
      match ← peek with
      | some c =>
        if isBlank c || isBreak c then
          let gap ← gapLoop indent (← Scan.fuel) gap
          if !flow && ((← column) : Int) < indent then return (text, gap.broken)
          plainLoop indent fuel text gap
        else return (text, gap.broken)
      | none => return (text, gap.broken)

def plainScalar : Scan Unit := do
  let s ← get
  let (text, broken) ← plainLoop (s.indent + 1) (← fuel) "" .none
  if broken then allowKey true
  emit (.scalar text true)

/-- Characters escaped by one letter in double quotes. -/
def escape? : Char → Option Char
  | '0' => some '\x00'
  | 'a' => some '\x07'
  | 'b' => some '\x08'
  | 't' => some '\t'
  | '\t' => some '\t'
  | 'n' => some '\n'
  | 'v' => some '\x0b'
  | 'f' => some '\x0c'
  | 'r' => some '\r'
  | 'e' => some '\x1b'
  | ' ' => some ' '
  | '"' => some '"'
  | '/' => some '/'
  | '\\' => some '\\'
  | 'N' => some '\x85'
  | '_' => some '\xa0'
  | 'L' => some '\u2028'
  | 'P' => some '\u2029'
  | _ => none

/-- The number of hexadecimal digits after an escape letter. -/
def hexWidth? : Char → Option Nat
  | 'x' => some 2
  | 'u' => some 4
  | 'U' => some 8
  | _ => none

/-- A character by hexadecimal digits. -/
def hexChar? (width : Nat) (cs : List Char) : Option Char := do
  let digits ← (cs.take width).mapM Text.hexValue?
  if digits.length < width then none
  let value := digits.foldl (fun n d => 16 * n + d) 0
  if (0xD800 ≤ value && value ≤ 0xDFFF) || 0x10FFFF < value then none
  return Char.ofNat value

/-- Reads the text of a quoted scalar up to the next blank, break or closing quotation mark. Tells
whether the run ended with an escaped line break. -/
def quotedRun (single : Bool) : Nat → String → Scan (String × Bool)
  | 0, _ => fail
  | fuel + 1, text => do
    match ← peek, ← peekAt 1 with
    | none, _ => pure (text, false)
    | some c, next =>
      if isBlank c || isBreak c then pure (text, false)
      else if single && c == '\x27' && next == some '\x27' then
        skipN 2
        quotedRun single fuel (text.push c)
      else if c == (if single then '\x27' else '"') then pure (text, false)
      else if !single && c == '\\' then
        match next with
        | none => fail
        | some e =>
          if isBreak e then
            skip
            let _ ← line
            pure (text, true)
          else
            match escape? e, hexWidth? e with
            | some x, _ =>
              skipN 2
              quotedRun single fuel (text.push x)
            | none, some width =>
              match hexChar? width ((← get).rest.drop 2) with
              | some x =>
                skipN (2 + width)
                quotedRun single fuel (text.push x)
              | none => fail
            | none, none => fail
      else
        skip
        quotedRun single fuel (text.push c)

def quotedLoop (single : Bool) : Nat → String → Scan String
  | 0, _ => fail
  | fuel + 1, text => do
    if ← atAnyDocumentMark then fail
    let (text, escaped) ← quotedRun single (← Scan.fuel) text
    match ← peek with
    | none => fail
    | some c =>
      if c == (if single then '\x27' else '"') then pure text
      else
        let gap ← gapLoop (-1) (← Scan.fuel) { Gap.none with broken := escaped }
        quotedLoop single fuel (text ++ gap.fold)

def quotedScalar (single : Bool) : Scan Unit := do
  skip
  let text ← quotedLoop single (← fuel) ""
  skip
  emit (.scalar text false)

/-- What happens to the line breaks at the end of a block scalar. -/
inductive Chomping where
  | strip
  | clip
  | keep
  deriving DecidableEq

def chomping? : Option Char → Option Chomping
  | some '+' => some .keep
  | some '-' => some .strip
  | _ => none

/-- An indentation given by a digit. -/
def increment : Scan (Option Nat) := do
  match ← peek with
  | some c =>
    if Text.isDigit c then
      ensure (c != '0')
      skip
      return some (Text.digitValue c)
    else return none
  | none => return none

/-- The marks after the indicator of a block scalar, in either order. -/
def blockHeader : Scan (Chomping × Option Nat) := do
  match chomping? (← peek) with
  | some ch =>
    skip
    let inc ← increment
    return (ch, inc)
  | none =>
    let inc ← increment
    if inc.isSome then
      match chomping? (← peek) with
      | some ch =>
        skip
        return (ch, inc)
      | none => return (.clip, inc)
    else return (.clip, none)

/-- Reads empty lines and indentation; gives the breaks and the widest indentation seen. -/
def blockBreaksLoop (indent : Nat) : Nat → Nat → String → Scan (Nat × String)
  | 0, _, _ => fail
  | fuel + 1, widest, breaks => do
    let s ← get
    let blanks := (s.rest.takeWhile (· == ' ')).length
    skipN (if indent = 0 then blanks else min blanks (indent - s.column))
    let column ← column
    let widest := max widest column
    match ← peek with
    | some c =>
      if c == '\t' && (indent == 0 || column < indent) then fail
      else if isBreak c then
        let l ← line
        blockBreaksLoop indent fuel widest (breaks ++ l)
      else return (widest, breaks)
    | none => return (widest, breaks)

/-- Like `blockBreaksLoop`, and settles the indentation when it was not known. -/
def blockBreaks (indent : Nat) : Scan (Nat × String) := do
  let (widest, breaks) ← blockBreaksLoop indent (← fuel) 0 ""
  let outer := ((← get).indent + 1).toNat
  return (if indent = 0 then max (max widest outer) 1 else indent, breaks)

/-- Reads the lines of a block scalar. `broken` is the break of the line before, `empty` the breaks
of the empty lines after it. -/
def blockLoop (literal : Bool) (indent : Nat) :
    Nat → String → String → String → Bool → Scan (String × String × String)
  | 0, _, _, _, _ => fail
  | fuel + 1, text, broken, empty, afterBlank => do
    let column ← column
    match ← peek with
    | some c =>
      if column = indent then
        let blank := isBlank c
        let joined :=
          if !literal && broken == "\n" && !afterBlank && !blank then
            text ++ (if empty = "" then " " else "")
          else text ++ broken
        let content ← takeWhile (fun c => !isBreak c)
        let broken ← line
        let (_, next) ← blockBreaks indent
        blockLoop literal indent fuel (joined ++ empty ++ content) broken next blank
      else return (text, broken, empty)
    | none => return (text, broken, empty)

def blockScalar (literal : Bool) : Scan Unit := do
  skip
  let (chomping, inc) ← blockHeader
  skipWhile isBlank
  skipComment
  ensure (isBreakOrEnd (← peek))
  let _ ← line
  let s ← get
  let given :=
    match inc with
    | some n => (max s.indent 0).toNat + n
    | none => 0
  let (indent, leading) ← blockBreaks given
  let (text, broken, empty) ← blockLoop literal indent (← fuel) "" "" leading false
  let tail :=
    match chomping with
    | .strip => ""
    | .clip => broken
    | .keep => broken ++ empty
  emit (.scalar (text ++ tail) false)

end RuleScope.Yaml.Scan
