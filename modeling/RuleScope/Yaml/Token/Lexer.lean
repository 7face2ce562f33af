import RuleScope.Yaml.Token.Scalar

namespace RuleScope.Yaml

namespace Scan

/-- At most nine digits of a version. -/
def versionNumber : Scan Nat := do
  let digits ← takeWhile Text.isDigit
  ensure (digits ≠ "" && digits.length ≤ 9)
  return Text.decimalValue digits.toList

/-- A handle: an exclamation mark, letters, and a second mark. In a directive the second mark is
missing only from the handle that is one mark alone. -/
def tagHandle (directive : Bool) : Scan String := do
  ensure ((← peek) == some '!')
  skip
  let name ← takeWhile isWord
  if (← peek) = some '!' then
    skip
    return "!" ++ name ++ "!"
  else
    ensure (!directive || name = "")
    return "!" ++ name

/-- The number of octets that a leading octet announces. -/
def octetWidth? (n : Nat) : Option Nat :=
  if n < 0x80 then some 1
  else if 0xC0 ≤ n ∧ n < 0xE0 then some 2
  else if 0xE0 ≤ n ∧ n < 0xF0 then some 3
  else if 0xF0 ≤ n ∧ n < 0xF8 then some 4
  else none

/-- One octet, a percent sign and two hexadecimal digits. -/
def escapedOctet : Scan Nat := do
  match ← peek, ← peekAt 1, ← peekAt 2 with
  | some '%', some a, some b =>
    match Text.hexValue? a, Text.hexValue? b with
    | some x, some y =>
      skipN 3
      return 16 * x + y
    | _, _ => fail
  | _, _, _ => fail

def trailingOctets : Nat → Scan (List UInt8)
  | 0 => pure []
  | n + 1 => do
    let o ← escapedOctet
    ensure (0x80 ≤ o && o < 0xC0)
    return UInt8.ofNat o :: (← trailingOctets n)

/-- A leading octet and as many octets after it as it announces; they need not be a character. -/
def escapedOctets : Scan (List UInt8) := do
  let o ← escapedOctet
  match octetWidth? o with
  | some width => return UInt8.ofNat o :: (← trailingOctets (width - 1))
  | none => fail

def tagOctetsLoop (verbatim : Bool) : Nat → List UInt8 → Scan (List UInt8)
  | 0, _ => fail
  | fuel + 1, octets => do
    match ← peek with
    | some c =>
      if c == '%' then tagOctetsLoop verbatim fuel (octets ++ (← escapedOctets))
      else if isTagChar verbatim c then
        skip
        tagOctetsLoop verbatim fuel (octets ++ [UInt8.ofNat c.toNat])
      else pure octets
    | none => pure octets

/-- A tag, or a part of one, after what the handle left of it; something is written on the whole. -/
def tagOctets (verbatim : Bool) (head : String) : Scan Tag := do
  let before := (Tag.ofText head).octets.drop 1
  let octets ← tagOctetsLoop verbatim (← fuel) before
  ensure (head ≠ "" || !octets.isEmpty)
  return .ofOctets octets

def directive : Scan Unit := do
  skip
  let name ← takeWhile isWord
  ensure (name ≠ "" && isSpaceOrEnd (← peek))
  if name = "YAML" then
    skipWhile isBlank
    let major ← versionNumber
    ensure ((← peek) == some '.')
    skip
    let minor ← versionNumber
    emit (.versionDirective major minor)
  else if name = "TAG" then
    skipWhile isBlank
    let handle ← tagHandle true
    ensure ((← peek).any isBlank)
    skipWhile isBlank
    let stem ← tagOctets true ""
    ensure (isSpaceOrEnd (← peek))
    emit (.tagDirective handle stem)
  else fail
  skipWhile isBlank
  skipComment
  ensure (isBreakOrEnd (← peek))
  discard line

/-- What may follow the name of an anchor or an alias. -/
def endsAnchor (c : Option Char) : Bool :=
  isSpaceOrEnd c || c.any fun c => ['?', ':', ',', ']', '\x7d', '%', '@', '\x60'].contains c

def anchorName : Scan String := do
  skip
  let name ← takeWhile isWord
  ensure (name ≠ "" && endsAnchor (← peek))
  return name

/-- A tag: verbatim in angle brackets, with a handle, or local. -/
def tag : Scan Unit := do
  let (handle, suffix) ←
    if (← peekAt 1) = some '<' then do
      skipN 2
      let suffix ← tagOctets true ""
      ensure ((← peek) == some '>')
      skip
      pure ("", suffix)
    else do
      let handle ← tagHandle false
      if 2 ≤ handle.length && handle.toList.getLast? == some '!' then
        pure (handle, ← tagOctets false "")
      else
        let suffix ← tagOctets false handle
        pure (if suffix.isEmpty then ("", .mark) else ("!", suffix))
  let next ← peek
  ensure (((← inFlow) && next == some ',') || isSpaceOrEnd next)
  emit (.tag handle suffix)

def documentMark (t : Token) : Scan Unit := do
  unrollIndent (-1)
  removeKey
  allowKey false
  skipN 3
  emit t

def flowStart (t : Token) : Scan Unit := do
  saveKey
  modify fun s => { s with keys := .none :: s.keys, keyAllowed := true }
  skip
  emit t

def flowEnd (t : Token) : Scan Unit := do
  removeKey
  modify fun s => { s with keys := if s.inFlow then s.keys.tail else s.keys, keyAllowed := false }
  skip
  emit t

def flowEntry : Scan Unit := do
  removeKey
  allowKey true
  skip
  emit .flowEntry

/-- In block context an entry, a key or a value may begin only where a key may. -/
def openBlock (t : Token) : Scan Unit := do
  let s ← get
  if !s.inFlow then
    ensure s.keyAllowed
    rollIndent s.column none t

def blockEntry : Scan Unit := do
  openBlock .blockSequenceStart
  removeKey
  allowKey true
  skip
  emit .blockEntry

def explicitKey : Scan Unit := do
  openBlock .blockMappingStart
  removeKey
  allowKey !(← inFlow)
  skip
  emit .key

def mappingValue : Scan Unit := do
  let s ← get
  match s.keys with
  | k :: rest =>
    if k.possible then
      set { s with
        tokens := s.tokens.insertIdxIfInBounds k.token .key
        keys := { k with possible := false } :: rest
        keyAllowed := false }
      rollIndent k.column (some k.token) .blockMappingStart
    else
      openBlock .blockMappingStart
      allowKey !s.inFlow
    skip
    emit .value
  | [] => fail

def streamEnd : Scan Unit := do
  modify fun s => if s.column = 0 then s else { s with column := 0, line := s.line + 1 }
  unrollIndent (-1)
  removeKey
  allowKey false
  emit .streamEnd

/-- A token that may begin a key. -/
def keyed (r : Scan Unit) : Scan Unit := do
  saveKey
  allowKey false
  r

/-- Takes the next token, or more than one; tells whether the text has ended. -/
def next : Scan Bool := do
  toNextToken
  removeStaleKeys
  unrollIndent (← column)
  let s ← get
  let c1 := s.rest[1]?
  match s.rest with
  | [] =>
    streamEnd
    return true
  | c :: _ =>
    if s.column = 0 && c == '%' then
      unrollIndent (-1)
      removeKey
      allowKey false
      directive
    else if ← atDocumentMark '-' then documentMark .documentStart
    else if ← atDocumentMark '.' then documentMark .documentEnd
    else if c == '[' then flowStart .flowSequenceStart
    else if c == '\x7b' then flowStart .flowMappingStart
    else if c == ']' then flowEnd .flowSequenceEnd
    else if c == '\x7d' then flowEnd .flowMappingEnd
    else if c == ',' then flowEntry
    else if c == '-' && isSpaceOrEnd c1 then blockEntry
    else if c == '?' && (s.inFlow || isSpaceOrEnd c1) then explicitKey
    else if c == ':' && (s.inFlow || isSpaceOrEnd c1) then mappingValue
    else if c == '*' then keyed do emit (.alias (← anchorName))
    else if c == '&' then keyed do emit (.anchor (← anchorName))
    else if c == '!' then keyed tag
    else if (c == '|' || c == '>') && !s.inFlow then
      removeKey
      allowKey true
      blockScalar (c == '|')
    else if c == '\x27' || c == '"' then keyed (quotedScalar (c == '\x27'))
    else if (!isIndicator c && !isBlank c) || (c == '-' && !c1.any isBlank) ||
        (!s.inFlow && (c == '?' || c == ':') && !isSpaceOrEnd c1) then
      keyed plainScalar
    else fail
    return false

def allLoop : Nat → Scan Unit
  | 0 => fail
  | fuel + 1 => do
    if ← next then pure () else allLoop fuel

end Scan

/-- The tokens of a text. -/
def Token.ofText? (text : String) : Option (List Token) :=
  if text.toList.all isAllowed then
    (Scan.allLoop (text.toList.length + 1) (.start text)).map fun (_, s) => s.tokens.toList
  else none

end RuleScope.Yaml
