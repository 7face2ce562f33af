import RuleScope.Json.Scalar

namespace RuleScope.Json.Reader

open Schema (Mismatch Found)

/-- What stands at the cursor is of no use where `expected` was wanted. -/
def unexpected {α : Type} (expected : String) : Reader α := located do
  match ← peek? with
  | some 'n' =>
    advance
    ident ['u', 'l', 'l']
    failData (.wrongType .null expected)
  | some 't' =>
    advance
    ident ['r', 'u', 'e']
    failData (.wrongType (.boolean true) expected)
  | some 'f' =>
    advance
    ident ['a', 'l', 's', 'e']
    failData (.wrongType (.boolean false) expected)
  | some '-' =>
    advance
    let n ← number false
    failData (.wrongType n.found expected)
  | some '"' =>
    advance
    let s ← stringBody
    failData (.wrongType (.string s) expected)
  | some '[' => failData (.wrongType .sequence expected)
  | some '\x7b' => failData (.wrongType .map expected)
  | some c =>
    if Text.isDigit c then
      let n ← number true
      failData (.wrongType n.found expected)
    else failAhead .expectedValue
  | none => failAhead .expectedValue

/-- The first character of a value. -/
def valueStart : Reader Char := do
  match ← next? with
  | some c => pure c
  | none => failAhead .eofValue

def boolean : Reader Bool := do
  match ← valueStart with
  | 't' =>
    advance
    ident ['r', 'u', 'e']
    pure true
  | 'f' =>
    advance
    ident ['a', 'l', 's', 'e']
    pure false
  | _ => unexpected "a boolean"

/-- The absent value. -/
def unit : Reader Unit := do
  match ← valueStart with
  | 'n' =>
    advance
    ident ['u', 'l', 'l']
  | _ => unexpected "unit"

/-- A number, given to `accept`. -/
def numeral {α : Type} (expected : String) (accept : Numeral → Except Mismatch α) : Reader α := do
  let c ← valueStart
  let judge (n : Numeral) : Reader α :=
    match accept n with
    | .ok a => pure a
    | .error m => failData m
  if c = '-' then
    advance
    located (number false >>= judge)
  else if Text.isDigit c then located (number true >>= judge)
  else unexpected expected

/-- A natural number of at most `high`. -/
def natural (high : Nat) (expected : String) : Reader Nat :=
  numeral expected fun n => (n.toIntWithin 0 high expected).map Int.toNat

def stringAs (expected : String) : Reader String := do
  match ← valueStart with
  | '"' =>
    advance
    stringBody
  | _ => unexpected expected

def string : Reader String := stringAs "a string"

/-- A value or its absence. -/
def optional {α : Type} (r : Reader α) : Reader (Option α) := do
  match ← next? with
  | some 'n' =>
    advance
    ident ['u', 'l', 'l']
    pure none
  | _ => some <$> r

/-- Enters a container whose bracket is at the cursor. -/
def enter : Reader Unit := do
  let c ← get
  if c.depth ≤ 1 then failAhead .recursionLimit
  else
    set { c with depth := c.depth - 1 }
    advance

def leave : Reader Unit := modify fun c => { c with depth := c.depth + 1 }

def listEnd : Reader Unit := do
  match ← next? with
  | some ']' => advance
  | some ',' =>
    advance
    match ← next? with
    | some ']' => failAhead .trailingComma
    | _ => failAhead .trailingCharacters
  | some _ => failAhead .trailingCharacters
  | none => failAhead .eofList

def objectEnd : Reader Unit := do
  match ← next? with
  | some '\x7d' => advance
  | some ',' => failAhead .trailingComma
  | some _ => failAhead .trailingCharacters
  | none => failAhead .eofObject

/-- Reads the inside of a container and closes it. The closing is tried even after an error, which
is then reported at the place where the closing ended. -/
def within {α : Type} (inside : Reader α) (close : Reader Unit) : Reader α := do
  enter
  fun c =>
    match inside c with
    | .ok a c =>
      match (leave *> close) c with
      | .ok _ c => .ok a c
      | .error e c => .error e c
    | .error e c =>
      match (leave *> close) c with
      | .ok _ c => .error e c
      | .error _ c => .error e c

/-- Whether another item of a list follows; `first` before the first one. -/
def hasItem (first : Bool) : Reader Bool := do
  match ← next? with
  | none => failAhead .eofList
  | some ']' => pure false
  | some c =>
    if first then pure true
    else if c = ',' then
      advance
      match ← next? with
      | some ']' => failAhead .trailingComma
      | some _ => pure true
      | none => failAhead .eofValue
    else failAhead .expectedListEnd

/-- The next key of an object; `first` before the first one. -/
def key? (first : Bool) : Reader (Option String) := do
  match ← next? with
  | none => failAhead .eofObject
  | some '\x7d' => pure none
  | some c =>
    if first then
      if c = '"' then
        advance
        some <$> stringBody
      else failAhead .keyNotString
    else if c = ',' then
      advance
      match ← next? with
      | some '"' =>
        advance
        some <$> stringBody
      | some '\x7d' => failAhead .trailingComma
      | some _ => failAhead .keyNotString
      | none => failAhead .eofValue
    else failAhead .expectedObjectEnd

def colon : Reader Unit := do
  match ← next? with
  | some ':' => advance
  | some _ => failAhead .expectedColon
  | none => failAhead .eofObject

/-- Gives a loop as many rounds as there are characters left, and one more. -/
def withFuel {α : Type} (r : Nat → Reader α) : Reader α := fun c => r (c.rest.length + 1) c

/-- The items of a list up to its end. -/
def itemsLoop {α : Type} (item : Reader α) : Nat → Bool → List α → Reader (List α)
  | 0, _, _ => failAhead .eofList
  | fuel + 1, first, seen => do
    if ← hasItem first then
      let a ← item
      itemsLoop item fuel false (a :: seen)
    else pure seen.reverse

def items {α : Type} (item : Reader α) : Reader (List α) :=
  withFuel fun fuel => itemsLoop item fuel true []

/-- The fields of an object up to its end, folded with `step`, which reads the colon and the
value. -/
def fieldsLoop {σ : Type} (step : σ → String → Reader σ) : Nat → Bool → σ → Reader σ
  | 0, _, _ => failAhead .eofObject
  | fuel + 1, first, s => do
    match ← key? first with
    | some k =>
      let s ← step s k
      fieldsLoop step fuel false s
    | none => pure s

def fields {σ : Type} (step : σ → String → Reader σ) (start : σ) : Reader σ :=
  withFuel fun fuel => fieldsLoop step fuel true start

def list {α : Type} (item : Reader α) (expected : String) : Reader (List α) := located do
  match ← valueStart with
  | '[' => within (items item) listEnd
  | _ => unexpected expected

/-- A fixed number of values in a list, read by `inside`. -/
def tuple {α : Type} (inside : Reader α) (expected : String) : Reader α := located do
  match ← valueStart with
  | '[' => within inside listEnd
  | _ => unexpected expected

def map {α : Type} (inside : Reader α) : Reader α := located do
  match ← valueStart with
  | '\x7b' => within inside objectEnd
  | _ => unexpected "a map"

/-- A record, as an object or as the list of its fields in order. -/
def record {α : Type} (expected : String) (fromFields fromItems : Reader α) : Reader α :=
  located do
    match ← valueStart with
    | '[' => within fromItems listEnd
    | '\x7b' => within fromFields objectEnd
    | _ => unexpected expected

/-- The next field of a record given as a list, if there is one. -/
def field? {α : Type} (first : Bool) (r : Reader α) : Reader (Option α) := do
  if ← hasItem first then some <$> r else pure none

/-- The value of a field that must not have been given before. -/
def once {α : Type} (name : String) (before : Option α) (r : Reader α) : Reader (Option α) := do
  if before.isSome then failData (.duplicateField name)
  else
    colon
    some <$> r

/-- The name of a variant at the cursor. -/
def variantName {α : Type} (names : List String) (ofName? : String → Option α) : Reader α :=
  located do
    match ← valueStart with
    | '"' =>
      advance
      let s ← stringBody
      match ofName? s with
      | some a => pure a
      | none => failData (.unknownVariant s names)
    | _ => unexpected "variant identifier"

/-- One of several names, as a string or as the only key of an object with an absent value. -/
def variant {α : Type} (names : List String) (ofName? : String → Option α) : Reader α := do
  match ← next? with
  | some '"' => variantName names ofName?
  | some '\x7b' =>
    enter
    let a ← variantName names ofName?
    colon
    unit
    leave
    match ← next? with
    | some '\x7d' =>
      advance
      pure a
    | some _ => failHere .expectedValue
    | none => failHere .eofObject
  | some _ => failAhead .expectedValue
  | none => failAhead .eofValue

/-- The exponent of a number that is stepped over. -/
def skipExponent : Reader Unit := do
  advance
  let sign ← peek?
  if sign = some '+' ∨ sign = some '-' then advance
  match ← peek? with
  | some c => if Text.isDigit c then discard skipDigits else failAhead .invalidNumber
  | none => failHere .invalidNumber

/-- Steps over a number after its sign. -/
def skipNumber : Reader Unit := do
  match ← peek? with
  | none => failHere .invalidNumber
  | some c =>
    if c = '0' then
      advance
      if ← peekIsDigit then failAhead .invalidNumber
    else if Text.isDigit c then discard skipDigits
    else failAhead .invalidNumber
    let c ← peek?
    if c = some '.' then
      advance
      let count ← skipDigits
      if count = 0 then failAhead .invalidNumber
      if isExponentMark (← peek?) then skipExponent
    else if isExponentMark c then skipExponent

mutual
/-- Steps over a value of any kind and depth. -/
def skipLoop : Nat → Reader Unit
  | 0 => failAhead .eofValue
  | fuel + 1 => do
    match ← valueStart with
    | 'n' =>
      advance
      ident ['u', 'l', 'l']
    | 't' =>
      advance
      ident ['r', 'u', 'e']
    | 'f' =>
      advance
      ident ['a', 'l', 's', 'e']
    | '-' =>
      advance
      skipNumber
    | '"' =>
      advance
      skipStringBody
    | '[' =>
      advance
      match ← next? with
      | some ']' => advance
      | some _ => skipItems fuel
      | none => failAhead .eofList
    | '\x7b' =>
      advance
      match ← next? with
      | some '\x7d' => advance
      | some _ => skipFields fuel
      | none => failAhead .eofObject
    | c => if Text.isDigit c then skipNumber else failAhead .expectedValue

/-- Steps over one item of a list and those after it. -/
def skipItems : Nat → Reader Unit
  | 0 => failAhead .eofList
  | fuel + 1 => do
    skipLoop fuel
    match ← next? with
    | some ',' =>
      advance
      skipItems fuel
    | some ']' => advance
    | some _ => failAhead .expectedListEnd
    | none => failAhead .eofList

/-- Steps over one field of an object and those after it. -/
def skipFields : Nat → Reader Unit
  | 0 => failAhead .eofObject
  | fuel + 1 => do
    match ← next? with
    | some '"' =>
      advance
      skipStringBody
    | some _ => failAhead .keyNotString
    | none => failAhead .eofObject
    colon
    skipLoop fuel
    match ← next? with
    | some ',' =>
      advance
      skipFields fuel
    | some '\x7d' => advance
    | some _ => failAhead .expectedObjectEnd
    | none => failAhead .eofObject
end

/-- Steps over a value that is of no interest; its depth and its numbers are not limited. -/
def skipValue : Reader Unit := fun c => skipLoop (2 * c.rest.length + 2) c

/-- A field that is of no interest. -/
def skipField : Reader Unit := do
  colon
  skipValue

/-- Reads a value that nothing follows. -/
def whole {α : Type} (r : Reader α) : Reader α := do
  let a ← r
  match ← next? with
  | some _ => failAhead .trailingCharacters
  | none => pure a

/-- Reads a whole text. -/
def run {α : Type} (r : Reader α) (text : String) : Except ReadError α :=
  match whole r (.start text) with
  | .ok a _ => .ok a
  | .error e _ => .error e

end RuleScope.Json.Reader
