import RuleScope.Json.Reader
import RuleScope.Wire.Message

namespace RuleScope.Wire

open Json (Reader)
open Json.Reader
open Schema (Mismatch Found)

/-- The method and the parameters are judged by one of these. -/
inductive Method where
  | state
  | log
  deriving DecidableEq, Repr

def Method.ofName? (name : String) : Option Method :=
  if name = stateMethod then some .state else if name = logMethod then some .log else none

/-- Parameters whose types have been checked, but not the state code. -/
inductive Params where
  | state (rule : RuleId) (code : Int)
  | log (rule : RuleId) (results : List Bool)
  deriving DecidableEq, Repr

/-- A number as a state code. -/
def codeOf (n : Json.Numeral) : Except Mismatch Int :=
  n.toIntWithin (-(Text.maxInt32 : Int) - 1) Text.maxInt32 "i32"

/-- A number as a rule id. -/
def ruleOf (n : Json.Numeral) : Except Mismatch RuleId := do
  let i ← codeOf n
  match RuleId.ofInt? i with
  | some id => .ok id
  | none => .error (.wrongValue (.integer i) "i32")

def codeReader : Reader Int := numeral "i32" codeOf

def ruleReader : Reader RuleId := numeral "i32" ruleOf

/-- Why a line is no message, or a message no line. -/
inductive MessageFault where
  | unreadable (e : Json.ReadError)
  | unknownState (code : Int)
  | derivedState (s : LoggingState)
  deriving DecidableEq, Repr

def MessageFault.message : MessageFault → String
  | unreadable e => e.message
  | unknownState code => "unknown logging state code " ++ Text.intText code
  | derivedState s => s.display ++ " cannot be sent to the runtime"

/-- The method name of a line. -/
def methodReader : Reader String :=
  record "struct Envelope"
    (do
      let found ← fields (σ := Option String)
        (fun found key => if key = "method" then once "method" found string
          else skipField *> pure found)
        none
      match found with
      | some name => pure name
      | none => failData (.missingField "method"))
    (do
      match ← field? true string with
      | some name => pure name
      | none => failData (.wrongLength 0 "struct Envelope with 1 element"))

/-- A value read before it is known what it should be. What is inside an object does not matter. -/
inductive Untyped where
  | null
  | boolean (b : Bool)
  | number (n : Json.Numeral)
  | string (s : String)
  | list (items : List Untyped)
  | object
  deriving Repr

def Untyped.found : Untyped → Found
  | null => .null
  | boolean b => .boolean b
  | number n => n.found
  | string s => .string s
  | list _ => .sequence
  | object => .map

/-- Reads a value without types. Each level of recursion enters a container, so the depth limit
bounds the levels. -/
def untyped : Nat → Reader Untyped
  | 0 => failAhead .recursionLimit
  | levels + 1 => located do
    match ← valueStart with
    | 'n' =>
      unit
      pure .null
    | 't' => .boolean <$> boolean
    | 'f' => .boolean <$> boolean
    | '-' =>
      advance
      .number <$> number false
    | '"' => .string <$> string
    | '[' => within (.list <$> items (untyped levels)) listEnd
    | '\x7b' =>
      within
        (fields (σ := Unit) (fun _ _ => do
          colon
          discard (untyped levels)) () *> pure .object)
        objectEnd
    | c => if Text.isDigit c then .number <$> number true else failAhead .expectedValue

def tupleName : Method → String
  | .state => "tuple variant Wire::SetLoggingState"
  | .log => "tuple variant Wire::LogRule"

def tooShort {α : Type} (method : Method) (length : Nat) : Reader α :=
  failData (.wrongLength length (tupleName method ++ " with 2 elements"))

/-- The parameters at the cursor. -/
def paramsReader (method : Method) : Reader Params :=
  tuple
    (do
      match ← field? true ruleReader with
      | none => tooShort method 0
      | some rule =>
        match method with
        | .state =>
          match ← field? false codeReader with
          | none => tooShort method 1
          | some code => pure (.state rule code)
        | .log =>
          match ← field? false (list boolean "a sequence") with
          | none => tooShort method 1
          | some results => pure (.log rule results))
    (tupleName method)

/-- A value where a number is wanted. -/
def Untyped.toNumeral (u : Untyped) : Except Mismatch Json.Numeral :=
  match u with
  | number n => .ok n
  | u => .error (.wrongType u.found "i32")

def Untyped.toBool (u : Untyped) : Except Mismatch Bool :=
  match u with
  | boolean b => .ok b
  | u => .error (.wrongType u.found "a boolean")

/-- The parameters in a value that was read without types. -/
def Untyped.toParams (method : Method) (u : Untyped) : Except Mismatch Params :=
  let short (n : Nat) : Except Mismatch Params :=
    .error (.wrongLength n (tupleName method ++ " with 2 elements"))
  match u with
  | list [] => short 0
  | list (rule :: rest) => do
    let rule ← rule.toNumeral >>= ruleOf
    match rest with
    | [] => short 1
    | second :: more =>
      let params ←
        match method with
        | .state => (Params.state rule) <$> (second.toNumeral >>= codeOf)
        | .log =>
          match second with
          | list results => (Params.log rule) <$> results.mapM Untyped.toBool
          | u => .error (.wrongType u.found "a sequence")
      if more.isEmpty then .ok params
      else .error (.wrongLength (2 + more.length) "2 elements in sequence")
  | u => .error (.wrongType u.found (tupleName method))

/-- What is known of a message while its fields are read. -/
inductive Progress where
  | start
  | method (m : Method)
  | params (p : Untyped)
  | done (p : Params)

/-- Judges parameters that were read before the method. -/
def settle (method : Method) (u : Untyped) : Reader Progress :=
  match u.toParams method with
  | .ok p => pure (.done p)
  | .error m => failData m

def methodNames : List String := [stateMethod, logMethod]

/-- Reads the field `key`. -/
def messageField (progress : Progress) (key : String) : Reader Progress :=
  if key = "method" then
    match progress with
    | .start => do
      colon
      .method <$> variant methodNames Method.ofName?
    | .params u => do
      colon
      let m ← variant methodNames Method.ofName?
      settle m u
    | _ => failData (.duplicateField "method")
  else if key = "params" then
    match progress with
    | .start => do
      colon
      .params <$> untyped Json.depthLimit
    | .method m => do
      colon
      .done <$> paramsReader m
    | _ => failData (.duplicateField "params")
  else skipField *> pure progress

def messageReader : Reader Params :=
  record "adjacently tagged enum Wire"
    (do
      match ← fields messageField .start with
      | .done p => pure p
      | .method _ => failData (.missingField "params")
      | _ => failData (.missingField "method"))
    (do
      match ← field? true (variant methodNames Method.ofName?) with
      | none => failData (.wrongLength 0 "adjacently tagged enum Wire")
      | some m =>
        match ← field? false (paramsReader m) with
        | some p => pure p
        | none => failData (.wrongLength 1 "adjacently tagged enum Wire"))

/-- The message of checked parameters; only the code of a state can still be wrong. -/
def Params.toMessage : Params → Except MessageFault Message
  | state rule code =>
    match LoggingState.ofWireCode? code with
    | some s => .ok (.state ⟨rule, s⟩)
    | none => .error (.unknownState code)
  | log rule results => .ok (.log ⟨rule, results⟩)

/-- The message of a line: none for a method that is not known. -/
def decode (line : String) : Except MessageFault (Option Message) :=
  match run methodReader line with
  | .error e => .error (.unreadable e)
  | .ok name =>
    if (Method.ofName? name).isNone then .ok none
    else
      match run messageReader line with
      | .error e => .error (.unreadable e)
      | .ok params => some <$> params.toMessage

end RuleScope.Wire
