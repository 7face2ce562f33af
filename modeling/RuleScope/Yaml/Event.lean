import RuleScope.Yaml.Token.Lexer

namespace RuleScope.Yaml

/-- The nodes of a text in order, with the beginnings and ends of collections. -/
inductive Event where
  | alias (name : String)
  | scalar (anchor : Option String) (tag : Option Tag) (text : String) (plain : Bool)
  | sequenceStart (anchor : Option String) (tag : Option Tag)
  | sequenceEnd
  | mappingStart (anchor : Option String) (tag : Option Tag)
  | mappingEnd
  | documentStart
  | documentEnd
  deriving DecidableEq, Repr, Inhabited

namespace Event

def empty : Event := .scalar none none "" true

/-- What is to be read next. -/
inductive Goal where
  | document (explicit : Bool)
  | content
  | documentEnd
  | node (block indentless : Bool)
  | blockEntry
  | indentlessEntry
  | blockKey
  | blockValue
  | flowEntry (first : Bool)
  | pairKey
  | pairValue
  | pairEnd
  | flowKey (first : Bool)
  | flowValue (missing : Bool)
  deriving DecidableEq, Repr

/-- Reads the grammar with a stack of what to read next. A missing key or value is an empty plain
scalar. -/
structure Machine where
  tokens : List Token
  goals : List Goal
  /-- Handles and what they stand for. -/
  handles : List (String × Tag)
  events : List Event

def defaultHandles : List (String × Tag) := [("!", .mark), ("!!", .core "")]

/-- Reads directives; a version or a handle must not be given twice. -/
def directives : List Token → Bool → List (String × Tag) →
    Option (List Token × List (String × Tag))
  | .versionDirective major minor :: rest, versioned, handles =>
    if versioned || major ≠ 1 || (minor ≠ 1 && minor ≠ 2) then none
    else directives rest true handles
  | .tagDirective handle stem :: rest, versioned, handles =>
    if (handles.lookup handle).isSome then none
    else directives rest versioned (handles ++ [(handle, stem)])
  | tokens, _, handles => some (tokens, handles ++ defaultHandles)

def resolveTag (handles : List (String × Tag)) (handle : String) (suffix : Tag) : Option Tag :=
  if handle = "" then some suffix else (handles.lookup handle).map (·.append suffix)

/-- Anchor and tag before a node, in either order. -/
def properties (handles : List (String × Tag)) :
    List Token → Option (Option String × Option Tag × List Token)
  | .anchor a :: .tag h s :: rest => do return (some a, some (← resolveTag handles h s), rest)
  | .anchor a :: rest => some (some a, none, rest)
  | .tag h s :: .anchor a :: rest => do return (some a, some (← resolveTag handles h s), rest)
  | .tag h s :: rest => do return (none, some (← resolveTag handles h s), rest)
  | rest => some (none, none, rest)

namespace Machine

def emit (m : Machine) (e : Event) (tokens : List Token) (goals : List Goal) : Machine :=
  { m with tokens := tokens, goals := goals, events := e :: m.events }

/-- Reads a node. -/
def node (m : Machine) (goals : List Goal) (block indentless : Bool) : Option Machine :=
  match m.tokens with
  | .alias name :: rest => some (m.emit (.alias name) rest goals)
  | tokens => do
    let (anchor, tag, rest) ← properties m.handles tokens
    match rest with
    | .scalar text plain :: rest =>
      -- the bare exclamation mark leaves a scalar untagged
      let tag := if tag = some .mark then none else tag
      return m.emit (.scalar anchor tag text plain) rest goals
    | .flowSequenceStart :: rest =>
      return m.emit (.sequenceStart anchor tag) rest (.flowEntry true :: goals)
    | .flowMappingStart :: rest =>
      return m.emit (.mappingStart anchor tag) rest (.flowKey true :: goals)
    | .blockEntry :: _ =>
      if indentless then
        return m.emit (.sequenceStart anchor tag) rest (.indentlessEntry :: goals)
      else if anchor.isSome || tag.isSome then
        return m.emit (.scalar anchor tag "" true) rest goals
      else none
    | .blockSequenceStart :: more =>
      if block then return m.emit (.sequenceStart anchor tag) more (.blockEntry :: goals)
      else if anchor.isSome || tag.isSome then
        return m.emit (.scalar anchor tag "" true) rest goals
      else none
    | .blockMappingStart :: more =>
      if block then return m.emit (.mappingStart anchor tag) more (.blockKey :: goals)
      else if anchor.isSome || tag.isSome then
        return m.emit (.scalar anchor tag "" true) rest goals
      else none
    | rest =>
      if anchor.isSome || tag.isSome then return m.emit (.scalar anchor tag "" true) rest goals
      else none

/-- A node, or an empty one when a token of `stops` comes first. -/
def nodeUnless (m : Machine) (tokens : List Token) (stops : Token → Bool) (goals : List Goal)
    (block indentless : Bool) : Option Machine :=
  match tokens with
  | t :: _ =>
    if stops t then some (m.emit empty tokens goals)
    else ({ m with tokens := tokens } : Machine).node goals block indentless
  | [] => none

def beginsDocument : Token → Bool
  | .versionDirective _ _ | .tagDirective _ _ | .documentStart => true
  | _ => false

def endsEntry : Token → Bool
  | .blockEntry | .blockEnd => true
  | _ => false

def endsIndentless : Token → Bool
  | .blockEntry | .key | .value | .blockEnd => true
  | _ => false

def endsPart : Token → Bool
  | .key | .value | .blockEnd => true
  | _ => false

/-- Reads the next goal. -/
def step (m : Machine) (goal : Goal) (goals : List Goal) : Option Machine :=
  match goal, m.tokens with
  | .document explicit, tokens =>
    let tokens := if explicit then tokens.dropWhile (· == .documentEnd) else tokens
    match tokens with
    | .streamEnd :: _ => some { m with tokens := tokens, goals := [] }
    | t :: _ =>
      if !explicit && !beginsDocument t then
        some (({ m with handles := defaultHandles } : Machine).emit .documentStart tokens
          (.node true false :: .documentEnd :: goals))
      else do
        let (rest, handles) ← directives tokens false []
        match rest with
        | .documentStart :: rest =>
          return ({ m with handles := handles } : Machine).emit .documentStart rest
            (.content :: .documentEnd :: goals)
        | _ => none
    | [] => none
  | .content, tokens =>
    m.nodeUnless tokens (fun t => beginsDocument t || t == .documentEnd || t == .streamEnd)
      goals true false
  | .documentEnd, tokens =>
    let rest :=
      match tokens with
      | .documentEnd :: rest => rest
      | rest => rest
    some (m.emit .documentEnd rest (.document true :: goals))
  | .node block indentless, _ => m.node goals block indentless
  | .blockEntry, .blockEntry :: rest =>
    m.nodeUnless rest endsEntry (.blockEntry :: goals) true false
  | .blockEntry, .blockEnd :: rest => some (m.emit .sequenceEnd rest goals)
  | .blockEntry, _ => none
  | .indentlessEntry, .blockEntry :: rest =>
    m.nodeUnless rest endsIndentless (.indentlessEntry :: goals) true false
  | .indentlessEntry, tokens => some (m.emit .sequenceEnd tokens goals)
  | .blockKey, .key :: rest => m.nodeUnless rest endsPart (.blockValue :: goals) true true
  | .blockKey, .blockEnd :: rest => some (m.emit .mappingEnd rest goals)
  | .blockKey, _ => none
  | .blockValue, .value :: rest => m.nodeUnless rest endsPart (.blockKey :: goals) true true
  | .blockValue, tokens => some (m.emit empty tokens (.blockKey :: goals))
  | .flowEntry first, tokens => do
    let rest ←
      match first, tokens with
      | true, tokens => some tokens
      | false, .flowEntry :: rest => some rest
      | false, .flowSequenceEnd :: rest => some (.flowSequenceEnd :: rest)
      | false, _ => none
    match rest with
    | .flowSequenceEnd :: rest => return m.emit .sequenceEnd rest goals
    | .key :: rest =>
      return m.emit (.mappingStart none none) rest
        (.pairKey :: .pairValue :: .pairEnd :: .flowEntry false :: goals)
    | rest => ({ m with tokens := rest } : Machine).node (.flowEntry false :: goals) false false
  | .pairKey, t :: rest =>
    if t == .value || t == .flowEntry || t == .flowSequenceEnd then
      some (m.emit empty rest goals)
    else m.node goals false false
  | .pairKey, [] => none
  | .pairValue, .value :: rest =>
    m.nodeUnless rest (fun t => t == .flowEntry || t == .flowSequenceEnd) goals false false
  | .pairValue, tokens => some (m.emit empty tokens goals)
  | .pairEnd, tokens => some (m.emit .mappingEnd tokens goals)
  | .flowKey first, tokens => do
    let rest ←
      match first, tokens with
      | true, tokens => some tokens
      | false, .flowEntry :: rest => some rest
      | false, .flowMappingEnd :: rest => some (.flowMappingEnd :: rest)
      | false, _ => none
    match rest with
    | .flowMappingEnd :: rest => return m.emit .mappingEnd rest goals
    | .key :: rest =>
      m.nodeUnless rest
        (fun t => t == .value || t == .flowEntry || t == .flowMappingEnd)
        (.flowValue false :: goals) false false
    | rest => ({ m with tokens := rest } : Machine).node (.flowValue true :: goals) false false
  | .flowValue true, tokens => some (m.emit empty tokens (.flowKey false :: goals))
  | .flowValue false, .value :: rest =>
    m.nodeUnless rest (fun t => t == .flowEntry || t == .flowMappingEnd)
      (.flowKey false :: goals) false false
  | .flowValue false, tokens => some (m.emit empty tokens (.flowKey false :: goals))

/-- Runs until no goal is left. -/
def run : Nat → Machine → Option (List Event)
  | 0, _ => none
  | fuel + 1, m =>
    match m.goals with
    | [] => some m.events.reverse
    | goal :: goals => (m.step goal goals).bind (run fuel)

end Machine

/-- The events of a list of tokens. Between two tokens the machine takes only a few steps. -/
def ofTokens? (tokens : List Token) : Option (List Event) :=
  Machine.run (8 * tokens.length + 8) ⟨tokens, [.document false], [], []⟩

end Event

end RuleScope.Yaml
