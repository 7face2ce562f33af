import RuleScope.LoggingState
import RuleScope.RuleId
import RuleScope.Text.Digits

namespace RuleScope.Command

/-- The program itself or one of its commands. -/
inductive Level where
  | program
  | tree
  | locate
  | set
  | snapshot
  | save
  | apply
  | list
  | watch
  | config
  | configShow
  | configInit
  | configPath
  deriving DecidableEq, Repr

inductive Switch where
  | verbose
  | quiet
  | project
  | help
  | version
  | files
  | connect
  | address
  deriving DecidableEq, Repr

inductive Operand where
  | text
  | rule
  | state
  deriving DecidableEq, Repr

namespace Switch

def long : Switch → String
  | verbose => "verbose"
  | quiet => "quiet"
  | project => "project"
  | help => "help"
  | version => "version"
  | files => "files"
  | connect => "connect"
  | address => "address"

def short? : Switch → Option Char
  | verbose => some 'v'
  | quiet => some 'q'
  | project => some 'p'
  | help => some 'h'
  | version => some 'V'
  | connect => some 'c'
  | files | address => none

/-- Whether a value follows. -/
def takesValue : Switch → Bool
  | project | address => true
  | _ => false

end Switch

namespace Level

/-- The commands that can follow. -/
def commands : Level → List (String × Level)
  | program => [("show", tree), ("open", locate), ("set", set), ("snapshot", snapshot),
      ("watch", watch), ("config", config)]
  | snapshot => [("save", save), ("apply", apply), ("list", list)]
  | config => [("show", configShow), ("init", configInit), ("path", configPath)]
  | _ => []

def command? (l : Level) (word : String) : Option Level := l.commands.lookup word

def hasCommands (l : Level) : Bool := !l.commands.isEmpty

def switches (l : Level) : List Switch :=
  [.verbose, .quiet, .project, .help] ++
    match l with
    | program => [.version]
    | tree => [.files]
    | watch => [.connect, .address]
    | _ => []

def operands : Level → List Operand
  | locate => [.rule]
  | set => [.text, .state]
  | save | apply => [.text]
  | _ => []

end Level

/-- Why the reading ends before the end of the line. -/
inductive Stop where
  | help
  | version
  | misuse
  deriving DecidableEq, Repr

/-- What has been given at one level. -/
structure Given where
  switches : List Switch
  project : Option String
  address : Option String
  operands : List String
  deriving DecidableEq, Repr

namespace Given

def nothing : Given := ⟨[], none, none, []⟩

def has (g : Given) (s : Switch) : Bool := g.switches.contains s

/-- A switch without a value; each may be given once. -/
def switch (g : Given) (s : Switch) : Except Stop Given :=
  match s with
  | .help => .error .help
  | .version => .error .version
  | _ => if g.has s then .error .misuse else .ok { g with switches := s :: g.switches }

/-- A switch with its value. The project has a name. -/
def value (g : Given) (s : Switch) (text : String) : Except Stop Given := do
  let g ← g.switch s
  match s with
  | .project => if text = "" then .error .misuse else pure { g with project := some text }
  | .address => pure { g with address := some text }
  | _ => .error .misuse

def operand (g : Given) (l : Level) (text : String) : Except Stop Given :=
  let fits : Operand → Bool
    | .text => true
    | .rule => (Text.readInt Text.maxInt32 text.toList).toOption.isSome
    | .state => (LoggingState.ofName text).toOption.isSome
  match l.operands[g.operands.length]? with
  | some o => if fits o then .ok { g with operands := g.operands ++ [text] } else .error .misuse
  | none => .error .misuse

end Given

/-- A word that is understood, or that needs the next word as the value of a switch. -/
inductive Reading where
  | complete (g : Given)
  | wants (g : Given) (s : Switch)
  deriving Repr

/-- A word after two dashes: a name, and a value after an equals sign. -/
def readLong (l : Level) (g : Given) (body : List Char) : Except Stop Reading :=
  let name := String.ofList (body.takeWhile (· ≠ '='))
  match l.switches.find? (·.long == name), body.dropWhile (· ≠ '=') with
  | none, _ => .error .misuse
  | some s, [] => if s.takesValue then .ok (.wants g s) else (g.switch s).map .complete
  | some s, _ :: value =>
    if s.takesValue then (g.value s (String.ofList value)).map .complete else .error .misuse

/-- The letters after one dash. The first that takes a value takes the other letters as its value,
an equals sign before them left out. -/
def readShort (l : Level) (g : Given) : List Char → Except Stop Reading
  | [] => .ok (.complete g)
  | c :: rest =>
    match l.switches.find? (·.short? == some c) with
    | none => .error .misuse
    | some s =>
      if s.takesValue then
        match rest with
        | [] => .ok (.wants g s)
        | '=' :: value => (g.value s (String.ofList value)).map .complete
        | value => (g.value s (String.ofList value)).map .complete
      else
        match g.switch s with
        | .ok g => readShort l g rest
        | .error e => .error e

/-- Whether a word is a switch and not a value. A dash alone is a value. -/
def isSwitch (word : String) : Bool :=
  match word.toList with
  | '-' :: _ :: _ => true
  | _ => false

def readWord (l : Level) (g : Given) (word : String) : Except Stop Reading :=
  match word.toList with
  | '-' :: '-' :: body => readLong l g body
  | '-' :: c :: letters => readShort l g (c :: letters)
  | _ => (g.operand l word).map .complete

/-- Help on the command that these words lead to. -/
def helpOn (l : Level) : List String → Stop
  | [] => .help
  | word :: rest =>
    match l.command? word with
    | some sub => helpOn sub rest
    | none => if word = "help" ∧ l.hasCommands ∧ rest = [] then .help else .misuse

/-- Reads words at a level; gives what each level was given, the outermost first. -/
def readWords (l : Level) (g : Given) : List String → Except Stop (List (Level × Given))
  | [] => .ok [(l, g)]
  | word :: rest =>
    match l.command? word with
    | some sub => (readWords sub .nothing rest).map ((l, g) :: ·)
    | none =>
      if word = "help" ∧ l.hasCommands then .error (helpOn l rest)
      else if word = "--" then
        (rest.foldlM (fun (g : Given) text => g.operand l text) g).map fun g => [(l, g)]
      else
        match readWord l g word with
        | .error e => .error e
        | .ok (.complete g) => readWords l g rest
        | .ok (.wants g s) =>
          match rest with
          | [] => .error .misuse
          | value :: rest =>
            if isSwitch value then .error .misuse
            else
              match g.value s value with
              | .ok g => readWords l g rest
              | .error e => .error e

/-- What a command does. -/
inductive Action where
  | tree (files : Bool)
  | locate (rule : RuleId)
  | set (target : String) (state : LoggingState)
  | save (name : String)
  | apply (name : String)
  | list
  | watch (connect : Bool) (address : Option String)
  | configShow
  | configInit
  | configPath
  deriving DecidableEq, Repr

/-- The command of the innermost level, if it is complete. -/
def Level.complete? (l : Level) (g : Given) : Option Action :=
  match l, g.operands with
  | .program, [] => some (.tree false)
  | .tree, [] => some (.tree (g.has .files))
  | .locate, [rule] =>
    ((Text.readInt Text.maxInt32 rule.toList).toOption.bind RuleId.ofInt?).map .locate
  | .set, [target, state] => (LoggingState.ofName state).toOption.map (.set target)
  | .save, [name] => some (.save name)
  | .apply, [name] => some (.apply name)
  | .list, [] => some .list
  | .watch, [] => some (.watch (g.has .connect) g.address)
  | .configShow, [] => some .configShow
  | .configInit, [] => some .configInit
  | .configPath, [] => some .configPath
  | _, _ => none

/-- What the program is asked for. -/
structure Request where
  project : String
  action : Action
  deriving DecidableEq, Repr

/-- The project that the innermost level names; a level that names none takes the project of the
environment, which must have a name then. -/
def projectOf (levels : List Given) (environment : Option String) : Option String :=
  if environment = some "" && levels.any (·.project.isNone) then none
  else some ((levels.reverse.findSome? Given.project).getD (environment.getD "."))

/-- Reads the words after the name of the program. -/
def readLine (environment : Option String) (words : List String) : Except Stop Request := do
  let levels ← readWords .program .nothing words
  match levels.getLast?, projectOf (levels.map Prod.snd) environment with
  | some (l, g), some project =>
    match l.complete? g with
    | some action => pure ⟨project, action⟩
    | none => .error .misuse
  | _, _ => .error .misuse

end RuleScope.Command
