import RuleScope.Path.Text

namespace RuleScope

/-- An absolute path in normal form: the names from the root down. -/
structure AbsPath where
  names : List String
  deriving DecidableEq, Repr, Inhabited

namespace AbsPath

def root : AbsPath := ⟨[]⟩

def text (p : AbsPath) : String :=
  match p.names with
  | [] => "/"
  | names => String.join (names.map ("/" ++ ·))

def child (p : AbsPath) (name : String) : AbsPath := ⟨p.names ++ [name]⟩

def parent? (p : AbsPath) : Option AbsPath :=
  if p.names.isEmpty then none else some ⟨p.names.dropLast⟩

/-- The path and those above it, the root last. -/
def upwards (p : AbsPath) : List AbsPath :=
  (List.range (p.names.length + 1)).map fun k => ⟨p.names.take (p.names.length - k)⟩

def fileName? (p : AbsPath) : Option String := p.names.getLast?

/-- The last name; the whole text for the root. -/
def name (p : AbsPath) : String := p.fileName?.getD p.text

/-- `p` is `top` or lies somewhere below it. -/
def isWithin (p top : AbsPath) : Bool := top.names.isPrefixOf p.names

def isRuleSource (p : AbsPath) : Bool :=
  match p.fileName? with
  | some name => (Path.splitExtension name).2 == some Path.ruleExtension
  | none => false

def leNames : List String → List String → Bool
  | [], _ => true
  | _ :: _, [] => false
  | a :: as, b :: bs => a < b || (a = b && leNames as bs)

/-- Names are compared one by one, each by its characters. -/
def le (a b : AbsPath) : Bool := leNames a.names b.names

/-- One part further. -/
def step (p : AbsPath) : Path.Part → AbsPath
  | .root => root
  | .here => p
  | .up => ⟨p.names.dropLast⟩
  | .name s => p.child s

/-- The place that a written path names when nothing on disk matters. -/
def lexical (cwd : AbsPath) (path : String) : AbsPath :=
  (Path.parts path).foldl step cwd

end AbsPath

end RuleScope
