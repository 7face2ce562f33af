namespace RuleScope.Path

/-- A part of a written path. Repeated slashes and dots between parts mean nothing; a leading dot is
a part of its own. -/
inductive Part where
  | root
  | here
  | up
  | name (s : String)
  deriving DecidableEq, Repr

/-- The pieces between slashes, empty ones included. -/
def piecesFrom : List Char → List Char → List String
  | piece, [] => [String.ofList piece.reverse]
  | piece, c :: r =>
    if c = '/' then String.ofList piece.reverse :: piecesFrom [] r else piecesFrom (c :: piece) r

def pieces (path : String) : List String := piecesFrom [] path.toList

def isAbsolute (path : String) : Bool := path.toList.head? == some '/'

/-- The part that a piece stands for, if any. -/
def partOfPiece? (piece : String) : Option Part :=
  if piece = "" ∨ piece = "." then none
  else if piece = ".." then some .up
  else some (.name piece)

/-- The parts of a path. -/
def parts (path : String) : List Part :=
  let ps := pieces path
  let tail := ps.filterMap partOfPiece?
  if isAbsolute path then .root :: tail
  else if ps.head? = some "." then .here :: tail
  else tail

/-- The path `path` seen from `base`; an absolute one stands for itself. -/
def join (base path : String) : String :=
  if isAbsolute path then path
  else if base = "" then path
  else if base.toList.getLast? = some '/' then base ++ path
  else base ++ "/" ++ path

/-- The last part, when it is a name. -/
def fileName? (path : String) : Option String :=
  match (parts path).getLast? with
  | some (.name s) => some s
  | _ => none

/-- A path with these parts. -/
def ofParts (ps : List Part) : String :=
  let word : Part → String
    | .root => ""
    | .here => "."
    | .up => ".."
    | .name s => s
  match ps with
  | [.root] => "/"
  | ps => String.intercalate "/" (ps.map word)

/-- The path without its last part; the root and the empty path have none. -/
def parent? (path : String) : Option String :=
  match (parts path).reverse with
  | [] => none
  | [.root] => none
  | _ :: rest => some (ofParts rest.reverse)

/-- The name up to its last dot and the extension after it. A name whose only dot leads has no
extension. -/
def splitExtension (name : String) : String × Option String :=
  let reversed := name.toList.reverse
  let ext := reversed.takeWhile (· ≠ '.')
  match reversed.dropWhile (· ≠ '.') with
  | [] => (name, none)
  | [_] => (name, none)
  | _ :: stem => (String.ofList stem.reverse, some (String.ofList ext.reverse))

def extension? (path : String) : Option String :=
  (fileName? path).bind fun name => (splitExtension name).2

/-- The extension of rule sources. -/
def ruleExtension : String := "rudi"

def isRuleSource (path : String) : Bool := extension? path == some ruleExtension

end RuleScope.Path
