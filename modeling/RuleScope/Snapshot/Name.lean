import RuleScope.Path.Text
import RuleScope.Text.Alphanumeric
import RuleScope.Text.Digits

namespace RuleScope.Snapshot

def fileExtension : String := "json"

/-- The name without one trailing `.json`. -/
def stem (name : String) : String :=
  let suffix := ['n', 'o', 's', 'j', '.']
  let reversed := name.toList.reverse
  if suffix.isPrefixOf reversed then String.ofList (reversed.drop suffix.length).reverse else name

def isValidStem (s : String) : Bool :=
  s ≠ "" && s ≠ "." && s ≠ ".." && s.toList.all (fun c => c ≠ '/' && c ≠ '\\')

/-- The file of a name in the directory `dir`, if it can be a name. -/
def path? (dir name : String) : Option String :=
  if isValidStem (stem name) then some (Path.join dir (stem name ++ "." ++ fileExtension)) else none

/-- The hash of a text: its bytes folded into 64 bits. -/
def textHash (s : String) : UInt64 :=
  s.toUTF8.data.foldl (fun h b => (h ^^^ b.toUInt64) * 0x100000001b3) 0xcbf29ce484222325

/-- A character of a directory name as it appears in a session name. -/
def sessionChar (c : Char) : Char :=
  if Text.isAlphanumeric c || c == '-' || c == '_' then c else '_'

/-- The name of the snapshot that a session over this source root keeps. -/
def sessionName (sourceRoot : String) : String :=
  let name := ((Path.fileName? sourceRoot).getD "").map sessionChar
  let hash := String.ofList (Text.hexFixed 16 (textHash sourceRoot).toNat)
  if name = "" then "session-" ++ hash else "session-" ++ name ++ "-" ++ hash

end RuleScope.Snapshot
