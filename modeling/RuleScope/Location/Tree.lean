import RuleScope.Diagnostic
import RuleScope.RuleId

namespace RuleScope

/-- What a node is besides its label and its place. -/
inductive LocationKind where
  | imported (path : Option String) (diagnostics : List Diagnostic)
  | rule (id : RuleId) (expression : String) (baseTerms : List String)
  deriving DecidableEq, Repr

/-- A node of a location file with all that lies below it. -/
structure Location where
  label : String
  line : Nat
  kind : LocationKind
  children : List Location
  deriving Repr

namespace LocationKind

def isImport : LocationKind → Bool
  | imported _ _ => true
  | rule _ _ _ => false

end LocationKind

namespace Location

def isImport (l : Location) : Bool := l.kind.isImport

mutual
/-- The number of nodes. -/
def count : Location → Nat
  | ⟨_, _, _, children⟩ => 1 + countAll children

def countAll : List Location → Nat
  | [] => 0
  | l :: rest => l.count + countAll rest
end

end Location

end RuleScope
