import RuleScope.Number.FloatText
import RuleScope.Text.Quoted

namespace RuleScope.Schema

/-- A value as a reader sees it before knowing whether it fits. -/
inductive Found where
  | null
  | boolean (b : Bool)
  | integer (i : Int)
  | float (x : Number.Binary64)
  | string (s : String)
  | sequence
  | map
  | nan
  | enumeration
  deriving DecidableEq, Repr

/-- Why data does not fit the type it is read as. -/
inductive Mismatch where
  | wrongType (found : Found) (expected : String)
  | wrongValue (found : Found) (expected : String)
  | wrongLength (length : Nat) (expected : String)
  | unknownVariant (name : String) (expected : List String)
  | missingField (name : String)
  | duplicateField (name : String)
  deriving DecidableEq, Repr

/-- The wording of one format. -/
structure Wording where
  null : String
  floats : Number.FloatStyle

def Found.describe (w : Wording) : Found → String
  | null => w.null
  | boolean b => "boolean `" ++ (if b then "true" else "false") ++ "`"
  | integer i => "integer `" ++ Text.intText i ++ "`"
  | float x => "floating point `" ++ Number.floatText w.floats x ++ "`"
  | string s => "string " ++ Text.quoted s
  | sequence => "sequence"
  | map => "map"
  | nan => "floating point `NaN`"
  | enumeration => "enum"

/-- Alternatives in backquotes: one alone, two with "or", more as a list. -/
def oneOf : List String → String
  | [] => ""
  | [a] => "`" ++ a ++ "`"
  | [a, b] => "`" ++ a ++ "` or `" ++ b ++ "`"
  | names => "one of " ++ String.intercalate ", " (names.map fun n => "`" ++ n ++ "`")

def Mismatch.message (w : Wording) : Mismatch → String
  | wrongType found expected => "invalid type: " ++ found.describe w ++ ", expected " ++ expected
  | wrongValue found expected => "invalid value: " ++ found.describe w ++ ", expected " ++ expected
  | wrongLength n expected => "invalid length " ++ Text.natText n ++ ", expected " ++ expected
  | unknownVariant name expected => "unknown variant `" ++ name ++ "`, expected " ++ oneOf expected
  | missingField name => "missing field `" ++ name ++ "`"
  | duplicateField name => "duplicate field `" ++ name ++ "`"

end RuleScope.Schema
