import RuleScope.Text.Digits
import RuleScope.Text.Printable

namespace RuleScope.Text

/-- A character by its code point, `\u{e9}`. -/
def codePointEscape (c : Char) : List Char :=
  ['\\', 'u', '\x7b'] ++ hexChars c.toNat ++ ['\x7d']

def escapeChar (c : Char) : List Char :=
  if c = '\x00' then ['\\', '0']
  else if c = '\t' then ['\\', 't']
  else if c = '\r' then ['\\', 'r']
  else if c = '\n' then ['\\', 'n']
  else if c = '"' then ['\\', '"']
  else if c = '\\' then ['\\', '\\']
  else if isPrintable c then [c]
  else codePointEscape c

def quotedChars (cs : List Char) : List Char := '"' :: cs.flatMap escapeChar ++ ['"']

/-- The text between quotation marks, escaped. -/
def quoted (s : String) : String := String.ofList (quotedChars s.toList)

/-- A path between quotation marks; the apostrophe is escaped too. -/
def quotedPath (s : String) : String :=
  String.ofList
    ('"' :: s.toList.flatMap (fun c => if c = '\x27' then ['\\', c] else escapeChar c) ++ ['"'])

end RuleScope.Text
