import RuleScope.Text.Digits

namespace RuleScope

inductive Json where
  | null
  | boolean (b : Bool)
  | integer (i : Int)
  | string (s : String)
  | list (items : List Json)
  | object (fields : List (String × Json))
  deriving Repr, Inhabited

namespace Json

/-- A character inside a JSON string. -/
def escapeChar (c : Char) : List Char :=
  if c = '"' then ['\\', '"']
  else if c = '\\' then ['\\', '\\']
  else if c = '\n' then ['\\', 'n']
  else if c = '\r' then ['\\', 'r']
  else if c = '\t' then ['\\', 't']
  else if c = '\x08' then ['\\', 'b']
  else if c = '\x0c' then ['\\', 'f']
  else if c.toNat < 32 then ['\\', 'u', '0', '0'] ++ Text.hexFixed 2 c.toNat
  else [c]

def stringChars (s : String) : List Char := '"' :: s.toList.flatMap escapeChar ++ ['"']

def boolChars (b : Bool) : List Char :=
  if b then ['t', 'r', 'u', 'e'] else ['f', 'a', 'l', 's', 'e']

mutual
/-- The text on one line. -/
def compactChars : Json → List Char
  | null => ['n', 'u', 'l', 'l']
  | boolean b => boolChars b
  | integer i => Text.intChars i
  | string s => stringChars s
  | list items => '[' :: compactItems items ++ [']']
  | object fields => '\x7b' :: compactFields fields ++ ['\x7d']

def compactItems : List Json → List Char
  | [] => []
  | [x] => compactChars x
  | x :: y :: rest => compactChars x ++ ',' :: compactItems (y :: rest)

def compactFields : List (String × Json) → List Char
  | [] => []
  | [(k, v)] => stringChars k ++ ':' :: compactChars v
  | (k, v) :: f :: rest => stringChars k ++ ':' :: compactChars v ++ ',' :: compactFields (f :: rest)
end

def newline (level : Nat) : List Char := '\n' :: List.replicate (2 * level) ' '

mutual
/-- The text over several lines, for a value that stands at the given level. -/
def prettyChars (level : Nat) : Json → List Char
  | null => ['n', 'u', 'l', 'l']
  | boolean b => boolChars b
  | integer i => Text.intChars i
  | string s => stringChars s
  | list [] => ['[', ']']
  | list (x :: items) =>
    '[' :: newline (level + 1) ++ prettyItems (level + 1) (x :: items) ++ newline level ++ [']']
  | object [] => ['\x7b', '\x7d']
  | object (f :: fields) =>
    '\x7b' :: newline (level + 1) ++ prettyFields (level + 1) (f :: fields) ++ newline level ++
      ['\x7d']

def prettyItems (level : Nat) : List Json → List Char
  | [] => []
  | [x] => prettyChars level x
  | x :: y :: rest =>
    prettyChars level x ++ ',' :: newline level ++ prettyItems level (y :: rest)

def prettyFields (level : Nat) : List (String × Json) → List Char
  | [] => []
  | [(k, v)] => stringChars k ++ ':' :: ' ' :: prettyChars level v
  | (k, v) :: f :: rest =>
    stringChars k ++ ':' :: ' ' :: prettyChars level v ++ ',' :: newline level ++
      prettyFields level (f :: rest)
end

def compact (j : Json) : String := String.ofList (compactChars j)

def pretty (j : Json) : String := String.ofList (prettyChars 0 j)

end Json

end RuleScope
