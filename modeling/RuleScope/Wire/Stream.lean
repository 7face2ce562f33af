namespace RuleScope.Wire

/-- The lines before the stream broke off or ended. -/
structure Lines where
  texts : List String
  broken : Bool
  deriving DecidableEq, Repr

/-- Pieces up to and without each line feed, then what is left. -/
def pieces : List UInt8 → List UInt8 → List (List UInt8) × List UInt8
  | piece, [] => ([], piece.reverse)
  | piece, b :: rest =>
    if b = 10 then
      let (more, left) := pieces [] rest
      (piece.reverse :: more, left)
    else pieces (b :: piece) rest

/-- A piece without the carriage return at its end. -/
def dropReturn (piece : List UInt8) : List UInt8 :=
  if piece.getLast? = some 13 then piece.dropLast else piece

def textOfBytes? (bytes : List UInt8) : Option String := String.fromUTF8? ⟨bytes.toArray⟩

/-- Pieces as texts, up to the first that is no text. -/
def textsOf : List (List UInt8) → Lines
  | [] => ⟨[], false⟩
  | piece :: rest =>
    match textOfBytes? piece with
    | none => ⟨[], true⟩
    | some text =>
      let more := textsOf rest
      ⟨text :: more.texts, more.broken⟩

def Lines.ofBytes (bytes : List UInt8) : Lines :=
  let (complete, left) := pieces [] bytes
  textsOf (complete.map dropReturn ++ if left.isEmpty then [] else [left])

def Lines.ofText (text : String) : Lines := .ofBytes text.toUTF8.toList

end RuleScope.Wire
