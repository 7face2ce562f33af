import RuleScope.Json.Scalar
import RuleScope.Json.Value

namespace RuleScope.Json

/-- What may stand between two parts of a text. -/
structure Blanks where
  chars : List Char
  blank : ∀ c ∈ chars, Reader.isSpace c = true

def Blanks.none : Blanks := ⟨[], by simp⟩

def Blanks.append (a b : Blanks) : Blanks :=
  ⟨a.chars ++ b.chars, fun c hc => (List.mem_append.mp hc).elim (a.blank c) (b.blank c)⟩

theorem Blanks.chars_append (a b : Blanks) (s : List Char) :
    a.chars ++ (b.chars ++ s) = (a.append b).chars ++ s := (List.append_assoc _ _ _).symm

/-- A character of a string as written, or one half of a surrogate pair. -/
inductive Glyph where
  | plain (c : Char) (printable : 32 ≤ c.toNat) (quote : c ≠ '"') (escape : c ≠ '\\')
  | short (letter c : Char) (known : Reader.shortEscape? letter = some c)
  | unit (a b c d : Char) (code : Nat) (hex : Reader.hexFour? a b c d = some code)

namespace Glyph

def chars : Glyph → List Char
  | plain c _ _ _ => [c]
  | short letter _ _ => ['\\', letter]
  | unit a b c d _ _ => ['\\', 'u', a, b, c, d]

def IsLeading (code : Nat) : Prop := 0xD800 ≤ code ∧ code ≤ 0xDBFF

def IsTrailing (code : Nat) : Prop := 0xDC00 ≤ code ∧ code ≤ 0xDFFF

instance (code : Nat) : Decidable (IsLeading code) := inferInstanceAs (Decidable (_ ∧ _))

instance (code : Nat) : Decidable (IsTrailing code) := inferInstanceAs (Decidable (_ ∧ _))

/-- The characters that some glyphs stand for, if no half of a surrogate pair is left over. -/
def decode? : List Glyph → Option (List Char)
  | [] => some []
  | plain c _ _ _ :: rest => (decode? rest).map (c :: ·)
  | short _ c _ :: rest => (decode? rest).map (c :: ·)
  | unit _ _ _ _ code _ :: rest =>
    if IsTrailing code then none
    else if ¬IsLeading code then (decode? rest).map (Char.ofNat code :: ·)
    else
      match rest with
      | unit _ _ _ _ low _ :: rest =>
        if IsTrailing low then
          (decode? rest).map
            (Char.ofNat (0x10000 + (code - 0xD800) * 0x400 + (low - 0xDC00)) :: ·)
        else none
      | _ => none

end Glyph

structure StringText where
  glyphs : List Glyph

namespace StringText

def chars (t : StringText) : List Char := '"' :: t.glyphs.flatMap Glyph.chars ++ ['"']

def text? (t : StringText) : Option String := (Glyph.decode? t.glyphs).map String.ofList

end StringText

structure Digits where
  chars : List Char
  digit : ∀ c ∈ chars, Text.isDigit c = true
  nonempty : chars ≠ []

structure Exponent where
  upper : Bool
  /-- Whether the sign is a minus, where one is written. -/
  sign : Option Bool
  digits : Digits

def Exponent.chars (e : Exponent) : List Char :=
  (if e.upper then 'E' else 'e') ::
    ((match e.sign with
      | some true => ['-']
      | some false => ['+']
      | none => []) ++ e.digits.chars)

/-- The exponent, where one is written. -/
def exponentChars : Option Exponent → List Char
  | some e => e.chars
  | none => []

/-- A number as written. Its whole part has no leading zeros. -/
structure NumberText where
  negative : Bool
  whole : Nat
  fraction : Option Digits
  exponent : Option Exponent

namespace NumberText

/-- What follows the whole part. -/
def tail (n : NumberText) : List Char :=
  match n.fraction with
  | some digits => '.' :: (digits.chars ++ exponentChars n.exponent)
  | none => exponentChars n.exponent

/-- What follows the sign. -/
def unsigned (n : NumberText) : List Char := Text.natChars n.whole ++ n.tail

def chars (n : NumberText) : List Char := if n.negative then '-' :: n.unsigned else n.unsigned

/-- The value of an integer literal: no fraction, no exponent and no negative zero. -/
def integer? (n : NumberText) : Option Int :=
  if n.fraction.isSome ∨ n.exponent.isSome ∨ (n.negative ∧ n.whole = 0) then none
  else if n.negative then some (-n.whole)
  else some n.whole

end NumberText

/-- The blanks around an item of a list. -/
structure Margins where
  before : Blanks
  after : Blanks

/-- The key of a field, with the blanks around it, the colon and the value. -/
structure Label where
  before : Blanks
  key : StringText
  middle : Blanks
  gap : Blanks
  after : Blanks

inductive Doc where
  | null
  | boolean (b : Bool)
  | number (n : NumberText)
  | string (t : StringText)
  | list (inside : Blanks) (items : List (Margins × Doc))
  | object (inside : Blanks) (fields : List (Label × Doc))

namespace Doc

mutual
/-- The text of a value. The blanks `inside` follow the opening bracket. -/
def chars : Doc → List Char
  | null => ['n', 'u', 'l', 'l']
  | boolean b => boolChars b
  | number n => n.chars
  | string t => t.chars
  | list inside items => '[' :: (inside.chars ++ ((itemsChars items).tail ++ [']']))
  | object inside fields => '\x7b' :: (inside.chars ++ ((fieldsChars fields).tail ++ ['\x7d']))

/-- The items of a list, a comma before each. -/
def itemsChars : List (Margins × Doc) → List Char
  | [] => []
  | (m, v) :: rest =>
    ',' :: (m.before.chars ++ (v.chars ++ (m.after.chars ++ itemsChars rest)))

/-- The fields of an object, a comma before each. -/
def fieldsChars : List (Label × Doc) → List Char
  | [] => []
  | (l, v) :: rest =>
    ',' :: (l.before.chars ++ (l.key.chars ++ (l.middle.chars ++
      ':' :: (l.gap.chars ++ (v.chars ++ (l.after.chars ++ fieldsChars rest))))))
end

/-- The items of a list up to its end, with a comma before the first one unless none was read. -/
def itemsFrom (first : Bool) (items : List (Margins × Doc)) : List Char :=
  if first then (itemsChars items).tail else itemsChars items

def fieldsFrom (first : Bool) (fields : List (Label × Doc)) : List Char :=
  if first then (fieldsChars fields).tail else fieldsChars fields

section

variable (m : Margins) (l : Label) (v : Doc) (items : List (Margins × Doc))
  (fields : List (Label × Doc)) (inside : Blanks) (s : List Char)

theorem itemsChars_cons_append : itemsChars ((m, v) :: items) ++ s =
    ',' :: (m.before.chars ++ (v.chars ++ (m.after.chars ++ (itemsChars items ++ s)))) := by
  simp only [itemsChars, List.cons_append, List.append_assoc]

theorem itemsFrom_nil (first : Bool) : itemsFrom first [] = [] := by cases first <;> rfl

theorem itemsFrom_first_append : itemsFrom true ((m, v) :: items) ++ s =
    m.before.chars ++ (v.chars ++ (m.after.chars ++ (itemsChars items ++ s))) := by
  simp only [itemsFrom, if_true, itemsChars, List.tail_cons, List.append_assoc]

theorem itemsFrom_next_append : itemsFrom false ((m, v) :: items) ++ s =
    ',' :: (m.before.chars ++ (v.chars ++ (m.after.chars ++ (itemsChars items ++ s)))) :=
  itemsChars_cons_append m v items s

theorem fieldsChars_cons_append : fieldsChars ((l, v) :: fields) ++ s =
    ',' :: (l.before.chars ++ (l.key.chars ++ (l.middle.chars ++ ':' :: (l.gap.chars ++
      (v.chars ++ (l.after.chars ++ (fieldsChars fields ++ s))))))) := by
  simp only [fieldsChars, List.cons_append, List.append_assoc]

theorem fieldsFrom_nil (first : Bool) : fieldsFrom first [] = [] := by cases first <;> rfl

theorem fieldsFrom_first_append : fieldsFrom true ((l, v) :: fields) ++ s =
    l.before.chars ++ (l.key.chars ++ (l.middle.chars ++ ':' :: (l.gap.chars ++
      (v.chars ++ (l.after.chars ++ (fieldsChars fields ++ s)))))) := by
  simp only [fieldsFrom, if_true, fieldsChars, List.tail_cons, List.append_assoc, List.cons_append]

theorem fieldsFrom_next_append : fieldsFrom false ((l, v) :: fields) ++ s =
    ',' :: (l.before.chars ++ (l.key.chars ++ (l.middle.chars ++ ':' :: (l.gap.chars ++
      (v.chars ++ (l.after.chars ++ (fieldsChars fields ++ s))))))) :=
  fieldsChars_cons_append l v fields s

theorem chars_list_append : (list inside items).chars ++ s =
    '[' :: (inside.chars ++ (itemsFrom true items ++ ']' :: s)) := by
  simp only [chars, itemsFrom, if_true, List.cons_append, List.append_assoc, List.nil_append]

theorem chars_object_append : (object inside fields).chars ++ s =
    '\x7b' :: (inside.chars ++ (fieldsFrom true fields ++ '\x7d' :: s)) := by
  simp only [chars, fieldsFrom, if_true, List.cons_append, List.append_assoc, List.nil_append]

end

/-- Induction over a document and all values inside it. -/
@[induction_eliminator, elab_as_elim]
theorem induct {P : Doc → Prop} (null : P null) (boolean : ∀ b, P (boolean b))
    (number : ∀ n, P (number n)) (string : ∀ t, P (string t))
    (list : ∀ inside items, (∀ x ∈ items, P x.2) → P (list inside items))
    (object : ∀ inside fields, (∀ x ∈ fields, P x.2) → P (object inside fields)) : ∀ v, P v :=
  @Doc.rec P (fun items => ∀ x ∈ items, P x.2) (fun fields => ∀ x ∈ fields, P x.2)
    (fun x => P x.2) (fun x => P x.2) null boolean number string list object
    (by simp) (fun _ _ hx hrest => List.forall_mem_cons.mpr ⟨hx, hrest⟩) (by simp)
    (fun _ _ hx hrest => List.forall_mem_cons.mpr ⟨hx, hrest⟩) (fun _ _ h => h) (fun _ _ h => h)

end Doc

end RuleScope.Json
