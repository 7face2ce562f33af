import RuleScope.Yaml.Load

namespace RuleScope.Yaml

/-- A word of letters and digits, short enough for a key. -/
structure Word where
  chars : List Char
  begun : chars ≠ [] := by decide
  plain : chars.all Char.isAlphanum := by decide
  short : chars.length ≤ 1024 := by decide

namespace Word

def text (w : Word) : String := String.ofList w.chars

theorem isAlphanum_of_mem (w : Word) : ∀ c ∈ w.chars, c.isAlphanum := List.all_eq_true.mp w.plain

theorem exists_cons (w : Word) : ∃ c cs, w.chars = c :: cs ∧ c.isAlphanum := by
  obtain ⟨c, cs, hcs⟩ := List.exists_cons_of_ne_nil w.begun
  exact ⟨c, cs, hcs, w.isAlphanum_of_mem c (by rw [hcs]; exact List.mem_cons_self)⟩

end Word

inductive Flow where
  | word (w : Word)
  | list (items : List Flow)
  | record (fields : List (Word × Flow))

namespace Flow

def isWord : Flow → Bool
  | word _ => true
  | _ => false

/-- What stands before an item: a comma, but not before the first. -/
def mark (first : Bool) : List Char := if first then [] else [',', ' ']

def comma (first : Bool) : List Token := if first then [] else [.flowEntry]

mutual
def chars : Flow → List Char
  | word w => w.chars
  | list items => '[' :: itemChars true items
  | record fields => '\x7b' :: fieldChars true fields

def itemChars (first : Bool) : List Flow → List Char
  | [] => [']']
  | f :: rest => mark first ++ (f.chars ++ itemChars false rest)

def fieldChars (first : Bool) : List (Word × Flow) → List Char
  | [] => ['\x7d']
  | (k, f) :: rest => mark first ++ (k.chars ++ ':' :: ' ' :: (f.chars ++ fieldChars false rest))
end

def text (f : Flow) : String := String.ofList f.chars

mutual
def tokens : Flow → List Token
  | word w => [.scalar w.text true]
  | list items => .flowSequenceStart :: itemTokens true items
  | record fields => .flowMappingStart :: fieldTokens true fields

def itemTokens (first : Bool) : List Flow → List Token
  | [] => [.flowSequenceEnd]
  | f :: rest => comma first ++ (f.tokens ++ itemTokens false rest)

def fieldTokens (first : Bool) : List (Word × Flow) → List Token
  | [] => [.flowMappingEnd]
  | (k, f) :: rest => comma first ++
      (.key :: .scalar k.text true :: .value :: (f.tokens ++ fieldTokens false rest))
end

mutual
def events : Flow → List Event
  | word w => [.scalar none none w.text true]
  | list items => .sequenceStart none none :: itemEvents items
  | record fields => .mappingStart none none :: fieldEvents fields

def itemEvents : List Flow → List Event
  | [] => [.sequenceEnd]
  | f :: rest => f.events ++ itemEvents rest

def fieldEvents : List (Word × Flow) → List Event
  | [] => [.mappingEnd]
  | (k, f) :: rest => .scalar none none k.text true :: (f.events ++ fieldEvents rest)
end

mutual
/-- What a node says. No two keys of a record are the same. -/
def value? : Flow → Option Value
  | word w => resolvePlain w.text
  | list items => (itemValues? items).map .sequence
  | record fields => (fieldValues? fields).map .mapping

def itemValues? : List Flow → Option (List Value)
  | [] => some []
  | f :: rest => do
    let v ← f.value?
    let vs ← itemValues? rest
    return v :: vs

def fieldValues? : List (Word × Flow) → Option (List (Value × Value))
  | [] => some []
  | (k, f) :: rest => do
    let key ← resolvePlain k.text
    let v ← f.value?
    let vs ← fieldValues? rest
    if vs.any fun (l, _) => key.same l then none else some ((key, v) :: vs)
end

end Flow

/-- A loop comes from one state to another, in no more rounds than the state gets smaller by. -/
def Advances {α β : Type} (run : Nat → α → β) (size : α → Nat) (a a' : α) : Prop :=
  ∃ n, n + size a' ≤ size a ∧ ∀ fuel, run (fuel + n) a = run fuel a'

namespace Advances

variable {α β : Type} {run : Nat → α → β} {size : α → Nat} {a b c : α}

theorem refl (a : α) : Advances run size a a := ⟨0, by omega, fun _ => rfl⟩

theorem trans (h : Advances run size a b) (h' : Advances run size b c) :
    Advances run size a c := by
  obtain ⟨n, hn, hrun⟩ := h
  obtain ⟨m, hm, hrun'⟩ := h'
  refine ⟨n + m, by omega, fun fuel => ?_⟩
  have hsum : fuel + (n + m) = fuel + m + n := by omega
  rw [hsum, hrun, hrun']

theorem of_round (h : ∀ fuel, run (fuel + 1) a = run fuel b) (hless : size b < size a) :
    Advances run size a b := ⟨1, by omega, h⟩

end Advances

end RuleScope.Yaml
