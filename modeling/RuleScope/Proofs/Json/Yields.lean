import RuleScope.Json.Reader

namespace RuleScope.Json

/-- Every value that the reader gives satisfies `p`. -/
def Yields {α : Type} (r : Reader α) (p : α → Prop) : Prop := ∀ c a c', r c = .ok a c' → p a

namespace Yields

variable {α β : Type} {p : α → Prop} {q : β → Prop} {r : Reader α}

theorem pure {a : α} (h : p a) : Yields (pure a) p := by
  intro c b c' he
  cases he
  exact h

theorem trivial (r : Reader α) : Yields r fun _ => True := fun _ _ _ _ => True.intro

theorem bind {f : α → Reader β} (h : Yields r p) (h' : ∀ a, p a → Yields (f a) q) :
    Yields (r >>= f) q := by
  intro c b c' he
  simp only [Bind.bind, EStateM.bind] at he
  split at he
  next a c₁ ha => exact h' a (h c a c₁ ha) c₁ b c' he
  next => cases he

/-- Nothing need be known of the first value. -/
theorem after {f : α → Reader β} (h : ∀ a, Yields (f a) q) : Yields (r >>= f) q :=
  (trivial r).bind fun a _ => h a

theorem map {f : α → β} (h : Yields r p) (hf : ∀ a, p a → q (f a)) : Yields (f <$> r) q := by
  intro c b c' he
  simp only [Functor.map, EStateM.map] at he
  split at he
  next a c₁ ha =>
    cases he
    exact hf a (h c a c' ha)
  next => cases he

end Yields

/-- Only a number below zero is read with its sign. -/
def Numeral.Signed (n : Numeral) : Prop := ∀ i, n = .negative i → i ≤ 0

theorem Numeral.toIntWithin_zero {n : Numeral} (h : n.Signed) {high : Nat} {expected : String}
    {i : Int} (hi : n.toIntWithin 0 high expected = .ok i) : i.toNat ≤ high := by
  cases n with
  | natural k =>
    simp only [toIntWithin] at hi
    split at hi
    next hk =>
      cases hi
      omega
    next => cases hi
  | negative j =>
    have hj := h j rfl
    simp only [toIntWithin] at hi
    split at hi
    next =>
      cases hi
      omega
    next => cases hi
  | float x => cases hi

namespace Reader

variable {α σ : Type} {p : α → Prop} {r : Reader α}

theorem yields_failAhead (fault : SyntaxFault) : Yields (failAhead (α := α) fault) p :=
  fun _ _ _ he => by cases he

theorem yields_failHere (fault : SyntaxFault) : Yields (failHere (α := α) fault) p :=
  fun _ _ _ he => by cases he

theorem yields_failData (data : Schema.Mismatch) : Yields (failData (α := α) data) p :=
  fun _ _ _ he => by cases he

theorem yields_located (h : Yields r p) : Yields (located r) p := by
  intro c a c' he
  unfold located at he
  split at he
  next hr =>
    cases he
    exact h _ _ _ hr
  next => cases he
  next => cases he

theorem yields_within {close : Reader Unit} (h : Yields r p) : Yields (within r close) p := by
  refine .after fun _ c a c' he => ?_
  split at he
  next hr =>
    split at he
    next =>
      cases he
      exact h _ _ _ hr
    next => cases he
  next =>
    split at he
    next => cases he
    next => cases he

theorem yields_unexpected (expected : String) : Yields (unexpected (α := α) expected) p := by
  refine yields_located (.after fun c => ?_)
  split
  case h_8 =>
    split
    · exact .after fun _ => yields_failData _
    · exact yields_failAhead _
  case h_9 => exact yields_failAhead _
  all_goals first
    | exact yields_failData _
    | exact .after fun _ => yields_failData _
    | exact .after fun _ => .after fun _ => yields_failData _

theorem yields_numberTail (positive : Bool) (value : Nat) :
    Yields (numberTail positive value) Numeral.Signed := by
  refine .after fun _ => .after fun _ => .after fun _ => ?_
  split
  · exact .after fun _ => .pure nofun
  split
  · exact .after fun _ => .pure nofun
  split
  · exact .after fun _ => .pure nofun
  split
  · exact .pure nofun
  split
  · exact .pure nofun
  · refine .pure fun i hi => ?_
    cases hi
    omega

theorem yields_number (positive : Bool) : Yields (number positive) Numeral.Signed := by
  refine .after fun c => ?_
  split
  next => exact yields_failHere _
  next c =>
    split
    next =>
      refine .after fun _ => .after fun digit => ?_
      split
      · exact yields_failAhead _
      · exact yields_numberTail _ _
    next =>
      split
      next => exact .after fun _ => yields_numberTail _ _
      next => exact yields_failAhead _

theorem yields_numeral {expected : String} {accept : Numeral → Except Schema.Mismatch α}
    (h : ∀ n a, n.Signed → accept n = .ok a → p a) : Yields (numeral expected accept) p := by
  refine .after fun c => ?_
  dsimp only
  split
  next =>
    refine .after fun _ => yields_located ((yields_number false).bind fun n hn => ?_)
    split
    next a ha => exact .pure (h n a hn ha)
    next => exact yields_failData _
  next =>
    split
    next =>
      refine yields_located ((yields_number true).bind fun n hn => ?_)
      split
      next a ha => exact .pure (h n a hn ha)
      next => exact yields_failData _
    next => exact yields_unexpected expected

theorem yields_natural (high : Nat) (expected : String) : Yields (natural high expected) (· ≤ high) := by
  refine yields_numeral fun n a hn ha => ?_
  cases hi : n.toIntWithin 0 high expected with
  | error m => simp [hi, Except.map] at ha
  | ok i =>
    obtain rfl : i.toNat = a := by simpa [hi, Except.map] using ha
    exact Numeral.toIntWithin_zero hn hi

theorem yields_fieldsLoop {p : σ → Prop} {step : σ → String → Reader σ}
    (h : ∀ s k, p s → Yields (step s k) p) (fuel : Nat) (first : Bool) {s : σ} (hs : p s) :
    Yields (fieldsLoop step fuel first s) p := by
  induction fuel generalizing first s with
  | zero => exact yields_failAhead _
  | succ fuel ih =>
    refine .after fun k => ?_
    split
    next k => exact (h s k hs).bind fun s hs => ih false hs
    next => exact .pure hs

theorem yields_fields {p : σ → Prop} {step : σ → String → Reader σ} {start : σ}
    (h : ∀ s k, p s → Yields (step s k) p) (hs : p start) : Yields (fields step start) p :=
  fun c => yields_fieldsLoop h _ true hs c

theorem yields_map (h : Yields r p) : Yields (map r) p := by
  refine yields_located (.after fun c => ?_)
  split
  next => exact yields_within h
  next => exact yields_unexpected _

theorem yields_record {expected : String} {fromItems : Reader α} (h : Yields r p)
    (h' : Yields fromItems p) : Yields (record expected r fromItems) p := by
  refine yields_located (.after fun c => ?_)
  split
  next => exact yields_within h'
  next => exact yields_within h
  next => exact yields_unexpected _

theorem yields_field? (first : Bool) (h : Yields r p) :
    Yields (field? first r) fun o => ∀ a ∈ o, p a := by
  refine .after fun more => ?_
  split
  · exact h.map (by simp)
  · exact .pure (by simp)

theorem yields_once (name : String) (before : Option α) (h : Yields r p) :
    Yields (once name before r) fun o => ∀ a ∈ o, p a := by
  unfold once
  split
  · exact yields_failData _
  · exact .after fun _ => h.map (by simp)

theorem yields_optional (h : Yields r p) : Yields (optional r) fun o => ∀ a ∈ o, p a := by
  refine .after fun c => ?_
  split
  · exact .after fun _ => .after fun _ => .pure (by simp)
  · exact h.map (by simp)

theorem yields_whole (h : Yields r p) : Yields (whole r) p := by
  refine h.bind fun a ha => .after fun c => ?_
  split
  · exact yields_failAhead _
  · exact .pure ha

theorem of_run {text : String} {a : α} (h : Yields r p) (ha : run r text = .ok a) : p a := by
  unfold run at ha
  split at ha
  next b c hb =>
    cases ha
    exact yields_whole h _ _ _ hb
  next => cases ha

end Reader

end RuleScope.Json
