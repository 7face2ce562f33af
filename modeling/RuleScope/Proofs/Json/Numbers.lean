import RuleScope.Proofs.Json.Document
import RuleScope.Proofs.Json.Outcome
import RuleScope.Proofs.Text.Digits

namespace RuleScope

namespace Text

theorem isDigit_bounds {c : Char} (h : isDigit c = true) : 48 ≤ c.toNat ∧ c.toNat ≤ 57 := by
  simp only [isDigit, Bool.and_eq_true, decide_eq_true_eq] at h
  exact h

theorem map_digitValue_natChars (n : Nat) : (natChars n).map digitValue = decimalDigits n := by
  rw [natChars, List.map_map]
  refine (List.map_congr_left fun d hd => ?_).trans (List.map_id _)
  exact digitValue_digitChar d (decimalDigits_lt n d hd)

theorem appendDigits_natChars (n : Nat) : appendDigits 0 ((natChars n).map digitValue) = n := by
  rw [map_digitValue_natChars, appendDigits_decimalDigits]

end Text

namespace Json

open Text

/-- No digit follows. -/
def EndsDigits (after : List Char) : Prop := ∀ c, after.head? = some c → isDigit c = false

theorem EndsNumber.endsDigits {s : List Char} (h : EndsNumber s) : EndsDigits s :=
  fun c hc => (h c hc).1

theorem endsDigits_cons {x : Char} {s : List Char} (h : isDigit x = false) : EndsDigits (x :: s) := by
  intro c hc
  cases hc
  exact h

theorem Digits.cons (digits : Digits) : ∃ c rest, digits.chars = c :: rest ∧ isDigit c = true := by
  obtain ⟨c, rest, he⟩ := List.exists_cons_of_ne_nil digits.nonempty
  exact ⟨c, rest, he, digits.digit c (by rw [he]; exact List.mem_cons_self)⟩

namespace Reader

/-- Whatever follows, as long as it ends the text, the reader takes the text as `o`. -/
def Takes {α : Type} (r : Reader α) (text : List Char) (o : Option α) : Prop :=
  ∀ d s, EndsNumber s → Outcome r d (text ++ s) o s

/-- Of the digits, as many are taken as stay within the bound. -/
theorem digitsWithin_digits (bound acc : Nat) {digits : List Char}
    (hd : ∀ c ∈ digits, isDigit c = true) : ∃ value taken left, digits = taken ++ left ∧
      (left = [] → value = appendDigits acc (digits.map digitValue)) ∧
      (left ≠ [] → bound < appendDigits acc (digits.map digitValue)) ∧
      ∀ count s, EndsDigits s →
        digitsWithin bound acc count (digits ++ s) = (value, count + taken.length, left ++ s) := by
  induction digits generalizing acc with
  | nil =>
    refine ⟨acc, [], [], rfl, fun _ => rfl, fun h => absurd rfl h, fun count s hs => ?_⟩
    cases s with
    | nil => rfl
    | cons c s => simp [digitsWithin, hs c rfl]
  | cons c rest ih =>
    have hc : isDigit c = true := hd c List.mem_cons_self
    have hrest : ∀ x ∈ rest, isDigit x = true := fun x hx => hd x (List.mem_cons_of_mem _ hx)
    have hnext : appendDigits acc ((c :: rest).map digitValue) =
        appendDigits (10 * acc + digitValue c) (rest.map digitValue) := rfl
    rw [hnext]
    by_cases hb : 10 * acc + digitValue c ≤ bound
    · obtain ⟨value, taken, left, hsplit, hall, hsome, hread⟩ := ih (10 * acc + digitValue c) hrest
      refine ⟨value, c :: taken, left, by rw [hsplit]; rfl, hall, hsome, fun count s hs => ?_⟩
      rw [List.cons_append, digitsWithin, if_pos ⟨hc, hb⟩, hread (count + 1) s hs, List.length_cons]
      congr 2
      omega
    · refine ⟨acc, [], c :: rest, rfl, fun h => absurd h (by simp), fun _ => ?_, fun count s _ => ?_⟩
      · have := le_appendDigits (10 * acc + digitValue c) (rest.map digitValue)
        omega
      · rw [List.cons_append, digitsWithin, if_neg fun h => hb h.2]
        rfl

variable {d : Nat} {s : List Char}

theorem reads_boundedDigits (bound acc : Nat) {digits : List Char}
    (hd : ∀ c ∈ digits, isDigit c = true) : ∃ value taken left, digits = taken ++ left ∧
      (left = [] → value = appendDigits acc (digits.map digitValue)) ∧
      (left ≠ [] → bound < appendDigits acc (digits.map digitValue)) ∧
      ∀ d s, EndsDigits s →
        Reads (boundedDigits bound acc) d (digits ++ s) (value, taken.length) (left ++ s) := by
  obtain ⟨value, taken, left, hsplit, hall, hsome, hread⟩ := digitsWithin_digits bound acc hd
  refine ⟨value, taken, left, hsplit, hall, hsome, fun d s hs c hr hd => ?_⟩
  refine ⟨{ c with rest := left ++ s, column := c.column + (0 + taken.length) }, ?_, rfl, hd⟩
  simp only [boundedDigits, hr, hread 0 s hs, Nat.zero_add]

theorem reads_skipDigits {digits : List Char} (hd : ∀ c ∈ digits, isDigit c = true)
    (hs : EndsDigits s) : Reads skipDigits d (digits ++ s) digits.length s := by
  intro c hr hdc
  have hend : s.takeWhile isDigit = [] ∧ s.dropWhile isDigit = s := by
    cases s with
    | nil => exact ⟨rfl, rfl⟩
    | cons x s => simp [hs x rfl]
  refine ⟨{ c with rest := s, column := c.column + digits.length }, ?_, rfl, hdc⟩
  simp only [skipDigits, hr, List.takeWhile_append_of_pos hd, List.dropWhile_append_of_pos hd,
    hend.1, hend.2, List.append_nil]

theorem reads_peekIsDigit {left : List Char} (hl : ∀ c ∈ left, isDigit c = true)
    (hs : EndsDigits s) : Reads peekIsDigit d (left ++ s) (!left.isEmpty) (left ++ s) := by
  refine reads_peek?.bind ?_
  cases left with
  | nil =>
    cases s with
    | nil => exact .pure false
    | cons x s =>
      simp only [List.nil_append, List.head?_cons, hs x rfl]
      exact .pure false
  | cons c left =>
    simp only [List.cons_append, List.head?_cons, hl c List.mem_cons_self]
    exact .pure true

/-- A double is computed without looking at the text. -/
theorem outcome_floatOf (positive : Bool) (significand : Nat) (exponent : Int) :
    ∃ o, ∀ d s, Outcome (floatOf positive significand exponent) d s o s := by
  unfold floatOf
  dsimp only
  split
  · split
    · split
      · exact ⟨none, fun _ _ => Refuses.failHere _⟩
      · exact ⟨some _, fun _ _ => .pure _⟩
    · split
      · exact ⟨some _, fun _ _ => .pure _⟩
      · exact ⟨none, fun _ _ => Refuses.failHere _⟩
  · exact ⟨some _, fun _ _ => .pure _⟩

/-- The digits of an exponent whose sign is known. -/
theorem takes_exponentDigits (positive : Bool) (significand : Nat) (exponent : Int)
    (sign : Option Char) (digits : Digits) : ∃ o, Takes (do
      match ← peek? with
      | none => failHere .eofValue
      | some c =>
        if isDigit c then
          let (value, _) ← boundedDigits maxExponent 0
          if ← peekIsDigit then
            if significand ≠ 0 ∧ sign ≠ some '-' then
              advance
              failHere .numberOutOfRange
            else
              let _ ← skipDigits
              pure ⟨!positive, .zero⟩
          else
            let e := if sign = some '-' then exponent - value else exponent + value
            floatOf positive significand (clampExponent e)
        else failAhead .invalidNumber) digits.chars o := by
  obtain ⟨value, taken, left, hsplit, _, _, hread⟩ :=
    reads_boundedDigits maxExponent 0 digits.digit
  have hleft : ∀ c ∈ left, isDigit c = true := fun c hc =>
    digits.digit c (by rw [hsplit]; exact List.mem_append_right _ hc)
  obtain ⟨first, rest, hfirst, hdigit⟩ := digits.cons
  -- what is left of the digits decides, before the characters behind them
  suffices h : ∃ o, ∀ d s, EndsNumber s → Outcome
      (if (!left.isEmpty) = true then
        if significand ≠ 0 ∧ sign ≠ some '-' then do
          advance
          failHere .numberOutOfRange
        else do
          let _ ← skipDigits
          pure ⟨!positive, .zero⟩
      else floatOf positive significand
        (clampExponent (if sign = some '-' then exponent - value else exponent + value)))
      d (left ++ s) o s by
    obtain ⟨o, ho⟩ := h
    refine ⟨o, fun d s hs => ?_⟩
    have start : Reads peek? d (digits.chars ++ s) (some first) (digits.chars ++ s) := by
      rw [hfirst]
      exact reads_peek?
    refine start.outcome ?_
    dsimp only
    rw [if_pos hdigit]
    refine (hread d s hs.endsDigits).outcome ?_
    exact (reads_peekIsDigit hleft hs.endsDigits).outcome (ho d s hs)
  cases left with
  | nil =>
    obtain ⟨o, ho⟩ := outcome_floatOf positive significand
      (clampExponent (if sign = some '-' then exponent - value else exponent + value))
    exact ⟨o, fun d s _ => ho d s⟩
  | cons x left =>
    simp only [List.isEmpty_cons, Bool.not_false, if_true]
    by_cases hbig : significand ≠ 0 ∧ sign ≠ some '-'
    · rw [if_pos hbig]
      exact ⟨none, fun d s _ => (reads_advance x).refuses (.failHere _)⟩
    · rw [if_neg hbig]
      exact ⟨some ⟨!positive, .zero⟩, fun d s hs =>
        (reads_skipDigits hleft hs.endsDigits).outcome (.pure _)⟩

theorem takes_exponentPart (positive : Bool) (significand : Nat) (exponent : Int) (e : Exponent) :
    ∃ o, Takes (exponentPart positive significand exponent) e.chars o := by
  obtain ⟨upper, sign, digits⟩ := e
  obtain ⟨first, rest, hfirst, hdigit⟩ := digits.cons
  have hplus : first ≠ '+' := fun h => by rw [h] at hdigit; cases hdigit
  have hminus : first ≠ '-' := fun h => by rw [h] at hdigit; cases hdigit
  cases sign with
  | none =>
    obtain ⟨o, ho⟩ := takes_exponentDigits positive significand exponent (some first) digits
    refine ⟨o, fun d s hs => (reads_advance _).outcome ?_⟩
    have hpeek : Reads peek? d (digits.chars ++ s) (some first) (digits.chars ++ s) := by
      rw [hfirst]
      exact reads_peek?
    refine hpeek.outcome ?_
    rw [if_neg (by simp [hplus, hminus])]
    exact ho d s hs
  | some negative =>
    obtain ⟨o, ho⟩ := takes_exponentDigits positive significand exponent
      (some (if negative then '-' else '+')) digits
    refine ⟨o, fun d s hs => (reads_advance _).outcome ?_⟩
    cases negative with
    | true => exact reads_peek?.outcome ((reads_advance '-').outcome (ho d s hs))
    | false => exact reads_peek?.outcome ((reads_advance '+').outcome (ho d s hs))

theorem endsDigits_exponentChars (e : Option Exponent) (hs : EndsNumber s) :
    EndsDigits (exponentChars e ++ s) := by
  cases e with
  | none => exact hs.endsDigits
  | some e =>
    cases hu : e.upper <;> simp only [exponentChars, Exponent.chars, hu] <;>
      exact endsDigits_cons (by decide)

/-- Without an exponent no letter for one follows. -/
theorem isExponentMark_exponentChars (e : Option Exponent) (hs : EndsNumber s) :
    isExponentMark (exponentChars e ++ s).head? = e.isSome := by
  cases e with
  | none =>
    rw [exponentChars, List.nil_append]
    cases hh : s.head? with
    | none => rfl
    | some c => simp [isExponentMark, hs c hh]
  | some e => cases hu : e.upper <;> simp [exponentChars, Exponent.chars, hu, isExponentMark]

/-- The rest of a number behind its digits, where it is a double. -/
theorem takes_scaled (positive : Bool) (value : Nat) (exponent : Int) (e : Option Exponent) :
    ∃ o, Takes (do
      if isExponentMark (← peek?) then exponentPart positive value exponent
      else floatOf positive value exponent) (exponentChars e) o := by
  have step : ∀ {o}, (∀ d s, EndsNumber s → Outcome
        (if e.isSome then exponentPart positive value exponent
        else floatOf positive value exponent) d (exponentChars e ++ s) o s) →
      Takes (do
        if isExponentMark (← peek?) then exponentPart positive value exponent
        else floatOf positive value exponent) (exponentChars e) o := by
    intro o h d s hs
    refine reads_peek?.outcome ?_
    rw [isExponentMark_exponentChars e hs]
    exact h d s hs
  cases e with
  | none =>
    obtain ⟨o, ho⟩ := outcome_floatOf positive value exponent
    exact ⟨o, step fun d s _ => ho d s⟩
  | some e =>
    obtain ⟨o, ho⟩ := takes_exponentPart positive value exponent e
    exact ⟨o, step ho⟩

theorem takes_fractionPart (positive : Bool) (value : Nat) (exponent : Int) (digits : Digits)
    (e : Option Exponent) : ∃ o, Takes (fractionPart positive value exponent)
      ('.' :: (digits.chars ++ exponentChars e)) o := by
  obtain ⟨value', taken, left, hsplit, _, _, hread⟩ :=
    reads_boundedDigits maxNat64 value digits.digit
  have hleft : ∀ c ∈ left, isDigit c = true := fun c hc =>
    digits.digit c (by rw [hsplit]; exact List.mem_append_right _ hc)
  obtain ⟨o, ho⟩ := takes_scaled positive value' (exponent - taken.length) e
  refine ⟨o, fun d s hs => ?_⟩
  have hend := endsDigits_exponentChars e hs
  rw [List.cons_append, List.append_assoc]
  refine (reads_advance '.').outcome ?_
  refine (hread d _ hend).outcome ((reads_peekIsDigit hleft hend).outcome ?_)
  cases left with
  | cons x left => exact (reads_skipDigits hleft hend).outcome (ho d s hs)
  | nil =>
    have hcount : taken.length ≠ 0 := by
      rw [List.append_nil] at hsplit
      rw [← hsplit]
      exact fun h => digits.nonempty (List.length_eq_zero_iff.mp h)
    simp only [List.isEmpty_nil, Bool.not_true, if_neg hcount]
    exact ho d s hs

theorem isSpace_of_isDigit {c : Char} (h : isDigit c = true) : isSpace c = false := by
  simp only [isDigit, Bool.and_eq_true, decide_eq_true_eq] at h
  unfold isSpace
  by_contra hc
  simp only [Bool.not_eq_false, Bool.or_eq_true, beq_iff_eq] at hc
  rcases hc with ((rfl | rfl) | rfl) | rfl <;> revert h <;> decide

/-- An integer as it is read. -/
def numeralOf (i : Int) : Numeral := if 0 ≤ i then .natural i.toNat else .negative i

/-- What a number is read as: an integer literal within 64 bits as itself, anything else as a double
or not at all. -/
structure IsValueOf (n : NumberText) (o : Option Numeral) : Prop where
  float_or_integer : ∀ numeral, o = some numeral →
    (∃ x, numeral = .float x) ∨ ∃ i, n.integer? = some i ∧ numeral = numeralOf i
  of_integer : ∀ i, n.integer? = some i → -(maxInt64 : Int) - 1 ≤ i → i ≤ maxNat64 →
    o = some (numeralOf i)

theorem IsValueOf.of_float {n : NumberText} {o : Option Number.Binary64}
    (h : ∀ i, n.integer? = some i → i < -(maxInt64 : Int) - 1 ∨ (maxNat64 : Int) < i) :
    IsValueOf n (o.map .float) where
  float_or_integer := by
    intro numeral he
    obtain ⟨x, _, rfl⟩ := Option.map_eq_some_iff.mp he
    exact Or.inl ⟨x, rfl⟩
  of_integer := by
    intro i hi hl hu
    have := h i hi
    omega

theorem IsValueOf.of_eq {n : NumberText} {i : Int} (h : n.integer? = some i) :
    IsValueOf n (some (numeralOf i)) where
  float_or_integer := by
    intro numeral he
    cases he
    exact Or.inr ⟨i, h, rfl⟩
  of_integer := by
    intro j hj _ _
    rw [h] at hj
    cases hj
    rfl

theorem endsDigits_tail (n : NumberText) (hs : EndsNumber s) : EndsDigits (n.tail ++ s) := by
  unfold NumberText.tail
  cases n.fraction with
  | none => exact endsDigits_exponentChars n.exponent hs
  | some digits => exact endsDigits_cons (by decide)

theorem outcome_double {r : Reader Number.Binary64} {o : Option Number.Binary64} {s' : List Char}
    (h : Outcome r d s o s') :
    Outcome (do return Numeral.float (← r)) d s (o.map Numeral.float) s' := by
  have hmap : o.map Numeral.float = o.bind fun x => some (Numeral.float x) := Option.map_eq_bind
  rw [hmap]
  exact h.bind fun x _ => .pure (Numeral.float x)

/-- The end of `numberTail`, where the digits that did not fit and the next character are known. -/
def behindDigits (positive : Bool) (value : Nat) (left : List Char) (c : Option Char) :
    Reader Numeral := do
  if c = some '.' then return .float (← fractionPart positive value left.length)
  else if isExponentMark c then return .float (← exponentPart positive value left.length)
  else if !left.isEmpty then return .float (← floatOf positive value left.length)
  else if positive then return .natural value
  else if value = 0 ∨ maxInt64 + 1 < value then return .float ⟨true, .ofNat value⟩
  else return .negative (-(value : Int))

theorem outcome_numberTail {positive : Bool} {value : Nat} {left s' : List Char}
    {o : Option Numeral} (hleft : ∀ c ∈ left, isDigit c = true) (hs : EndsDigits s)
    (h : Outcome (behindDigits positive value left s.head?) d s o s') :
    Outcome (numberTail positive value) d (left ++ s) o s' := by
  refine (reads_peekIsDigit hleft hs).outcome ?_
  exact (reads_skipDigits hleft hs).outcome (reads_peek?.outcome h)

/-- A fraction or an exponent makes a double. -/
theorem outcome_behindDigits_double (positive : Bool) (value : Nat) (left : List Char)
    {n : NumberText} (h : n.fraction.isSome ∨ n.exponent.isSome) :
    ∃ o, IsValueOf n o ∧ ∀ d s, EndsNumber s →
      Outcome (behindDigits positive value left (n.tail ++ s).head?) d (n.tail ++ s) o s := by
  have value_of : ∀ o : Option Number.Binary64, IsValueOf n (o.map .float) := fun o =>
    .of_float fun i hi => by
      rw [NumberText.integer?, if_pos (by tauto)] at hi
      cases hi
  cases hf : n.fraction with
  | some digits =>
    have htail : n.tail = '.' :: (digits.chars ++ exponentChars n.exponent) := by
      simp only [NumberText.tail, hf]
    obtain ⟨o, ho⟩ := takes_fractionPart positive value left.length digits n.exponent
    refine ⟨o.map .float, value_of o, fun d s hs => ?_⟩
    have hdot : (n.tail ++ s).head? = some '.' := by rw [htail]; rfl
    rw [behindDigits, if_pos hdot, htail]
    exact outcome_double (ho d s hs)
  | none =>
    obtain ⟨e, he⟩ := Option.isSome_iff_exists.mp (h.resolve_left (by simp [hf]))
    have htail : n.tail = exponentChars (some e) := by simp only [NumberText.tail, hf, he]
    obtain ⟨o, ho⟩ := takes_exponentPart positive value left.length e
    refine ⟨o.map .float, value_of o, fun d s hs => ?_⟩
    have hmark : isExponentMark (exponentChars (some e) ++ s).head? = true :=
      isExponentMark_exponentChars (some e) hs
    have hdot : (exponentChars (some e) ++ s).head? ≠ some '.' := by
      intro h
      rw [h] at hmark
      cases hmark
    rw [htail, behindDigits, if_neg hdot, if_pos hmark]
    exact outcome_double (ho d s hs)

/-- Otherwise the number of digits and the sign decide. -/
theorem outcome_behindDigits_integer {n : NumberText} {value : Nat} {left : List Char}
    (hf : n.fraction = none) (he : n.exponent = none) (hall : left = [] → value = n.whole)
    (hsome : left ≠ [] → maxNat64 < n.whole) :
    ∃ o, IsValueOf n o ∧ ∀ d s, EndsNumber s →
      Outcome (behindDigits (!n.negative) value left s.head?) d s o s := by
  have hinteger : n.integer? = if n.negative = true ∧ n.whole = 0 then none
      else if n.negative = true then some (-(n.whole : Int)) else some (n.whole : Int) := by
    simp [NumberText.integer?, hf, he]
  have hmax : maxInt64 < maxNat64 := by decide
  have step : ∀ {o}, (∀ d s, Outcome (do
        if !left.isEmpty then return .float (← floatOf (!n.negative) value left.length)
        else if (!n.negative) = true then return .natural value
        else if value = 0 ∨ maxInt64 + 1 < value then return .float ⟨true, .ofNat value⟩
        else return .negative (-(value : Int)) : Reader Numeral) d s o s) →
      ∀ d s, EndsNumber s →
        Outcome (behindDigits (!n.negative) value left s.head?) d s o s := by
    intro o h d s hs
    have hdot : s.head? ≠ some '.' := fun h => (hs '.' h).2.1 rfl
    have hmark : ¬isExponentMark s.head? = true := by
      have := isExponentMark_exponentChars none hs
      rw [exponentChars, List.nil_append] at this
      simp [this]
    rw [behindDigits, if_neg hdot, if_neg hmark]
    exact h d s
  cases left with
  | cons x left =>
    have hbig := hsome (by simp)
    simp only [List.isEmpty_cons, Bool.not_false, if_true] at step
    obtain ⟨o, ho⟩ := outcome_floatOf (!n.negative) value (x :: left).length
    refine ⟨o.map .float, .of_float fun i hi => ?_, step fun d s => outcome_double (ho d s)⟩
    rw [hinteger, if_neg (by omega)] at hi
    split at hi <;> cases hi <;> omega
  | nil =>
    have hvalue := hall rfl
    subst hvalue
    cases hn : n.negative with
    | false =>
      have hi : n.integer? = some (n.whole : Int) := by simp [hinteger, hn]
      have hnum : numeralOf (n.whole : Int) = .natural n.whole := by simp [numeralOf]
      rw [hn] at step
      exact ⟨some (numeralOf n.whole), .of_eq hi, by rw [hnum]; exact step fun d s => .pure _⟩
    | true =>
      rw [hn] at step
      by_cases hzero : n.whole = 0 ∨ maxInt64 + 1 < n.whole
      · refine ⟨some (.float ⟨true, .ofNat n.whole⟩), .of_float (o := some _) fun i hi => ?_,
          step fun d s => ?_⟩
        · rw [hinteger] at hi
          simp only [hn, true_and, if_true] at hi
          split at hi <;> cases hi
          omega
        · have hread : Outcome (pure (.float ⟨true, .ofNat n.whole⟩) : Reader Numeral) d s
              (some (.float ⟨true, .ofNat n.whole⟩)) s := .pure _
          simpa [hzero] using hread
      · have hi : n.integer? = some (-(n.whole : Int)) := by
          have : n.whole ≠ 0 := by omega
          simp [hinteger, hn, this]
        have hnum : numeralOf (-(n.whole : Int)) = .negative (-(n.whole : Int)) := by
          rw [numeralOf, if_neg (by omega)]
        refine ⟨some (numeralOf (-(n.whole : Int))), .of_eq hi, step fun d s => ?_⟩
        have hread : Outcome (pure (.negative (-(n.whole : Int))) : Reader Numeral) d s
            (some (.negative (-(n.whole : Int)))) s := .pure _
        simpa [hzero, hnum] using hread

theorem takes_numberTail {n : NumberText} {value : Nat} {left : List Char}
    (hleft : ∀ c ∈ left, isDigit c = true) (hall : left = [] → value = n.whole)
    (hsome : left ≠ [] → maxNat64 < n.whole) :
    ∃ o, IsValueOf n o ∧ Takes (numberTail (!n.negative) value) (left ++ n.tail) o := by
  have behind : ∃ o, IsValueOf n o ∧ ∀ d s, EndsNumber s →
      Outcome (behindDigits (!n.negative) value left (n.tail ++ s).head?) d (n.tail ++ s) o s := by
    by_cases h : n.fraction.isSome ∨ n.exponent.isSome
    · exact outcome_behindDigits_double _ _ _ h
    · have hf : n.fraction = none := by simpa using fun hf => h (Or.inl hf)
      have he : n.exponent = none := by simpa using fun he => h (Or.inr he)
      have htail : n.tail = [] := by simp only [NumberText.tail, hf, he, exponentChars]
      rw [htail]
      exact outcome_behindDigits_integer hf he hall hsome
  obtain ⟨o, ho, hread⟩ := behind
  refine ⟨o, ho, fun d s hs => ?_⟩
  rw [List.append_assoc]
  exact outcome_numberTail hleft (endsDigits_tail n hs) (hread d s hs)

theorem takes_number (n : NumberText) :
    ∃ o, IsValueOf n o ∧ Takes (number (!n.negative)) n.unsigned o := by
  obtain ⟨c, rest, he, hc, hz⟩ := natChars_cons n.whole
  have hunsigned : n.unsigned = c :: rest ++ n.tail := by rw [NumberText.unsigned, he]
  by_cases h0 : c = '0'
  · obtain ⟨hzero, rfl⟩ := hz h0
    have hnone : ∀ c ∈ ([] : List Char), isDigit c = true := by simp
    obtain ⟨o, ho, hread⟩ := takes_numberTail hnone (fun _ => hzero.symm) fun h => absurd rfl h
    refine ⟨o, ho, fun d s hs => ?_⟩
    have hend := reads_peekIsDigit (d := d) hnone (endsDigits_tail n hs)
    rw [hunsigned]
    refine reads_peek?.outcome ?_
    simp only [List.cons_append, List.nil_append, List.head?_cons, if_pos h0] at hend hread ⊢
    exact (reads_advance c).outcome (hend.outcome (hread d s hs))
  · obtain ⟨value, taken, left, hsplit, hall, hsome, hdigits⟩ :=
      reads_boundedDigits maxNat64 0 (natChars_isDigit n.whole)
    rw [appendDigits_natChars] at hall hsome
    have hleft : ∀ c ∈ left, isDigit c = true := fun c hc =>
      natChars_isDigit n.whole c (by rw [hsplit]; exact List.mem_append_right _ hc)
    obtain ⟨o, ho, hread⟩ := takes_numberTail hleft hall hsome
    refine ⟨o, ho, fun d s hs => ?_⟩
    have htake := hdigits d _ (endsDigits_tail n hs)
    have hrest := hread d s hs
    rw [List.append_assoc] at hrest
    rw [he] at htake
    rw [hunsigned, List.append_assoc]
    refine reads_peek?.outcome ?_
    simp only [List.cons_append, List.head?_cons, if_neg h0, hc, if_true]
    exact htake.outcome hrest

end Reader

/-- What a number is read as, if it is not too large for a double. -/
def NumberText.numeral? (n : NumberText) : Option Numeral :=
  match Reader.number (!n.negative) ⟨n.unsigned, 1, 0, depthLimit⟩ with
  | .ok numeral _ => some numeral
  | .error _ _ => none

namespace Reader

variable {d : Nat} {s : List Char}

theorem takes_number_numeral? (n : NumberText) :
    IsValueOf n n.numeral? ∧ Takes (number (!n.negative)) n.unsigned n.numeral? := by
  obtain ⟨o, ho, hread⟩ := takes_number n
  have heq : n.numeral? = o := by
    have hend : EndsNumber [] := by simp [EndsNumber]
    have h := hread depthLimit [] hend
    rw [List.append_nil] at h
    unfold NumberText.numeral?
    cases o with
    | some numeral =>
      obtain ⟨c', he, _⟩ := h ⟨n.unsigned, 1, 0, depthLimit⟩ rfl rfl
      rw [he]
    | none =>
      obtain ⟨e, c', he⟩ := h ⟨n.unsigned, 1, 0, depthLimit⟩ rfl rfl
      rw [he]
  rw [heq]
  exact ⟨ho, hread⟩

theorem reads_skipExponent (e : Exponent) (hs : EndsNumber s) :
    Reads skipExponent d (e.chars ++ s) () s := by
  obtain ⟨upper, sign, digits⟩ := e
  obtain ⟨first, rest, hfirst, hdigit⟩ := digits.cons
  have hskip := reads_skipDigits (d := d) digits.digit hs.endsDigits
  have hpeek : Reads peek? d (digits.chars ++ s) (some first) (digits.chars ++ s) := by
    rw [hfirst]
    exact reads_peek?
  have hbody : Reads (if isDigit first then discard skipDigits else failAhead .invalidNumber) d
      (digits.chars ++ s) () s := by
    rw [if_pos hdigit]
    exact hskip.discard
  refine (reads_advance _).bind ?_
  cases sign with
  | none =>
    have hplus : first ≠ '+' := fun h => by rw [h] at hdigit; cases hdigit
    have hminus : first ≠ '-' := fun h => by rw [h] at hdigit; cases hdigit
    refine hpeek.bind ?_
    rw [if_neg (by simp [hplus, hminus])]
    exact hpeek.bind hbody
  | some negative =>
    cases negative with
    | true => exact reads_peek?.bind ((reads_advance '-').bind (hpeek.bind hbody))
    | false => exact reads_peek?.bind ((reads_advance '+').bind (hpeek.bind hbody))

/-- The part of a skipped number behind its whole part. -/
theorem reads_skipTail (n : NumberText) (hs : EndsNumber s) : Reads (do
    let c ← peek?
    if c = some '.' then
      advance
      let count ← skipDigits
      if count = 0 then failAhead .invalidNumber
      if isExponentMark (← peek?) then skipExponent
    else if isExponentMark c then skipExponent) d (n.tail ++ s) () s := by
  have hmark := isExponentMark_exponentChars n.exponent hs
  have hend := endsDigits_exponentChars n.exponent hs
  unfold NumberText.tail
  cases n.fraction with
  | some digits =>
    have hcount : digits.chars.length ≠ 0 := fun h =>
      digits.nonempty (List.length_eq_zero_iff.mp h)
    simp only [List.cons_append, List.append_assoc]
    refine reads_peek?.bind ?_
    simp only [List.head?_cons, if_true]
    refine (reads_advance '.').bind ((reads_skipDigits digits.digit hend).bind ?_)
    simp only [if_neg hcount]
    refine reads_peek?.bind ?_
    rw [hmark]
    cases n.exponent with
    | none => exact .pure ()
    | some e => exact reads_skipExponent e hs
  | none =>
    refine reads_peek?.bind ?_
    rw [hmark]
    cases n.exponent with
    | none =>
      have hdot : s.head? ≠ some '.' := fun h => (hs '.' h).2.1 rfl
      simp only [exponentChars, List.nil_append, if_neg hdot]
      exact .pure ()
    | some e =>
      have hdot : (exponentChars (some e) ++ s).head? ≠ some '.' := by
        intro h
        have : isExponentMark (exponentChars (some e) ++ s).head? = true :=
          isExponentMark_exponentChars (some e) hs
        rw [h] at this
        cases this
      simp only [if_neg hdot]
      exact reads_skipExponent e hs

theorem reads_skipNumber (n : NumberText) (hs : EndsNumber s) :
    Reads skipNumber d (n.unsigned ++ s) () s := by
  obtain ⟨c, rest, he, hc, hz⟩ := natChars_cons n.whole
  have hall := natChars_isDigit n.whole
  have hend := endsDigits_tail n hs
  have htail := reads_skipTail (d := d) n hs
  rw [he] at hall
  rw [NumberText.unsigned, he, List.append_assoc]
  refine reads_peek?.bind ?_
  simp only [List.cons_append, List.head?_cons]
  by_cases h0 : c = '0'
  · obtain ⟨_, rfl⟩ := hz h0
    have hnone : ∀ c ∈ ([] : List Char), isDigit c = true := by simp
    have hdigit := reads_peekIsDigit (d := d) hnone hend
    simp only [if_pos h0]
    exact (reads_advance c).bind (hdigit.bind htail)
  · simp only [if_neg h0, hc, if_true]
    exact (reads_skipDigits hall hend).discard.bind htail

end Reader

end Json

end RuleScope
