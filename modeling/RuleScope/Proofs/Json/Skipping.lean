import RuleScope.Proofs.Json.Numbers
import RuleScope.Proofs.Json.Strings

namespace RuleScope.Json

theorem endsNumber_cons {x : Char} {s : List Char}
    (h : Text.isDigit x = false ∧ x ≠ '.' ∧ x ≠ 'e' ∧ x ≠ 'E') : EndsNumber (x :: s) := by
  intro c hc
  cases hc
  exact h

theorem endsNumber_of_isSpace {x : Char} (h : Reader.isSpace x = true) :
    Text.isDigit x = false ∧ x ≠ '.' ∧ x ≠ 'e' ∧ x ≠ 'E' := by
  simp only [Reader.isSpace, Bool.or_eq_true, beq_iff_eq] at h
  rcases h with ((rfl | rfl) | rfl) | rfl <;> decide

theorem EndsNumber.blanks (b : Blanks) {s : List Char} (h : EndsNumber s) :
    EndsNumber (b.chars ++ s) := by
  obtain ⟨chars, hb⟩ := b
  cases chars with
  | nil => exact h
  | cons x rest => exact endsNumber_cons (endsNumber_of_isSpace (hb x List.mem_cons_self))

namespace Doc

theorem endsNumber_itemsChars (items : List (Margins × Doc)) (s : List Char) :
    EndsNumber (itemsChars items ++ ']' :: s) := by
  cases items with
  | nil => exact endsNumber_cons (by decide)
  | cons x rest => exact endsNumber_cons (by decide)

theorem endsNumber_fieldsChars (fields : List (Label × Doc)) (s : List Char) :
    EndsNumber (fieldsChars fields ++ '\x7d' :: s) := by
  cases fields with
  | nil => exact endsNumber_cons (by decide)
  | cons x rest => exact endsNumber_cons (by decide)

end Doc

theorem NumberText.unsigned_cons (n : NumberText) :
    ∃ c rest, n.unsigned = c :: rest ∧ Text.isDigit c = true := by
  obtain ⟨c, rest, he, hc, _⟩ := Text.natChars_cons n.whole
  exact ⟨c, rest ++ n.tail, by rw [NumberText.unsigned, he]; rfl, hc⟩

/-- The character that a value starts with. -/
def Doc.IsFirst (x : Char) : Doc → Prop
  | null => x = 'n'
  | boolean b => x = if b then 't' else 'f'
  | number n => (n.negative = true ∧ x = '-') ∨ (n.negative = false ∧ Text.isDigit x = true)
  | string _ => x = '"'
  | list _ _ => x = '['
  | object _ _ => x = '\x7b'

theorem Doc.chars_cons (v : Doc) : ∃ x rest, v.chars = x :: rest ∧ v.IsFirst x := by
  cases v with
  | null => exact ⟨'n', _, rfl, rfl⟩
  | boolean b => cases b <;> exact ⟨_, _, rfl, rfl⟩
  | number n =>
    obtain ⟨negative, whole, fraction, exponent⟩ := n
    cases negative with
    | true => exact ⟨'-', _, rfl, Or.inl ⟨rfl, rfl⟩⟩
    | false =>
      obtain ⟨c, rest, he, hc⟩ := NumberText.unsigned_cons ⟨false, whole, fraction, exponent⟩
      exact ⟨c, rest, he, Or.inr ⟨rfl, hc⟩⟩
  | string t => exact ⟨'"', _, rfl, rfl⟩
  | list inside items => exact ⟨'[', _, by rw [Doc.chars], rfl⟩
  | object inside fields => exact ⟨'\x7b', _, by rw [Doc.chars], rfl⟩

/-- No value starts with a blank or a closing bracket. -/
theorem Doc.IsFirst.start {v : Doc} {x : Char} (h : v.IsFirst x) :
    Reader.isSpace x = false ∧ x ≠ ']' := by
  cases v with
  | boolean b =>
    obtain rfl : x = _ := h
    cases b <;> decide
  | number n =>
    rcases h with ⟨_, rfl⟩ | ⟨_, h⟩
    · decide
    · refine ⟨Reader.isSpace_of_isDigit h, ?_⟩
      rintro rfl
      cases h
  | _ =>
    obtain rfl : x = _ := h
    decide

theorem StringText.chars_append (t : StringText) (s : List Char) :
    t.chars ++ s = '"' :: (t.glyphs.flatMap Glyph.chars ++ '"' :: s) := by
  simp [StringText.chars]

namespace Reader

variable {d : Nat} {s : List Char}

/-- The first character of a value, after blanks. -/
theorem reads_valueStart_blanks (b : Blanks) {x : Char} (h : isSpace x = false) :
    Reads valueStart d (b.chars ++ x :: s) x (x :: s) :=
  (reads_next?_blanks b h).bind (.pure x)

theorem reads_ident (word : List Char) : Reads (ident word) d (word ++ s) () s := by
  induction word with
  | nil => exact .pure ()
  | cons x rest ih =>
    refine reads_peek?.bind ?_
    simp only [List.cons_append, List.head?_cons, if_true]
    exact (reads_advance x).bind ih

theorem reads_colon_blanks (b : Blanks) : Reads colon d (b.chars ++ ':' :: s) () s :=
  (reads_next?_blanks b (by decide)).bind (reads_advance ':')

/-- With as many rounds as characters, the value is stepped over. -/
def Skips (v : Doc) : Prop := ∀ fuel d (b : Blanks) s, v.chars.length ≤ fuel → EndsNumber s →
  Reads (skipLoop fuel) d (b.chars ++ (v.chars ++ s)) () s

theorem skips_of_succ {v : Doc} (h : ∀ fuel d (b : Blanks) s, v.chars.length ≤ fuel + 1 →
    EndsNumber s → Reads (skipLoop (fuel + 1)) d (b.chars ++ (v.chars ++ s)) () s) : Skips v := by
  intro fuel d b s hf hs
  obtain ⟨x, rest, he, _⟩ := v.chars_cons
  have hpos : 0 < v.chars.length := by simp [he]
  obtain ⟨fuel, rfl⟩ : ∃ k, fuel = k + 1 := ⟨fuel - 1, by omega⟩
  exact h fuel d b s hf hs

/-- One item and those after it, where each is stepped over. -/
theorem reads_skipItems {items : List (Margins × Doc)}
    (h : ∀ x ∈ items, Skips x.2)
    {m : Margins} {v : Doc} {rest : List (Margins × Doc)} (hi : items = (m, v) :: rest) (fuel : Nat)
    (hf : (Doc.itemsChars items).length ≤ fuel) (b : Blanks) :
    Reads (skipItems fuel) d
      (b.chars ++ (v.chars ++ (m.after.chars ++ (Doc.itemsChars rest ++ ']' :: s)))) () s := by
  induction rest generalizing items m v fuel b with
  | nil =>
    subst hi
    simp only [Doc.itemsChars, List.length_cons, List.length_append] at hf
    obtain ⟨fuel, rfl⟩ : ∃ k, fuel = k + 1 := ⟨fuel - 1, by omega⟩
    rw [skipItems]
    refine (h _ List.mem_cons_self fuel d b _ (by dsimp only; omega)
      (.blanks _ (Doc.endsNumber_itemsChars _ _))).bind ?_
    exact (reads_next?_blanks m.after (by decide)).bind (reads_advance ']')
  | cons y rest ih =>
    subst hi
    obtain ⟨m', v'⟩ := y
    have hy : ∀ x ∈ (m', v') :: rest, Skips x.2 := fun x hx => h x (List.mem_cons_of_mem _ hx)
    rw [Doc.itemsChars, List.length_cons, List.length_append, List.length_append,
      List.length_append] at hf
    obtain ⟨fuel, rfl⟩ : ∃ k, fuel = k + 1 := ⟨fuel - 1, by omega⟩
    rw [skipItems]
    refine (h _ List.mem_cons_self fuel d b _ (by dsimp only; omega)
      (.blanks _ (Doc.endsNumber_itemsChars _ _))).bind ?_
    rw [Doc.itemsChars_cons_append]
    refine (reads_next?_blanks m.after (by decide)).bind ((reads_advance ',').bind ?_)
    exact ih hy rfl fuel (by omega) m'.before

/-- One field and those after it, where each value is stepped over. -/
theorem reads_skipFields {fields : List (Label × Doc)}
    (h : ∀ x ∈ fields, Skips x.2)
    {l : Label} {v : Doc} {rest : List (Label × Doc)} (hi : fields = (l, v) :: rest) (fuel : Nat)
    (hf : (Doc.fieldsChars fields).length ≤ fuel) (b : Blanks) :
    Reads (skipFields fuel) d
      (b.chars ++ (l.key.chars ++ (l.middle.chars ++ ':' :: (l.gap.chars ++ (v.chars ++
        (l.after.chars ++ (Doc.fieldsChars rest ++ '\x7d' :: s))))))) () s := by
  induction rest generalizing fields l v fuel b with
  | nil =>
    subst hi
    simp only [Doc.fieldsChars, List.length_cons, List.length_append] at hf
    obtain ⟨fuel, rfl⟩ : ∃ k, fuel = k + 1 := ⟨fuel - 1, by omega⟩
    rw [skipFields, StringText.chars_append]
    refine (reads_next?_blanks b (by decide)).bind ((reads_advance '"').bind ?_)
    refine (reads_skipStringBody l.key).bind ((reads_colon_blanks l.middle).bind ?_)
    refine (h _ List.mem_cons_self fuel d l.gap _ (by dsimp only; omega)
      (.blanks _ (Doc.endsNumber_fieldsChars _ _))).bind ?_
    exact (reads_next?_blanks l.after (by decide)).bind (reads_advance '\x7d')
  | cons y rest ih =>
    subst hi
    obtain ⟨l', v'⟩ := y
    have hy : ∀ x ∈ (l', v') :: rest, Skips x.2 := fun x hx => h x (List.mem_cons_of_mem _ hx)
    rw [Doc.fieldsChars] at hf
    simp only [List.length_cons, List.length_append] at hf
    obtain ⟨fuel, rfl⟩ : ∃ k, fuel = k + 1 := ⟨fuel - 1, by omega⟩
    rw [skipFields, StringText.chars_append]
    refine (reads_next?_blanks b (by decide)).bind ((reads_advance '"').bind ?_)
    refine (reads_skipStringBody l.key).bind ((reads_colon_blanks l.middle).bind ?_)
    refine (h _ List.mem_cons_self fuel d l.gap _ (by dsimp only; omega)
      (.blanks _ (Doc.endsNumber_fieldsChars _ _))).bind ?_
    rw [Doc.fieldsChars_cons_append]
    refine (reads_next?_blanks l.after (by decide)).bind ((reads_advance ',').bind ?_)
    exact ih hy rfl fuel (by omega) l'.before

theorem skips_number (n : NumberText) : Skips (.number n) := by
  refine skips_of_succ fun fuel d b s _ hs => ?_
  have hread := reads_skipNumber (d := d) n hs
  rw [skipLoop, Doc.chars, NumberText.chars]
  cases n.negative with
  | true => exact (reads_valueStart_blanks b (by decide)).bind ((reads_advance '-').bind hread)
  | false =>
    obtain ⟨c, rest, he, hc⟩ := n.unsigned_cons
    simp only [Bool.false_eq_true, if_false, he] at hread ⊢
    refine (reads_valueStart_blanks b (isSpace_of_isDigit hc)).bind ?_
    split
    case h_8 => 
      rw [if_pos hc]
      exact hread
    all_goals cases hc

theorem skips (v : Doc) : Skips v := by
  induction v with
  | null =>
    refine skips_of_succ fun fuel d b s _ _ => ?_
    rw [skipLoop]
    exact (reads_valueStart_blanks b (by decide)).bind
      ((reads_advance 'n').bind (reads_ident ['u', 'l', 'l']))
  | boolean value =>
    refine skips_of_succ fun fuel d b s _ _ => ?_
    rw [skipLoop]
    cases value with
    | true =>
      exact (reads_valueStart_blanks b (by decide)).bind
        ((reads_advance 't').bind (reads_ident ['r', 'u', 'e']))
    | false =>
      exact (reads_valueStart_blanks b (by decide)).bind
        ((reads_advance 'f').bind (reads_ident ['a', 'l', 's', 'e']))
  | number n => exact skips_number n
  | string t =>
    refine skips_of_succ fun fuel d b s _ _ => ?_
    rw [skipLoop, Doc.chars, StringText.chars_append]
    exact (reads_valueStart_blanks b (by decide)).bind
      ((reads_advance '"').bind (reads_skipStringBody t))
  | list inside items ih =>
    refine skips_of_succ fun fuel d b s hf _ => ?_
    rw [skipLoop, Doc.chars_list_append]
    refine (reads_valueStart_blanks b (by decide)).bind ((reads_advance '[').bind ?_)
    cases items with
    | nil => exact (reads_next?_blanks inside (by decide)).bind (reads_advance ']')
    | cons y rest =>
      obtain ⟨m, v⟩ := y
      obtain ⟨x, r, he, hfirst⟩ := v.chars_cons
      obtain ⟨hx, hne⟩ := hfirst.start
      have hlen : (Doc.itemsChars ((m, v) :: rest)).length ≤ fuel := by
        rw [Doc.chars] at hf
        simp only [List.length_cons, List.length_append, List.length_tail] at hf
        omega
      have hitems := reads_skipItems (d := d) (s := s) ih rfl fuel hlen .none
      rw [Doc.itemsFrom_first_append, Blanks.chars_append]
      rw [he] at hitems ⊢
      refine (reads_next?_blanks (inside.append m.before) hx).bind ?_
      split
      next h => exact absurd (Option.some.inj h) hne
      next => exact hitems
      next h => cases h
  | object inside fields ih =>
    refine skips_of_succ fun fuel d b s hf _ => ?_
    rw [skipLoop, Doc.chars_object_append]
    refine (reads_valueStart_blanks b (by decide)).bind ((reads_advance '\x7b').bind ?_)
    cases fields with
    | nil => exact (reads_next?_blanks inside (by decide)).bind (reads_advance '\x7d')
    | cons y rest =>
      obtain ⟨l, v⟩ := y
      have hlen : (Doc.fieldsChars ((l, v) :: rest)).length ≤ fuel := by
        rw [Doc.chars] at hf
        simp only [List.length_cons, List.length_append, List.length_tail] at hf
        omega
      have hfields := reads_skipFields (d := d) (s := s) ih rfl fuel hlen .none
      rw [Doc.fieldsFrom_first_append, Blanks.chars_append]
      rw [StringText.chars_append] at hfields ⊢
      exact (reads_next?_blanks (inside.append l.before) (by decide)).bind hfields

theorem reads_skipValue (v : Doc) (b : Blanks) (hs : EndsNumber s) :
    Reads skipValue d (b.chars ++ (v.chars ++ s)) () s := by
  intro c hr hd
  refine skips v _ d b s ?_ hs c hr hd
  rw [hr]
  simp only [List.length_append]
  omega

/-- A field whose value is of no interest. -/
theorem reads_skipField (v : Doc) (middle gap : Blanks) (hs : EndsNumber s) :
    Reads skipField d (middle.chars ++ ':' :: (gap.chars ++ (v.chars ++ s))) () s :=
  (reads_colon_blanks middle).bind (reads_skipValue v gap hs)

end Reader

end RuleScope.Json
