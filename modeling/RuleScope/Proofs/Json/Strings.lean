import RuleScope.Proofs.Json.Document
import RuleScope.Proofs.Json.Outcome

namespace RuleScope.Json

namespace Reader

variable {d : Nat} {s : List Char}

theorem skipSpaces_go (blanks : List Char) (hb : ∀ x ∈ blanks, isSpace x = true)
    (h : ∀ x, s.head? = some x → isSpace x = false) (c : Cursor) (line column : Nat) :
    ∃ line' column', skipSpaces.go c (blanks ++ s) line column =
      .ok () ⟨s, line', column', c.depth⟩ := by
  induction blanks generalizing line column with
  | nil =>
    cases s with
    | nil => exact ⟨line, column, rfl⟩
    | cons x rest =>
      have hx := h x rfl
      have hn : x ≠ '\n' := fun he => by
        subst he
        cases hx
      exact ⟨line, column, by simp [skipSpaces.go, hn, hx]⟩
  | cons x rest ih =>
    have hrest : ∀ y ∈ rest, isSpace y = true := fun y hy => hb y (List.mem_cons_of_mem _ hy)
    rw [List.cons_append, skipSpaces.go]
    by_cases hn : x = '\n'
    · rw [if_pos hn]
      exact ih hrest _ _
    · rw [if_neg hn, if_pos (hb x List.mem_cons_self)]
      exact ih hrest _ _

theorem reads_skipSpaces_blanks (b : Blanks) (h : ∀ x, s.head? = some x → isSpace x = false) :
    Reads skipSpaces d (b.chars ++ s) () s := by
  intro c hr hd
  obtain ⟨line, column, hgo⟩ := skipSpaces_go b.chars b.blank h c c.line c.column
  refine ⟨⟨s, line, column, c.depth⟩, ?_, rfl, hd⟩
  rw [← hgo, ← hr]
  rfl

/-- The next character after blanks. -/
theorem reads_next?_blanks (b : Blanks) {x : Char} (h : isSpace x = false) :
    Reads next? d (b.chars ++ x :: s) (some x) (x :: s) := by
  refine (reads_skipSpaces_blanks b fun y hy => ?_).bind reads_peek?
  cases hy
  exact h

theorem reads_next?_end (b : Blanks) : Reads next? d b.chars none [] := by
  have hskip : Reads skipSpaces d (b.chars ++ []) () [] := reads_skipSpaces_blanks b (by simp)
  rw [List.append_nil] at hskip
  exact hskip.bind reads_peek?

/-- A whole text is read exactly if its reader accepts it up to blanks at its end. -/
theorem run_of_outcome {α : Type} {r : Reader α} {text : String} {o : Option α} (b : Blanks)
    (h : Outcome r depthLimit text.toList o b.chars) : (run r text).toOption = o := by
  have hwhole : Outcome (whole r) depthLimit text.toList o [] := by
    have hbind : Outcome (whole r) depthLimit text.toList (o.bind some) [] :=
      h.bind fun a _ => (reads_next?_end b).bind (.pure a)
    rwa [Option.bind_fun_some] at hbind
  cases o with
  | some a =>
    obtain ⟨c, he, _⟩ := hwhole (.start text) rfl rfl
    rw [run, he, Except.toOption]
  | none =>
    obtain ⟨e, c, he⟩ := hwhole (.start text) rfl rfl
    rw [run, he, Except.toOption]

section

variable (line depth column : Nat) (seen r : List Char)

theorem stringFrom_short {x c : Char} (h : shortEscape? x = some c) :
    stringFrom line depth column seen ('\\' :: x :: r) =
      stringFrom line depth (column + 2) (c :: seen) r := by
  have hu : x ≠ 'u' := fun he => by
    subst he
    cases h
  rw [stringFrom.eq_def]
  split <;> simp_all
  next hne he => exact absurd he.2.symm (hne _ _ he.1.symm)

theorem stringFrom_plain {c : Char} (hq : c ≠ '"') (hb : c ≠ '\\') (hc : 32 ≤ c.toNat) :
    stringFrom line depth column seen (c :: r) =
      stringFrom line depth (column + c.utf8Size) (c :: seen) r := by
  rw [stringFrom.eq_def]
  split
  next heq => cases heq
  next heq => exact absurd (List.cons.inj heq).1 hq
  next heq => exact absurd (List.cons.inj heq).1 hb
  next heq => exact absurd (List.cons.inj heq).1 hb
  next heq => exact absurd (List.cons.inj heq).1 hb
  next heq => exact absurd (List.cons.inj heq).1 hb
  next heq =>
    obtain ⟨rfl, rfl⟩ := List.cons.inj heq
    exact if_neg (by omega)

theorem stringFrom_unit {a b c d' : Char} {code : Nat} (h : hexFour? a b c d' = some code)
    (ht : ¬Glyph.IsTrailing code) (hl : ¬Glyph.IsLeading code) :
    stringFrom line depth column seen ('\\' :: 'u' :: a :: b :: c :: d' :: r) =
      stringFrom line depth (column + 6) (Char.ofNat code :: seen) r := by
  have hcode : code < 0xD800 ∨ 0xDBFF < code := by
    unfold Glyph.IsLeading at hl
    omega
  unfold Glyph.IsTrailing at ht
  rw [stringFrom]
  simp only [h]
  rw [if_neg ht, if_pos hcode]

theorem stringFrom_trailing {a b c d' : Char} {code : Nat} (h : hexFour? a b c d' = some code)
    (ht : Glyph.IsTrailing code) : ∃ e c',
    stringFrom line depth column seen ('\\' :: 'u' :: a :: b :: c :: d' :: r) = .error e c' := by
  unfold Glyph.IsTrailing at ht
  rw [stringFrom]
  simp only [h]
  rw [if_pos ht]
  exact ⟨_, _, rfl⟩

theorem not_isTrailing_of_isLeading {code : Nat} (h : Glyph.IsLeading code) :
    ¬Glyph.IsTrailing code := by
  unfold Glyph.IsLeading Glyph.IsTrailing at *
  omega

theorem stringFrom_pair {a b c d' e f g h' : Char} {high low : Nat}
    (hhigh : hexFour? a b c d' = some high) (hl : Glyph.IsLeading high)
    (hlow : hexFour? e f g h' = some low) (ht : Glyph.IsTrailing low) :
    stringFrom line depth column seen
        ('\\' :: 'u' :: a :: b :: c :: d' :: '\\' :: 'u' :: e :: f :: g :: h' :: r) =
      stringFrom line depth (column + 12)
        (Char.ofNat (0x10000 + (high - 0xD800) * 0x400 + (low - 0xDC00)) :: seen) r := by
  have hcode : ¬(high < 0xD800 ∨ 0xDBFF < high) := by
    unfold Glyph.IsLeading at hl
    omega
  have hself : ¬(0xDC00 ≤ high ∧ high ≤ 0xDFFF) := not_isTrailing_of_isLeading hl
  have htrail : ¬(low < 0xDC00 ∨ 0xDFFF < low) := by
    unfold Glyph.IsTrailing at ht
    omega
  rw [stringFrom]
  simp only [hhigh]
  rw [if_neg hself, if_neg hcode]
  simp only [hlow]
  rw [if_neg htrail]

theorem stringFrom_unpaired {a b c d' : Char} {high : Nat} (hhigh : hexFour? a b c d' = some high)
    (hl : Glyph.IsLeading high)
    (hr : ∀ e f g h' r', r = '\\' :: 'u' :: e :: f :: g :: h' :: r' →
      ∀ low, hexFour? e f g h' = some low → ¬Glyph.IsTrailing low) : ∃ e c',
    stringFrom line depth column seen ('\\' :: 'u' :: a :: b :: c :: d' :: r) = .error e c' := by
  have hcode : ¬(high < 0xD800 ∨ 0xDBFF < high) := by
    unfold Glyph.IsLeading at hl
    omega
  have hself : ¬(0xDC00 ≤ high ∧ high ≤ 0xDFFF) := not_isTrailing_of_isLeading hl
  rw [stringFrom]
  simp only [hhigh]
  rw [if_neg hself, if_neg hcode]
  split
  next e f g h' r' =>
    split
    next => exact ⟨_, _, rfl⟩
    next low hlow =>
      have htrail : low < 0xDC00 ∨ 0xDFFF < low := by
        have := hr e f g h' r' rfl low hlow
        unfold Glyph.IsTrailing at this
        omega
      rw [if_pos htrail]
      exact ⟨_, _, rfl⟩
  all_goals exact ⟨_, _, rfl⟩

/-- Reading a string ends behind it with the characters given, or fails. -/
def Closes (o : Option (List Char)) (result : EStateM.Result ReadError Cursor String) : Prop :=
  match o with
  | some cs => ∃ column', result = .ok (String.ofList (seen.reverse ++ cs)) ⟨r, line, column', depth⟩
  | none => ∃ e c, result = .error e c

variable {line depth seen r} in
theorem Closes.cons {c : Char} {o : Option (List Char)}
    {result : EStateM.Result ReadError Cursor String}
    (h : Closes line depth (c :: seen) r o result) :
    Closes line depth seen r (o.map (c :: ·)) result := by
  cases o with
  | none => exact h
  | some cs =>
    obtain ⟨column, he⟩ := h
    exact ⟨column, by simpa using he⟩

/-- The first of some glyphs is no trailing half unless it is written as one. -/
theorem glyphs_no_trailing {glyphs : List Glyph}
    (h : ∀ a b c d low hex rest, glyphs = .unit a b c d low hex :: rest → ¬Glyph.IsTrailing low)
    {e f g h' : Char} {r' : List Char}
    (he : glyphs.flatMap Glyph.chars ++ '"' :: r = '\\' :: 'u' :: e :: f :: g :: h' :: r')
    {low : Nat} (hlow : hexFour? e f g h' = some low) : ¬Glyph.IsTrailing low := by
  cases glyphs with
  | nil => simp at he
  | cons glyph rest =>
    cases glyph with
    | plain c hc hq hb =>
      simp only [List.flatMap_cons, Glyph.chars, List.cons_append, List.cons.injEq] at he
      exact absurd he.1 hb
    | short letter c known =>
      simp only [List.flatMap_cons, Glyph.chars, List.cons_append, List.cons.injEq] at he
      rw [he.2.1] at known
      cases known
    | unit a b c d code hex =>
      simp only [List.flatMap_cons, Glyph.chars, List.cons_append, List.nil_append,
        List.cons.injEq] at he
      obtain ⟨_, _, rfl, rfl, rfl, rfl, _⟩ := he
      rw [hex] at hlow
      cases hlow
      exact h _ _ _ _ _ _ _ rfl

theorem stringFrom_glyphs (glyphs : List Glyph) :
    Closes line depth seen r (Glyph.decode? glyphs)
      (stringFrom line depth column seen (glyphs.flatMap Glyph.chars ++ '"' :: r)) := by
  fun_induction Glyph.decode? glyphs generalizing column seen with
  | case1 => exact ⟨column + 1, by simp [stringFrom_quote]⟩
  | case2 c hc hq hb rest ih =>
    simp only [List.flatMap_cons, Glyph.chars, List.cons_append, List.nil_append]
    rw [stringFrom_plain _ _ _ _ _ hq hb hc]
    exact (ih _ _).cons
  | case3 letter c known rest ih =>
    simp only [List.flatMap_cons, Glyph.chars, List.cons_append, List.nil_append]
    rw [stringFrom_short _ _ _ _ _ known]
    exact (ih _ _).cons
  | case4 a b c d code hex rest ht => exact stringFrom_trailing _ _ _ _ _ hex ht
  | case5 a b c d code hex rest ht hl ih =>
    have h := ih (column + 6) (Char.ofNat code :: seen)
    rw [← stringFrom_unit _ _ _ _ _ hex ht hl] at h
    exact h.cons
  | case6 a b c d code hex ht hl a' b' c' d' low hex' rest htl ih =>
    have h := ih (column + 12)
      (Char.ofNat (0x10000 + (code - 0xD800) * 0x400 + (low - 0xDC00)) :: seen)
    rw [← stringFrom_pair _ _ _ _ _ hex (Decidable.not_not.mp hl) hex' htl] at h
    exact h.cons
  | case7 a b c d code hex ht hl a' b' c' d' low hex' rest htl =>
    refine stringFrom_unpaired _ _ _ _ _ hex (Decidable.not_not.mp hl) fun _ _ _ _ _ he low' hlow' => ?_
    refine glyphs_no_trailing r ?_ he hlow'
    intro _ _ _ _ _ _ _ heq
    cases heq
    exact htl
  | case8 a b c d code hex rest ht hl hne =>
    refine stringFrom_unpaired _ _ _ _ _ hex (Decidable.not_not.mp hl) fun _ _ _ _ _ he low' hlow' => ?_
    exact glyphs_no_trailing r (fun a b c d low hex rest heq => absurd heq (hne a b c d low hex rest))
      he hlow'

end

/-- A string behind its opening quotation mark. -/
theorem outcome_stringBody (t : StringText) :
    Outcome stringBody d (t.glyphs.flatMap Glyph.chars ++ '"' :: s) t.text? s := by
  have hclose := fun c : Cursor => stringFrom_glyphs c.line c.depth c.column [] s t.glyphs
  unfold StringText.text?
  cases ho : Glyph.decode? t.glyphs with
  | some cs =>
    intro c hr hd
    have h := hclose c
    rw [ho] at h
    obtain ⟨column, h⟩ := h
    refine ⟨⟨s, c.line, column, c.depth⟩, ?_, rfl, hd⟩
    rw [stringBody, hr, h, List.reverse_nil, List.nil_append]
  | none =>
    intro c hr _
    have h := hclose c
    rw [ho] at h
    obtain ⟨e, c', h⟩ := h
    exact ⟨e, c', by rw [stringBody, hr, h]⟩

theorem skipStringFrom_glyphs (line depth column : Nat) (r : List Char) (glyphs : List Glyph) :
    ∃ column', skipStringFrom line depth column (glyphs.flatMap Glyph.chars ++ '"' :: r) =
      .ok () ⟨r, line, column', depth⟩ := by
  induction glyphs generalizing column with
  | nil => exact ⟨column + 1, by simp [skipStringFrom]⟩
  | cons glyph rest ih =>
    cases glyph with
    | plain c hc hq hb =>
      obtain ⟨column', h⟩ := ih (column + c.utf8Size)
      refine ⟨column', ?_⟩
      simp only [List.flatMap_cons, Glyph.chars, List.cons_append, List.nil_append]
      rw [← h, skipStringFrom.eq_def]
      split <;> simp_all
    | short letter c known =>
      obtain ⟨column', h⟩ := ih (column + 2)
      refine ⟨column', ?_⟩
      have hu : letter ≠ 'u' := fun he => by
        subst he
        cases known
      simp only [List.flatMap_cons, Glyph.chars, List.cons_append, List.nil_append]
      rw [← h, skipStringFrom.eq_def]
      split <;> simp_all
      next hne he => exact absurd he.2.symm (hne _ _ he.1.symm)
    | unit a b c d code hex =>
      obtain ⟨column', h⟩ := ih (column + 6)
      refine ⟨column', ?_⟩
      simp only [List.flatMap_cons, Glyph.chars, List.cons_append, List.nil_append]
      rw [← h, skipStringFrom]
      simp only [hex]

theorem reads_skipStringBody (t : StringText) :
    Reads skipStringBody d (t.glyphs.flatMap Glyph.chars ++ '"' :: s) () s := by
  intro c hr hd
  obtain ⟨column, h⟩ := skipStringFrom_glyphs c.line c.depth c.column s t.glyphs
  exact ⟨⟨s, c.line, column, c.depth⟩, by rw [skipStringBody, hr, h], rfl, hd⟩

end Reader

end RuleScope.Json
