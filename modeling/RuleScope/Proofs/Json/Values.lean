import RuleScope.Proofs.Json.Containers

namespace RuleScope.Json

namespace Doc

def boolean? : Doc → Option Bool
  | boolean b => some b
  | _ => none

def numeral? : Doc → Option Numeral
  | number n => n.numeral?
  | _ => none

def text? : Doc → Option String
  | string t => t.text?
  | _ => none

end Doc

namespace Reader

variable {α : Type} {d : Nat} {s s' : List Char} {v : Doc}

/-- Only a list starts with its bracket. -/
theorem ne_bracket (hv : ∀ inside items, v ≠ .list inside items) {x : Char} (h : v.IsFirst x) :
    x ≠ '[' := by
  cases v with
  | list inside items => exact absurd rfl (hv inside items)
  | number n =>
    rcases h with ⟨_, rfl⟩ | ⟨_, h⟩
    · decide
    · rintro rfl
      cases h
  | boolean b =>
    obtain rfl : x = _ := h
    cases b <;> decide
  | _ =>
    obtain rfl : x = _ := h
    decide

/-- Only the absent value starts with its first letter. -/
theorem ne_letter (hv : v ≠ .null) {x : Char} (h : v.IsFirst x) : x ≠ 'n' := by
  cases v with
  | null => exact absurd rfl hv
  | number n =>
    rcases h with ⟨_, rfl⟩ | ⟨_, h⟩
    · decide
    · rintro rfl
      cases h
  | boolean b =>
    obtain rfl : x = _ := h
    cases b <;> decide
  | _ =>
    obtain rfl : x = _ := h
    decide

/-- The first character decides how a value is read. -/
theorem denotes_valueStart {f : Char → Reader α} {o : Option α}
    (h : ∀ x, v.IsFirst x → ∀ s, EndsNumber s → Outcome (f x) d (v.chars ++ s) o s) :
    Denotes (do let x ← valueStart; f x) d v o := by
  intro b s hs
  obtain ⟨x, rest, he, hx⟩ := v.chars_cons
  have hread := h x hx s hs
  rw [he] at hread ⊢
  exact (reads_valueStart_blanks b hx.start.1).outcome hread

theorem denotes_boolean (v : Doc) : Denotes boolean d v v.boolean? := by
  refine denotes_valueStart fun x hx s hs => ?_
  cases v with
  | boolean b =>
    obtain rfl : x = _ := hx
    cases b with
    | true => exact (reads_advance 't').outcome ((reads_ident ['r', 'u', 'e']).outcome (.pure true))
    | false =>
      exact (reads_advance 'f').outcome ((reads_ident ['a', 'l', 's', 'e']).outcome (.pure false))
  | number n =>
    split
    case h_3 => exact Refuses.unexpected _
    all_goals rcases hx with ⟨_, hx⟩ | ⟨_, hx⟩ <;> cases hx
  | _ =>
    obtain rfl : x = _ := hx
    exact Refuses.unexpected _

theorem denotes_numeral {accept : Numeral → Except Schema.Mismatch α} (expected : String) (v : Doc) :
    Denotes (numeral expected accept) d v (v.numeral?.bind fun n => (accept n).toOption) := by
  refine denotes_valueStart fun x hx s hs => ?_
  cases v with
  | number n =>
    have hread := ((takes_number_numeral? n).2 d s hs).bind fun n _ => .ofExcept (f := accept) n
    rw [Doc.chars, NumberText.chars]
    rcases hx with ⟨hn, rfl⟩ | ⟨hn, hx⟩
    · rw [hn] at hread ⊢
      exact (reads_advance '-').outcome hread.located
    · have hminus : x ≠ '-' := fun h => by rw [h] at hx; cases hx
      rw [hn] at hread ⊢
      rw [if_neg hminus, if_pos hx]
      exact hread.located
  | boolean b =>
    obtain rfl : x = _ := hx
    cases b <;> exact Refuses.unexpected _
  | _ =>
    obtain rfl : x = _ := hx
    exact Refuses.unexpected _

theorem denotes_stringAs (expected : String) (v : Doc) :
    Denotes (stringAs expected) d v v.text? := by
  refine denotes_valueStart fun x hx s hs => ?_
  cases v with
  | string t =>
    obtain rfl : x = _ := hx
    rw [Doc.chars, StringText.chars_append]
    exact (reads_advance '"').outcome (outcome_stringBody t)
  | number n =>
    split
    case h_2 => exact Refuses.unexpected _
    all_goals rcases hx with ⟨_, hx⟩ | ⟨_, hx⟩ <;> cases hx
  | boolean b =>
    obtain rfl : x = _ := hx
    cases b <;> exact Refuses.unexpected _
  | _ =>
    obtain rfl : x = _ := hx
    exact Refuses.unexpected _

theorem denotes_string (v : Doc) : Denotes string d v v.text? := denotes_stringAs _ v

/-- A variant written as a string. -/
theorem denotes_variant_string (names : List String) (ofName? : String → Option α) (t : StringText) :
    Denotes (variant names ofName?) d (.string t) (t.text?.bind ofName?) := by
  intro b s hs
  rw [Doc.chars, StringText.chars_append]
  refine (reads_next?_blanks b (by decide)).outcome ?_
  refine Outcome.located ((reads_valueStart_blanks .none (by decide)).outcome ?_)
  refine (reads_advance '"').outcome ((outcome_stringBody t).bind fun name _ => ?_)
  cases ofName? name with
  | some a => exact .pure a
  | none => exact Refuses.failData _

theorem denotes_optional_null {r : Reader α} : Denotes (optional r) d .null (some none) :=
  fun b _ _ => (reads_next?_blanks b (by decide)).outcome ((reads_advance 'n').outcome
    ((reads_ident ['u', 'l', 'l']).outcome (.pure none)))

theorem Denotes.optional {r : Reader α} {o : Option α} (h : Denotes r d v o) (hv : v ≠ .null) :
    Denotes (Reader.optional r) d v (o.map some) := by
  intro b s hs
  obtain ⟨x, rest, he, hx⟩ := v.chars_cons
  have hread := (h .none s hs).map some
  rw [he] at hread ⊢
  refine (reads_next?_blanks b hx.start.1).outcome ?_
  split
  next heq => exact absurd (Option.some.inj heq) (ne_letter hv hx)
  next => exact hread

/-- The items of the document, if it is a list. -/
theorem denotes_list {item : Reader α} {q : Doc → Option α} (expected : String) (inside : Blanks)
    {items : List (Margins × Doc)}
    (h : ∀ x ∈ items, Denotes item (d - 1) x.2 (q x.2)) :
    Denotes (list item expected) d (.list inside items)
      (if 1 < d then items.mapM fun x => q x.2 else none) := by
  refine Denotes.located (denotes_valueStart fun x hx s hs => ?_)
  obtain rfl : x = _ := hx
  have hitems := outcome_withinList .none []
    fun _ : 1 < d => outcome_items (s := s) h inside
  simpa using hitems

theorem denotes_list_none {item : Reader α} (expected : String)
    (hv : ∀ inside items, v ≠ .list inside items) :
    Denotes (list item expected) d v none := by
  refine Denotes.located (denotes_valueStart fun x hx s hs => ?_)
  split
  · exact absurd rfl (ne_bracket hv hx)
  · exact Refuses.unexpected _

/-- A tuple takes the items up to `rest`, of which none may be left. -/
theorem denotes_tuple {inside : Reader α} {o : Option α} (expected : String) (blanks gap : Blanks)
    {items : List (Margins × Doc)} (rest : List (Margins × Doc))
    (h : ∀ s, 1 < d → Outcome inside (d - 1)
      (blanks.chars ++ (Doc.itemsFrom true items ++ ']' :: s)) o
      (gap.chars ++ (Doc.itemsFrom false rest ++ ']' :: s))) :
    Denotes (tuple inside expected) d (.list blanks items)
      (if 1 < d ∧ rest = [] then o else none) := by
  refine Denotes.located (denotes_valueStart fun x hx s hs => ?_)
  obtain rfl : x = _ := hx
  exact outcome_withinList gap rest (h s)

theorem denotes_tuple_none {inside : Reader α} (expected : String)
    (hv : ∀ inside items, v ≠ .list inside items) : Denotes (tuple inside expected) d v none := by
  refine Denotes.located (denotes_valueStart fun x hx s hs => ?_)
  split
  · exact absurd rfl (ne_bracket hv hx)
  · exact Refuses.unexpected _

theorem denotes_map {inside : Reader α} {o : Option α} (blanks : Blanks)
    {fields : List (Label × Doc)}
    (h : ∀ s, 1 < d → Outcome inside (d - 1)
      (blanks.chars ++ (Doc.fieldsFrom true fields ++ '\x7d' :: s)) o ('\x7d' :: s)) :
    Denotes (map inside) d (.object blanks fields) (if 1 < d then o else none) := by
  refine Denotes.located (denotes_valueStart fun x hx s hs => ?_)
  obtain rfl : x = _ := hx
  exact outcome_withinObject (h s)

theorem denotes_record {fromFields fromItems : Reader α} {o : Option α} (expected : String)
    (blanks : Blanks) {fields : List (Label × Doc)}
    (h : ∀ s, 1 < d → Outcome fromFields (d - 1)
      (blanks.chars ++ (Doc.fieldsFrom true fields ++ '\x7d' :: s)) o ('\x7d' :: s)) :
    Denotes (record expected fromFields fromItems) d (.object blanks fields)
      (if 1 < d then o else none) := by
  refine Denotes.located (denotes_valueStart fun x hx s hs => ?_)
  obtain rfl : x = _ := hx
  exact outcome_withinObject (h s)

/-- The next item of a list, read by its own reader. -/
theorem outcome_field? {β : Type} {r : Reader α} {f : Option α → Reader β} {o : Option α}
    {q : α → Option β} (first : Bool) (gap : Blanks) (m : Margins) (rest : List (Margins × Doc))
    (h : Denotes r d v o) (h' : ∀ a, Outcome (f (some a)) d
      (m.after.chars ++ (Doc.itemsFrom false rest ++ ']' :: s)) (q a) s') :
    Outcome (field? first r >>= f) d
      (gap.chars ++ (Doc.itemsFrom first ((m, v) :: rest) ++ ']' :: s)) (o.bind q) s' := by
  have hitem := h .none _ (.blanks m.after (Doc.endsNumber_itemsChars rest s))
  have hfield : Outcome (field? first r) d
      (gap.chars ++ (Doc.itemsFrom first ((m, v) :: rest) ++ ']' :: s)) (o.map some)
      (m.after.chars ++ (Doc.itemsFrom false rest ++ ']' :: s)) :=
    (reads_hasItem first gap m v rest).outcome (hitem.map some)
  cases o with
  | none => exact Refuses.bind hfield
  | some a => exact Reads.outcome hfield (h' a)

theorem reads_field?_end {r : Reader α} (first : Bool) (gap : Blanks) :
    Reads (field? first r) d (gap.chars ++ (Doc.itemsFrom first [] ++ ']' :: s)) none
      (']' :: s) := by
  rw [Doc.itemsFrom_nil]
  exact (reads_hasItem_end first gap).bind (.pure none)

end Reader

end RuleScope.Json
