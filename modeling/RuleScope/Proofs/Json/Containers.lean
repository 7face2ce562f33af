import RuleScope.Proofs.Json.Skipping

namespace RuleScope.Json

namespace Doc

/-- The fields of an object by key, where every key stands for a text. -/
def keyed? (fields : List (Label × Doc)) : Option (List (String × Doc)) :=
  fields.mapM fun x => x.1.key.text?.map fun k => (k, x.2)

/-- The values of a key. -/
def valuesAt (key : String) (entries : List (String × Doc)) : List Doc :=
  (entries.filter fun e => e.1 = key).map Prod.snd

theorem valuesAt_cons (key k : String) (v : Doc) (rest : List (String × Doc)) :
    valuesAt key ((k, v) :: rest) =
      if k = key then v :: valuesAt key rest else valuesAt key rest := by
  by_cases h : k = key <;> simp [valuesAt, h]

theorem mem_valuesAt {key : String} {entries : List (String × Doc)} {v : Doc} :
    v ∈ valuesAt key entries ↔ (key, v) ∈ entries := by
  simp [valuesAt]

theorem mem_of_keyed? {fields : List (Label × Doc)} {entries : List (String × Doc)}
    (h : keyed? fields = some entries) {x : Label × Doc} (hx : x ∈ fields) {k : String}
    (hk : x.1.key.text? = some k) : (k, x.2) ∈ entries := by
  induction fields generalizing entries with
  | nil => cases hx
  | cons y rest ih =>
    rw [keyed?, List.mapM_cons, ← keyed?] at h
    cases hy : y.1.key.text? with
    | none => simp [hy] at h
    | some key =>
      cases hr : keyed? rest with
      | none => simp [hy, hr] at h
      | some tail =>
        simp only [hy, hr, Option.map_some, Option.bind_eq_bind, Option.bind_some,
          Option.pure_def, Option.some.injEq] at h
        subst h
        rcases List.mem_cons.mp hx with rfl | hx
        · rw [hk] at hy
          cases hy
          exact List.mem_cons_self
        · exact List.mem_cons_of_mem _ (ih hr hx)

theorem foldlM_keyed {σ : Type} (f : σ → String → Doc → Option σ) (fields : List (Label × Doc))
    (a : σ) : fields.foldlM (fun a x => x.1.key.text?.bind fun k => f a k x.2) a =
      (keyed? fields).bind fun entries => entries.foldlM (fun a e => f a e.1 e.2) a := by
  induction fields generalizing a with
  | nil => rfl
  | cons x rest ih =>
    rw [List.foldlM_cons, keyed?, List.mapM_cons, ← keyed?]
    cases x.1.key.text? with
    | none => rfl
    | some k =>
      cases hr : keyed? rest with
      | none =>
        simp only [hr, Option.bind_none] at ih
        cases hf : f a k x.2 <;> simp [hf, ih]
      | some entries =>
        simp only [hr, Option.bind_some] at ih
        cases hf : f a k x.2 <;> simp [hf, ih]

theorem length_le_itemsFrom (first : Bool) (items : List (Margins × Doc)) :
    items.length ≤ (itemsFrom first items).length := by
  have hall : ∀ items : List (Margins × Doc), 2 * items.length ≤ (itemsChars items).length := by
    intro items
    induction items with
    | nil => exact Nat.zero_le _
    | cons x rest ih =>
      obtain ⟨m, v⟩ := x
      obtain ⟨c, r, he, _⟩ := v.chars_cons
      simp only [itemsChars, he, List.length_cons, List.length_append]
      omega
  have := hall items
  unfold itemsFrom
  split
  · rw [List.length_tail]
    cases items with
    | nil => exact Nat.zero_le _
    | cons x rest =>
      rw [List.length_cons] at *
      omega
  · omega

theorem length_le_fieldsFrom (first : Bool) (fields : List (Label × Doc)) :
    fields.length ≤ (fieldsFrom first fields).length := by
  have hall : ∀ fields : List (Label × Doc), 2 * fields.length ≤ (fieldsChars fields).length := by
    intro fields
    induction fields with
    | nil => exact Nat.zero_le _
    | cons x rest ih =>
      obtain ⟨l, v⟩ := x
      simp only [fieldsChars, List.length_cons, List.length_append]
      omega
  have := hall fields
  unfold fieldsFrom
  split
  · rw [List.length_tail]
    cases fields with
    | nil => exact Nat.zero_le _
    | cons x rest =>
      rw [List.length_cons] at *
      omega
  · omega

end Doc

namespace Reader

variable {α β σ : Type} {d : Nat} {s : List Char}

/-- At depth `d`, wherever the value stands, the reader takes it as `o`. -/
def Denotes (r : Reader α) (d : Nat) (v : Doc) (o : Option α) : Prop :=
  ∀ (b : Blanks) s, EndsNumber s → Outcome r d (b.chars ++ (v.chars ++ s)) o s

/-- The same for a reader that starts behind the key of a field. -/
def FieldDenotes (r : Reader α) (d : Nat) (v : Doc) (o : Option α) : Prop :=
  ∀ (middle gap : Blanks) s, EndsNumber s →
    Outcome r d (middle.chars ++ ':' :: (gap.chars ++ (v.chars ++ s))) o s

namespace Denotes

variable {r : Reader α} {v : Doc} {o : Option α}

theorem map (f : α → β) (h : Denotes r d v o) : Denotes (f <$> r) d v (o.map f) :=
  fun b s hs => (h b s hs).map f

theorem bind {f : α → Reader β} {q : α → Option β} (h : Denotes r d v o)
    (h' : ∀ a, o = some a → ∀ s, Outcome (f a) d s (q a) s) : Denotes (r >>= f) d v (o.bind q) :=
  fun b s hs => (h b s hs).bind fun a ha => h' a ha s

theorem located (h : Denotes r d v o) : Denotes (Reader.located r) d v o :=
  fun b s hs => (h b s hs).located

/-- The value of a field. -/
theorem field (h : Denotes r d v o) : FieldDenotes (do colon; r) d v o :=
  fun middle gap s hs => (reads_colon_blanks middle).outcome (h gap s hs)

theorem once (name : String) (before : Option α) (h : Denotes r d v o) :
    FieldDenotes (once name before r) d v (if before.isSome then none else o.map some) := by
  intro middle gap s hs
  unfold Reader.once
  split
  · exact Refuses.failData _
  · exact (h.map some).field middle gap s hs

end Denotes

theorem fieldDenotes_skipField (a : α) (v : Doc) :
    FieldDenotes (skipField *> pure a) d v (some a) :=
  fun middle gap _ hs => (reads_skipField v middle gap hs).seqRight (.pure a)

theorem reads_hasItem (first : Bool) (gap : Blanks) (m : Margins) (v : Doc)
    (rest : List (Margins × Doc)) :
    Reads (hasItem first) d (gap.chars ++ (Doc.itemsFrom first ((m, v) :: rest) ++ ']' :: s)) true
      (v.chars ++ (m.after.chars ++ (Doc.itemsChars rest ++ ']' :: s))) := by
  obtain ⟨x, r, he, hfirst⟩ := v.chars_cons
  obtain ⟨hx, hne⟩ := hfirst.start
  cases first with
  | true =>
    rw [Doc.itemsFrom_first_append, Blanks.chars_append, he]
    refine (reads_next?_blanks (gap.append m.before) hx).bind ?_
    split
    next h => cases h
    next h => exact absurd (Option.some.inj h) hne
    next => exact .pure true
  | false =>
    rw [Doc.itemsFrom_next_append, he]
    refine (reads_next?_blanks gap (by decide)).bind ((reads_advance ',').bind ?_)
    refine (reads_next?_blanks m.before hx).bind ?_
    split
    next h => exact absurd (Option.some.inj h) hne
    next => exact .pure true
    next h => cases h

theorem reads_hasItem_end (first : Bool) (gap : Blanks) :
    Reads (hasItem first) d (gap.chars ++ ']' :: s) false (']' :: s) :=
  (reads_next?_blanks gap (by decide)).bind (.pure false)

theorem outcome_key? (first : Bool) (gap : Blanks) (l : Label) (v : Doc)
    (rest : List (Label × Doc)) :
    Outcome (key? first) d (gap.chars ++ (Doc.fieldsFrom first ((l, v) :: rest) ++ '\x7d' :: s))
      (l.key.text?.map some)
      (l.middle.chars ++ ':' :: (l.gap.chars ++ (v.chars ++ (l.after.chars ++
        (Doc.fieldsChars rest ++ '\x7d' :: s))))) := by
  have hbody := fun s => (outcome_stringBody (d := d) (s := s) l.key).map some
  cases first with
  | true =>
    rw [Doc.fieldsFrom_first_append, Blanks.chars_append, StringText.chars_append]
    exact (reads_next?_blanks (gap.append l.before) (by decide)).outcome
      ((reads_advance '"').outcome (hbody _))
  | false =>
    rw [Doc.fieldsFrom_next_append, StringText.chars_append]
    exact (reads_next?_blanks gap (by decide)).outcome ((reads_advance ',').outcome
      ((reads_next?_blanks l.before (by decide)).outcome ((reads_advance '"').outcome (hbody _))))

theorem reads_key?_end (first : Bool) (gap : Blanks) :
    Reads (key? first) d (gap.chars ++ '\x7d' :: s) none ('\x7d' :: s) :=
  (reads_next?_blanks gap (by decide)).bind (.pure none)

/-- The items read one after the other. -/
theorem outcome_itemsLoop {item : Reader α} {q : Doc → Option α} {items : List (Margins × Doc)}
    (h : ∀ x ∈ items, Denotes item d x.2 (q x.2)) (fuel : Nat) (hf : items.length < fuel)
    (first : Bool) (seen : List α) (gap : Blanks) :
    Outcome (itemsLoop item fuel first seen) d
      (gap.chars ++ (Doc.itemsFrom first items ++ ']' :: s))
      ((items.mapM fun x => q x.2).map (seen.reverse ++ ·)) (']' :: s) := by
  induction items generalizing fuel first seen gap with
  | nil =>
    obtain ⟨fuel, rfl⟩ : ∃ k, fuel = k + 1 := ⟨fuel - 1, by omega⟩
    rw [Doc.itemsFrom_nil]
    refine (reads_hasItem_end first gap).outcome ?_
    simpa using Outcome.pure seen.reverse
  | cons x rest ih =>
    obtain ⟨m, v⟩ := x
    rw [List.length_cons] at hf
    obtain ⟨fuel, rfl⟩ : ∃ k, fuel = k + 1 := ⟨fuel - 1, by omega⟩
    have hv : Denotes item d v (q v) := h _ List.mem_cons_self
    have hrest : ∀ x ∈ rest, Denotes item d x.2 (q x.2) := fun x hx => h x (List.mem_cons_of_mem _ hx)
    refine (reads_hasItem first gap m v rest).outcome ?_
    have hnext : ∀ a, q v = some a → Outcome (itemsLoop item fuel false (a :: seen)) d
        (m.after.chars ++ (Doc.itemsChars rest ++ ']' :: s))
        ((rest.mapM fun x => q x.2).map ((a :: seen).reverse ++ ·)) (']' :: s) :=
      fun a _ => ih hrest fuel (by omega) false (a :: seen) m.after
    have hbind := (hv .none _ (.blanks m.after (Doc.endsNumber_itemsChars rest s))).bind hnext
    have hvalue : ((((m, v) :: rest).mapM fun x => q x.2).map (seen.reverse ++ ·)) =
        (q v).bind fun a => (rest.mapM fun x => q x.2).map ((a :: seen).reverse ++ ·) := by
      rw [List.mapM_cons]
      cases q v with
      | none => rfl
      | some a => cases hr : rest.mapM fun x => q x.2 <;> simp
    rw [hvalue]
    exact hbind

/-- The fields folded one after the other; a key that stands for no text is an error. -/
theorem outcome_fieldsLoop {step : σ → String → Reader σ} {f : σ → String → Doc → Option σ}
    {fields : List (Label × Doc)}
    (h : ∀ x ∈ fields, ∀ a k, x.1.key.text? = some k → FieldDenotes (step a k) d x.2 (f a k x.2))
    (fuel : Nat) (hf : fields.length < fuel) (first : Bool) (a : σ) (gap : Blanks) :
    Outcome (fieldsLoop step fuel first a) d
      (gap.chars ++ (Doc.fieldsFrom first fields ++ '\x7d' :: s))
      (fields.foldlM (fun a x => x.1.key.text?.bind fun k => f a k x.2) a) ('\x7d' :: s) := by
  induction fields generalizing fuel first a gap with
  | nil =>
    obtain ⟨fuel, rfl⟩ : ∃ k, fuel = k + 1 := ⟨fuel - 1, by omega⟩
    rw [Doc.fieldsFrom_nil]
    exact (reads_key?_end first gap).outcome (.pure a)
  | cons x rest ih =>
    obtain ⟨l, v⟩ := x
    rw [List.length_cons] at hf
    obtain ⟨fuel, rfl⟩ : ∃ k, fuel = k + 1 := ⟨fuel - 1, by omega⟩
    have hrest : ∀ x ∈ rest, ∀ a k, x.1.key.text? = some k →
        FieldDenotes (step a k) d x.2 (f a k x.2) :=
      fun x hx => h x (List.mem_cons_of_mem _ hx)
    have hvalue : ((l, v) :: rest).foldlM (fun a x => x.1.key.text?.bind fun k => f a k x.2) a =
        (l.key.text?.map some).bind fun o => o.elim (some a) fun k => (f a k v).bind fun a =>
          rest.foldlM (fun a x => x.1.key.text?.bind fun k => f a k x.2) a := by
      rw [List.foldlM_cons]
      cases l.key.text? <;> rfl
    rw [hvalue]
    refine (outcome_key? first gap l v rest).bind fun o ho => ?_
    obtain ⟨k, hk, rfl⟩ := Option.map_eq_some_iff.mp ho
    have hv := h _ List.mem_cons_self a k hk l.middle l.gap _
      (.blanks l.after (Doc.endsNumber_fieldsChars rest s))
    exact hv.bind fun a _ => ih hrest fuel (by omega) false a l.after

theorem outcome_items {item : Reader α} {q : Doc → Option α} {items : List (Margins × Doc)}
    (h : ∀ x ∈ items, Denotes item d x.2 (q x.2)) (inside : Blanks) :
    Outcome (Reader.items item) d (inside.chars ++ (Doc.itemsFrom true items ++ ']' :: s))
      (items.mapM fun x => q x.2) (']' :: s) := by
  have hlen := Doc.length_le_itemsFrom true items
  have hloop := outcome_itemsLoop (s := s) h
    ((inside.chars ++ (Doc.itemsFrom true items ++ ']' :: s)).length + 1)
    (by simp only [List.length_append, List.length_cons]; omega) true [] inside
  simp only [List.reverse_nil, List.nil_append, Option.map_id'] at hloop
  exact outcome_withFuel hloop

theorem outcome_fields {step : σ → String → Reader σ} {f : σ → String → Doc → Option σ}
    {fields : List (Label × Doc)}
    (h : ∀ x ∈ fields, ∀ a k, x.1.key.text? = some k → FieldDenotes (step a k) d x.2 (f a k x.2))
    (start : σ) (inside : Blanks) :
    Outcome (Reader.fields step start) d
      (inside.chars ++ (Doc.fieldsFrom true fields ++ '\x7d' :: s))
      ((Doc.keyed? fields).bind fun entries => entries.foldlM (fun a e => f a e.1 e.2) start)
      ('\x7d' :: s) := by
  have hlen := Doc.length_le_fieldsFrom true fields
  rw [← Doc.foldlM_keyed]
  exact outcome_withFuel (outcome_fieldsLoop (s := s) h
    ((inside.chars ++ (Doc.fieldsFrom true fields ++ '\x7d' :: s)).length + 1)
    (by simp only [List.length_append, List.length_cons]; omega) true start inside)

/-- A list ends where no item is left. -/
theorem outcome_listEnd (gap : Blanks) (rest : List (Margins × Doc)) :
    Outcome listEnd d (gap.chars ++ (Doc.itemsFrom false rest ++ ']' :: s))
      (if rest.isEmpty then some () else none) s := by
  cases rest with
  | nil => exact (reads_next?_blanks gap (by decide)).bind (reads_advance ']')
  | cons x rest =>
    obtain ⟨m, v⟩ := x
    obtain ⟨x, r, he, hfirst⟩ := v.chars_cons
    rw [Doc.itemsFrom_next_append, he]
    refine (reads_next?_blanks gap (by decide)).refuses ((reads_advance ',').refuses ?_)
    refine (reads_next?_blanks m.before hfirst.start.1).refuses ?_
    split <;> exact Refuses.failAhead _

/-- A list whose items are read up to `rest`, of which none may be left. -/
theorem outcome_withinList {r : Reader α} {o : Option α} {inside : Blanks}
    {items : List (Margins × Doc)} (gap : Blanks) (rest : List (Margins × Doc))
    (h : 1 < d → Outcome r (d - 1) (inside.chars ++ (Doc.itemsFrom true items ++ ']' :: s)) o
      (gap.chars ++ (Doc.itemsFrom false rest ++ ']' :: s))) :
    Outcome (within r listEnd) d ((Doc.list inside items).chars ++ s)
      (if 1 < d ∧ rest = [] then o else none) s := by
  rw [Doc.chars_list_append]
  have hwithin := outcome_within '[' h (outcome_listEnd gap rest)
  cases rest with
  | nil => simpa using hwithin
  | cons x rest => simpa using hwithin

theorem outcome_withinObject {r : Reader α} {o : Option α} {inside : Blanks}
    {fields : List (Label × Doc)}
    (h : 1 < d → Outcome r (d - 1) (inside.chars ++ (Doc.fieldsFrom true fields ++ '\x7d' :: s)) o
      ('\x7d' :: s)) :
    Outcome (within r objectEnd) d ((Doc.object inside fields).chars ++ s)
      (if 1 < d then o else none) s := by
  rw [Doc.chars_object_append]
  have hend : Outcome objectEnd d ('\x7d' :: s) (some ()) s :=
    (reads_next?_blanks .none (by decide)).bind (reads_advance '\x7d')
  simpa using outcome_within '\x7b' h hend

end Reader

end RuleScope.Json
