namespace RuleScope.Table

variable {α β : Type} [DecidableEq α]

/-- The value at a key. -/
def get? (k : α) : List (α × β) → Option β
  | [] => none
  | (l, b) :: rest => if l = k then some b else get? k rest

/-- Gives a key a value; a key that is known keeps its place. -/
def put (k : α) (b : β) : List (α × β) → List (α × β)
  | [] => [(k, b)]
  | (l, c) :: rest => if l = k then (k, b) :: rest else (l, c) :: put k b rest

/-- Forgets a key. -/
def erase (k : α) (t : List (α × β)) : List (α × β) := t.filter fun e => e.1 ≠ k

/-- Adds a value to the list at a key. -/
def append (k : α) (b : β) (t : List (α × List β)) : List (α × List β) :=
  put k ((get? k t).getD [] ++ [b]) t

theorem get?_eq_none_iff {k : α} {t : List (α × β)} :
    get? k t = none ↔ k ∉ t.map Prod.fst := by
  induction t with
  | nil => simp [get?]
  | cons e rest ih =>
    by_cases h : e.1 = k
    · simp [get?, h]
    · simp [get?, h, ih, Ne.symm h]

theorem mem_of_get? {k : α} {b : β} {t : List (α × β)} (h : get? k t = some b) : (k, b) ∈ t := by
  induction t with
  | nil => cases h
  | cons e rest ih =>
    by_cases hk : e.1 = k
    · subst hk
      simp only [get?, if_true, Option.some.injEq] at h
      exact h ▸ List.mem_cons_self
    · simp only [get?, hk, if_false] at h
      exact List.mem_cons_of_mem _ (ih h)

/-- Where each key comes once, what stands at a key is its value. -/
theorem get?_of_mem {k : α} {b : β} {t : List (α × β)} (hkeys : (t.map Prod.fst).Nodup)
    (h : (k, b) ∈ t) : get? k t = some b := by
  induction t with
  | nil => cases h
  | cons e rest ih =>
    obtain ⟨hnew, hrest⟩ := List.nodup_cons.mp hkeys
    rcases List.mem_cons.mp h with rfl | h
    · simp [get?]
    · have hne : e.1 ≠ k := fun he => hnew (he ▸ List.mem_map_of_mem h)
      rw [get?, if_neg hne]
      exact ih hrest h

theorem put_of_get?_eq_none {k : α} {t : List (α × β)}
    (h : get? k t = none) (b : β) : put k b t = t ++ [(k, b)] := by
  induction t with
  | nil => rfl
  | cons e rest ih =>
    by_cases hk : e.1 = k
    · simp [get?, hk] at h
    · simp only [get?, hk, if_false] at h
      simp [put, hk, ih h]

theorem get?_put_self (k : α) (b : β) (t : List (α × β)) : get? k (put k b t) = some b := by
  induction t with
  | nil => simp [put, get?]
  | cons e rest ih => by_cases h : e.1 = k <;> simp [put, get?, h, ih]

theorem get?_put_of_ne {k l : α} (h : l ≠ k) (b : β) (t : List (α × β)) :
    get? l (put k b t) = get? l t := by
  induction t with
  | nil => simp [put, get?, Ne.symm h]
  | cons e rest ih =>
    by_cases hk : e.1 = k
    · simp [put, get?, hk, Ne.symm h]
    · simp [put, get?, hk, ih]

/-- A new key comes last. -/
theorem keys_put (k : α) (b : β) (t : List (α × β)) : (put k b t).map Prod.fst =
    if k ∈ t.map Prod.fst then t.map Prod.fst else t.map Prod.fst ++ [k] := by
  induction t with
  | nil => rfl
  | cons e rest ih =>
    by_cases h : e.1 = k
    · simp [put, h]
    · simp only [put, h, if_false, List.map_cons, ih, List.mem_cons, Ne.symm h, false_or]
      split <;> rfl

theorem nodup_put {k : α} {t : List (α × β)} (h : (t.map Prod.fst).Nodup) (b : β) :
    ((put k b t).map Prod.fst).Nodup := by
  rw [keys_put]
  split
  next => exact h
  next hk =>
    refine List.nodup_append.mpr ⟨h, by simp, fun l hl m hm => ?_⟩
    rintro rfl
    exact hk (List.mem_singleton.mp hm ▸ hl)

/-- Keeping some of the keys. -/
theorem get?_filter_key (p : α → Bool) (k : α) (t : List (α × β)) :
    get? k (t.filter fun e => p e.1) = if p k then get? k t else none := by
  induction t with
  | nil => simp [get?]
  | cons e rest ih =>
    by_cases h : e.1 = k
    · subst h
      by_cases hp : p e.1 = true
      · simp [get?, hp]
      · simp [hp, ih]
    · by_cases hp : p e.1 = true <;> simp [get?, hp, h, ih]

theorem get?_erase_self (k : α) (t : List (α × β)) : get? k (erase k t) = none := by
  simpa [erase] using get?_filter_key (fun l => l ≠ k) k t

theorem get?_erase_of_ne {k l : α} (h : l ≠ k) (t : List (α × β)) :
    get? l (erase k t) = get? l t := by
  simpa [erase, h] using get?_filter_key (fun l => l ≠ k) l t

/-- Changing values in place. -/
theorem get?_map_value (f : α × β → β) (k : α) (t : List (α × β)) :
    get? k (t.map fun e => (e.1, f e)) = (get? k t).map fun b => f (k, b) := by
  induction t with
  | nil => rfl
  | cons e rest ih =>
    by_cases h : e.1 = k
    · subst h
      simp [get?]
    · simp [get?, h, ih]

end RuleScope.Table
