import RuleScope.Proofs.Json.Reads
import RuleScope.Proofs.Json.Yields

namespace RuleScope.Json

/-- At depth `d`, the reader fails on `before`. -/
def Refuses {α : Type} (r : Reader α) (d : Nat) (before : List Char) : Prop :=
  ∀ c : Cursor, c.rest = before → c.depth = d → ∃ e c', r c = .error e c'

/-- At depth `d`, the reader takes `before` to `after` and gives the value, or fails. -/
def Outcome {α : Type} (r : Reader α) (d : Nat) (before : List Char) (o : Option α)
    (after : List Char) : Prop :=
  match o with
  | some a => Reads r d before a after
  | none => Refuses r d before

variable {α β : Type} {d : Nat} {s s' s'' : List Char} {r : Reader α}

namespace Refuses

theorem bind {f : α → Reader β} (h : Refuses r d s) : Refuses (r >>= f) d s := by
  intro c hr hd
  obtain ⟨e, c', he⟩ := h c hr hd
  exact ⟨e, c', by simp only [Bind.bind, EStateM.bind, he]⟩

theorem map {f : α → β} (h : Refuses r d s) : Refuses (f <$> r) d s := by
  intro c hr hd
  obtain ⟨e, c', he⟩ := h c hr hd
  exact ⟨e, c', by simp only [Functor.map, EStateM.map, he]⟩

theorem located (h : Refuses r d s) : Refuses (Reader.located r) d s := by
  intro c hr hd
  obtain ⟨e, c', he⟩ := h c hr hd
  unfold Reader.located
  rw [he]
  cases e with
  | malformed => exact ⟨_, _, rfl⟩
  | mismatch data place => cases place <;> exact ⟨_, _, rfl⟩

theorem failData (data : Schema.Mismatch) : Refuses (Reader.failData (α := α) data) d s :=
  fun _ _ _ => ⟨_, _, rfl⟩

theorem failAhead (fault : SyntaxFault) : Refuses (Reader.failAhead (α := α) fault) d s :=
  fun _ _ _ => ⟨_, _, rfl⟩

theorem failHere (fault : SyntaxFault) : Refuses (Reader.failHere (α := α) fault) d s :=
  fun _ _ _ => ⟨_, _, rfl⟩

/-- A reader that never gives a value fails. -/
theorem of_yields (h : Yields r fun _ => False) : Refuses r d s := by
  intro c _ _
  cases hr : r c with
  | ok a c' => exact absurd (h c a c' hr) id
  | error e c' => exact ⟨e, c', rfl⟩

theorem unexpected (expected : String) : Refuses (Reader.unexpected (α := α) expected) d s :=
  .of_yields (Reader.yields_unexpected expected)

end Refuses

theorem Reads.refuses {a : α} {f : α → Reader β} (h : Reads r d s a s') (h' : Refuses (f a) d s') :
    Refuses (r >>= f) d s := by
  intro c hr hd
  obtain ⟨c₁, he, hr₁, hd₁⟩ := h c hr hd
  obtain ⟨e, c₂, he₂⟩ := h' c₁ hr₁ hd₁
  exact ⟨e, c₂, by simp only [Bind.bind, EStateM.bind, he, he₂]⟩

/-- What follows a reader that accepts decides. -/
theorem Reads.outcome {a : α} {f : α → Reader β} {o : Option β} (h : Reads r d s a s')
    (h' : Outcome (f a) d s' o s'') : Outcome (r >>= f) d s o s'' := by
  cases o with
  | some b => exact h.bind h'
  | none => exact h.refuses h'

namespace Outcome

variable {o : Option α}

theorem pure (a : α) : Outcome (pure a) d s (some a) s := Reads.pure a

theorem bind {f : α → Reader β} {q : α → Option β} (h : Outcome r d s o s')
    (h' : ∀ a, o = some a → Outcome (f a) d s' (q a) s'') :
    Outcome (r >>= f) d s (o.bind q) s'' := by
  cases o with
  | some a => exact Reads.outcome (a := a) h (h' a rfl)
  | none => exact Refuses.bind h

theorem map (f : α → β) (h : Outcome r d s o s') : Outcome (f <$> r) d s (o.map f) s' := by
  cases o with
  | some a => exact Reads.map f h
  | none => exact Refuses.map h

theorem seqRight {r' : Reader β} {o' : Option β} (h : Outcome r d s o s')
    (h' : Outcome r' d s' o' s'') : Outcome (r *> r') d s (o.bind fun _ => o') s'' := by
  cases o with
  | some a =>
    cases o' with
    | some b => exact Reads.seqRight (a := a) h h'
    | none =>
      intro c hr hd
      obtain ⟨c₁, he, hr₁, hd₁⟩ := h c hr hd
      obtain ⟨e, c₂, he₂⟩ := h' c₁ hr₁ hd₁
      exact ⟨e, c₂, by simp only [SeqRight.seqRight, EStateM.seqRight, he, he₂]⟩
  | none =>
    intro c hr hd
    obtain ⟨e, c₁, he⟩ := h c hr hd
    exact ⟨e, c₁, by simp only [SeqRight.seqRight, EStateM.seqRight, he]⟩

theorem located (h : Outcome r d s o s') : Outcome (Reader.located r) d s o s' := by
  cases o with
  | some a => exact Reader.reads_located h
  | none => exact Refuses.located h

/-- The value of a computation that gives it or fails with a mismatch. -/
theorem ofExcept {f : α → Except Schema.Mismatch β} (a : α) :
    Outcome (match f a with
      | .ok b => Pure.pure b
      | .error m => Reader.failData m) d s (f a).toOption s := by
  cases f a with
  | ok b => exact .pure b
  | error m => exact Refuses.failData m

end Outcome

namespace Reader

theorem refuses_enter (h : d ≤ 1) : Refuses enter d s := by
  intro c _ hd
  have hdeep : c.depth ≤ 1 := by omega
  change ∃ e c', (if c.depth ≤ 1 then failAhead .recursionLimit
    else do
      set { c with depth := c.depth - 1 }
      advance) c = .error e c'
  rw [if_pos hdeep]
  exact ⟨_, _, rfl⟩

theorem reads_enter (x : Char) (h : 1 < d) {c : Cursor} (hr : c.rest = x :: s)
    (hd : c.depth = d) : ∃ c', enter c = .ok () c' ∧ c'.rest = s ∧ c'.depth = d - 1 := by
  obtain ⟨c', he, hr', hd'⟩ := reads_advance (d := d - 1) (s := s) x
    { c with depth := c.depth - 1 } hr (by rw [hd])
  refine ⟨c', ?_, hr', hd'⟩
  have hdeep : ¬c.depth ≤ 1 := by omega
  change (if c.depth ≤ 1 then failAhead .recursionLimit
    else do
      set { c with depth := c.depth - 1 }
      advance) c = _
  rw [if_neg hdeep]
  exact he

/-- A container is read if there is a level left and both its inside and its end are read. -/
theorem outcome_within {inside : Reader α} {close : Reader Unit} {o : Option α} {q : Option Unit}
    (x : Char) (h : 1 < d → Outcome inside (d - 1) s o s') (hc : Outcome close d s' q s'') :
    Outcome (within inside close) d (x :: s)
      (if 1 < d then o.bind fun a => q.map fun _ => a else none) s'' := by
  by_cases hdeep : 1 < d
  · rw [if_pos hdeep]
    have hin := h hdeep
    cases o with
    | some a =>
      have body : ∀ c, c.rest = x :: s → c.depth = d → ∃ c₁ c₂, enter c = .ok () c₁ ∧
          inside c₁ = .ok a c₂ ∧ c₂.rest = s' ∧ c₂.depth + 1 = d := by
        intro c hr hd
        obtain ⟨c₁, he₁, hr₁, hd₁⟩ := reads_enter x hdeep hr hd
        obtain ⟨c₂, he₂, hr₂, hd₂⟩ := hin c₁ hr₁ hd₁
        exact ⟨c₁, c₂, he₁, he₂, hr₂, by omega⟩
      cases q with
      | some u =>
        intro c hr hd
        obtain ⟨c₁, c₂, he₁, he₂, hr₂, hd₂⟩ := body c hr hd
        obtain ⟨c₃, he₃, hr₃, hd₃⟩ := hc { c₂ with depth := c₂.depth + 1 } hr₂ hd₂
        have hleave : (leave *> close) c₂ = .ok u c₃ := he₃
        refine ⟨c₃, ?_, hr₃, hd₃⟩
        simp only [within, Bind.bind, EStateM.bind, he₁, he₂, hleave]
      | none =>
        intro c hr hd
        obtain ⟨c₁, c₂, he₁, he₂, hr₂, hd₂⟩ := body c hr hd
        obtain ⟨e, c₃, he₃⟩ := hc { c₂ with depth := c₂.depth + 1 } hr₂ hd₂
        have hleave : (leave *> close) c₂ = .error e c₃ := he₃
        refine ⟨e, c₃, ?_⟩
        simp only [within, Bind.bind, EStateM.bind, he₁, he₂, hleave]
    | none =>
      intro c hr hd
      obtain ⟨c₁, he₁, hr₁, hd₁⟩ := reads_enter x hdeep hr hd
      obtain ⟨e, c₂, he₂⟩ := hin c₁ hr₁ hd₁
      simp only [within, Bind.bind, EStateM.bind, he₁, he₂]
      cases (leave *> close) c₂ with
      | ok _ c₃ => exact ⟨e, c₃, rfl⟩
      | error _ c₃ => exact ⟨e, c₃, rfl⟩
  · rw [if_neg hdeep]
    exact (refuses_enter (by omega)).bind

theorem outcome_withFuel {r : Nat → Reader α} {o : Option α}
    (h : Outcome (r (s.length + 1)) d s o s') : Outcome (withFuel r) d s o s' := by
  cases o with
  | some a => exact reads_withFuel h
  | none =>
    intro c hr hd
    obtain ⟨e, c', he⟩ := h c hr hd
    refine ⟨e, c', ?_⟩
    rw [withFuel, hr]
    exact he

end Reader

end RuleScope.Json
