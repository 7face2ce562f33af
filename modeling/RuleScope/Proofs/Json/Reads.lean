import RuleScope.Json.Reader

namespace RuleScope.Json

/-- At depth `d`, the reader takes `before` to `after` and gives `a`. -/
def Reads {α : Type} (r : Reader α) (d : Nat) (before : List Char) (a : α) (after : List Char) :
    Prop :=
  ∀ c : Cursor, c.rest = before → c.depth = d →
    ∃ c' : Cursor, r c = .ok a c' ∧ c'.rest = after ∧ c'.depth = d

/-- What follows a number does not continue it. -/
def EndsNumber (after : List Char) : Prop :=
  ∀ c, after.head? = some c → Text.isDigit c = false ∧ c ≠ '.' ∧ c ≠ 'e' ∧ c ≠ 'E'

namespace Reads

variable {α β : Type} {d : Nat} {s s' s'' : List Char} {a : α} {b : β}

theorem pure (a : α) : Reads (pure a) d s a s := fun c hr hd => ⟨c, rfl, hr, hd⟩

theorem bind {r : Reader α} {f : α → Reader β} (h : Reads r d s a s') (h' : Reads (f a) d s' b s'') :
    Reads (r >>= f) d s b s'' := by
  intro c hr hd
  obtain ⟨c₁, he, hr₁, hd₁⟩ := h c hr hd
  obtain ⟨c₂, he₂, hr₂, hd₂⟩ := h' c₁ hr₁ hd₁
  refine ⟨c₂, ?_, hr₂, hd₂⟩
  simp only [Bind.bind, EStateM.bind, he, he₂]

theorem seqRight {r : Reader α} {r' : Reader β} (h : Reads r d s a s') (h' : Reads r' d s' b s'') :
    Reads (r *> r') d s b s'' := by
  intro c hr hd
  obtain ⟨c₁, he, hr₁, hd₁⟩ := h c hr hd
  obtain ⟨c₂, he₂, hr₂, hd₂⟩ := h' c₁ hr₁ hd₁
  refine ⟨c₂, ?_, hr₂, hd₂⟩
  simp only [SeqRight.seqRight, EStateM.seqRight, he, he₂]

theorem map {r : Reader α} (f : α → β) (h : Reads r d s a s') : Reads (f <$> r) d s (f a) s' := by
  intro c hr hd
  obtain ⟨c₁, he, hr₁, hd₁⟩ := h c hr hd
  refine ⟨c₁, ?_, hr₁, hd₁⟩
  simp only [Functor.map, EStateM.map, he]

theorem discard {r : Reader α} (h : Reads r d s a s') : Reads (discard r) d s () s' :=
  h.map fun _ => ()

end Reads

namespace Reader

variable {α β : Type} {d : Nat} {s s' : List Char} {a : α}

theorem reads_located {r : Reader α} (h : Reads r d s a s') : Reads (located r) d s a s' := by
  intro c hr hd
  obtain ⟨c', he, hr', hd'⟩ := h c hr hd
  exact ⟨c', by simp only [located, he], hr', hd'⟩

theorem reads_peek? : Reads peek? d s s.head? s := by
  intro c hr hd
  exact ⟨c, by rw [peek?, hr], hr, hd⟩

theorem reads_advance (x : Char) : Reads advance d (x :: s) () s := by
  intro c hr hd
  unfold advance
  rw [hr]
  by_cases hx : x = '\n'
  · exact ⟨_, if_pos hx, rfl, hd⟩
  · exact ⟨_, if_neg hx, rfl, hd⟩

theorem reads_withFuel {r : Nat → Reader α} (h : Reads (r (s.length + 1)) d s a s') :
    Reads (withFuel r) d s a s' := by
  intro c hr hd
  obtain ⟨c', he, hc'⟩ := h c hr hd
  refine ⟨c', ?_, hc'⟩
  rw [withFuel, hr]
  exact he

end Reader

end RuleScope.Json
