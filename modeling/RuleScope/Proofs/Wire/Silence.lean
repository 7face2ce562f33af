import RuleScope.Proofs.Json.Strings
import RuleScope.Text.Blank
import RuleScope.Wire.Decode

namespace RuleScope

namespace Json.Reader

variable {α : Type} {d : Nat} {s : List Char}

/-- A text is nothing but blanks, or has another character behind its blanks. -/
theorem exists_blanks (s : List Char) : ∃ b : Blanks,
    s = b.chars ∨ ∃ x rest, isSpace x = false ∧ s = b.chars ++ x :: rest := by
  induction s with
  | nil => exact ⟨.none, .inl rfl⟩
  | cons c s ih =>
    by_cases hc : isSpace c = true
    · obtain ⟨b, hb⟩ := ih
      refine ⟨⟨c :: b.chars, List.forall_mem_cons.mpr ⟨hc, b.blank⟩⟩, ?_⟩
      rcases hb with rfl | ⟨x, rest, hx, rfl⟩
      · exact .inl rfl
      · exact .inr ⟨x, rest, hx, rfl⟩
    · exact ⟨.none, .inr ⟨c, s, by simpa using hc, rfl⟩⟩

/-- A record does not start with a blank, of whatever kind. -/
theorem refuses_record (h : Text.isBlankLine s = true) (expected : String)
    (fromFields fromItems : Reader α) : Refuses (record expected fromFields fromItems) d s := by
  have hblank : ∀ x ∈ s, Text.isBlank x = true := by simpa [Text.isBlankLine] using h
  refine Refuses.located ?_
  obtain ⟨b, rfl | ⟨x, rest, hspace, rfl⟩⟩ := exists_blanks s
  · exact ((reads_next?_end b).refuses (.failAhead _)).bind
  · -- A blank that is no space to the reader is where it stops.
    have hx : Text.isBlank x = true := hblank x (by simp)
    refine (((reads_next?_blanks b hspace).bind (.pure x)).refuses ?_)
    split
    next => exact absurd hx (by decide)
    next => exact absurd hx (by decide)
    next => exact .unexpected expected

end Json.Reader

namespace Wire

open Json

variable {text : String}

/-- The message of a line, if it has one. -/
def message? (text : String) : Option Message :=
  match decode text with
  | .ok m => m
  | .error _ => none

/-- A line that is blank or malformed, or whose method is not known. -/
def SaysNothing (text : String) : Prop :=
  Text.isBlankLine text.toList = true ∨ (∃ fault, decode text = .error fault) ∨ decode text = .ok none

theorem decode_of_isBlankLine (h : Text.isBlankLine text.toList = true) :
    ∃ fault, decode text = .error fault := by
  have hrefuses : Outcome methodReader depthLimit text.toList none Blanks.none.chars :=
    Reader.refuses_record h _ _ _
  have hrun := Reader.run_of_outcome Blanks.none hrefuses
  unfold decode
  cases hm : Reader.run methodReader text with
  | error e => exact ⟨.unreadable e, rfl⟩
  | ok name =>
    rw [hm] at hrun
    cases hrun

theorem saysNothing_iff : SaysNothing text ↔ message? text = none := by
  unfold message?
  constructor
  · rintro (hblank | ⟨fault, hfault⟩ | hnone)
    · obtain ⟨fault, hfault⟩ := decode_of_isBlankLine hblank
      rw [hfault]
    · rw [hfault]
    · rw [hnone]
  · intro h
    cases hd : decode text with
    | error fault => exact .inr (.inl ⟨fault, hd⟩)
    | ok m =>
      rw [hd] at h
      exact .inr (.inr (h ▸ hd))

end Wire

end RuleScope
