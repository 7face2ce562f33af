import Mathlib.Data.List.DropRight
import RuleScope.Proofs.RuleModel.Reports

namespace RuleScope

namespace Evaluation

def term? : Char → Option Bool
  | 't' => some true
  | 'f' => some false
  | _ => none

/-- Reads an evaluation as it is shown; the terms stand among brackets and blanks. -/
def ofChars? : List Char → Option (List Bool)
  | 't' :: 'r' :: 'u' :: 'e' :: terms => some (true :: terms.filterMap term?)
  | 'f' :: 'a' :: 'l' :: 's' :: 'e' :: terms => some (false :: terms.filterMap term?)
  | _ => none

/-- Reads an evaluation from a line that shows it. -/
def ofLine? (line : String) : Option (List Bool) :=
  ofChars? ((line.toList.rtakeWhile (· ≠ ':')).drop 1)

theorem termsText_spec (terms : List Bool) :
    ':' ∉ (String.intercalate " " (terms.map termText)).toList ∧
      (String.intercalate " " (terms.map termText)).toList.filterMap term? = terms := by
  induction terms with
  | nil => simp
  | cons t rest ih =>
    obtain ⟨hcolon, hread⟩ := ih
    have hone : ':' ∉ (termText t).toList ∧ (termText t).toList.filterMap term? = [t] := by
      cases t <;> simp [termText, term?]
    cases rest with
    | nil => simpa using hone
    | cons u rest =>
      have htext : String.intercalate " " ((t :: u :: rest).map termText) =
          termText t ++ " " ++ String.intercalate " " ((u :: rest).map termText) :=
        String.intercalate_cons_cons
      have hblank : " ".toList.filterMap term? = [] := rfl
      rw [htext, String.toList_append, String.toList_append]
      constructor
      · simp only [List.mem_append, not_or]
        exact ⟨⟨hone.1, by decide⟩, hcolon⟩
      · rw [List.filterMap_append, List.filterMap_append, hone.2, hblank, hread]
        rfl

/-- The line of an evaluation holds no colon, and the evaluation is read back from it. -/
theorem line?_spec {state : LoggingState} {results : List Bool} {text : String}
    (h : line? state results = some text) :
    ':' ∉ text.toList ∧ ofChars? text.toList = some results := by
  cases results with
  | nil => cases h
  | cons outcome terms =>
    have houtcome : ':' ∉ (outcomeText outcome).toList := by cases outcome <;> decide
    have hread : ∀ more, ofChars? ((outcomeText outcome).toList ++ more) =
        some (outcome :: more.filterMap term?) := fun more => by
      cases outcome <;> rfl
    obtain ⟨hcolon, hterms⟩ := termsText_spec terms
    simp only [line?, Option.ite_none_right_eq_some, Option.some.injEq] at h
    obtain ⟨-, rfl⟩ := h
    split
    next hempty =>
      have hnil : terms = [] := List.isEmpty_iff.mp hempty
      refine ⟨houtcome, ?_⟩
      have := hread []
      rw [List.append_nil] at this
      rw [this, hnil]
      rfl
    next =>
      simp only [String.toList_append, List.append_assoc]
      constructor
      · simp only [List.mem_append, not_or]
        exact ⟨houtcome, by decide, hcolon, by decide⟩
      · have hopen : " [".toList.filterMap term? = [] := rfl
        have hclose : "]".toList.filterMap term? = [] := rfl
        rw [hread, List.filterMap_append, List.filterMap_append, hopen, hclose, hterms,
          List.nil_append, List.append_nil]

theorem rtakeWhile_colon (before : List Char) {after : List Char} (h : ':' ∉ after) :
    (before ++ ':' :: after).rtakeWhile (· ≠ ':') = after := by
  have hafter : ∀ c ∈ after.reverse, (decide (c ≠ ':')) = true := by
    intro c hc
    refine decide_eq_true ?_
    rintro rfl
    exact h (List.mem_reverse.mp hc)
  simp only [List.rtakeWhile, List.reverse_append, List.reverse_cons, List.append_assoc]
  rw [List.takeWhile_append_of_pos hafter]
  simp

theorem ofLine?_line {state : LoggingState} {results : List Bool} {text : String}
    (h : line? state results = some text) (place : String) :
    ofLine? (place ++ ": " ++ text) = some results := by
  obtain ⟨hcolon, hread⟩ := line?_spec h
  have htext : (place ++ ": " ++ text).toList = place.toList ++ ':' :: ' ' :: text.toList := by
    simp
  have hcolon' : ':' ∉ ' ' :: text.toList := by simp [hcolon]
  rw [ofLine?, htext, rtakeWhile_colon _ hcolon']
  exact hread

end Evaluation

namespace RuleModel

/-- An evaluation of a rule of the model is shown in one line, from which it can be read back, or in
none. -/
theorem entryLines_eq {m : RuleModel} {e : Wire.LogMessage} {n : Nat}
    (hn : m.tree.rule? e.rule = some n) :
    (Evaluation.line? (m.state n) e.results = none ∧ m.entryLines e = []) ∨
    ∃ line, (Evaluation.line? (m.state n) e.results).isSome = true ∧ m.entryLines e = [line] ∧
      Evaluation.ofLine? line = some e.results := by
  simp only [entryLines, logLines, hn]
  cases h : Evaluation.line? (m.state n) e.results with
  | none => simp [h]
  | some text =>
    let place := String.intercalate "/" (m.tree.labelPath n) ++ " #" ++ e.rule.text
    exact Or.inr ⟨place ++ ": " ++ text, rfl, by simp [h, place], Evaluation.ofLine?_line h place⟩

/-- Evaluations that are shown have one line each, in order. -/
theorem forall₂_entryLines {m : RuleModel} {es : List Wire.LogMessage}
    (h : ∀ e ∈ es, ∃ line, m.entryLines e = [line] ∧ Evaluation.ofLine? line = some e.results) :
    (es.flatMap m.entryLines).Forall₂ (fun line e => m.entryLines e = [line] ∧
      Evaluation.ofLine? line = some e.results) es := by
  induction es with
  | nil => exact .nil
  | cons e rest ih =>
    obtain ⟨line, hlines, hread⟩ := h e List.mem_cons_self
    have hrest := ih fun x hx => h x (List.mem_cons_of_mem _ hx)
    rw [List.flatMap_cons, hlines]
    exact .cons ⟨hlines, hread⟩ hrest

end RuleModel

end RuleScope
