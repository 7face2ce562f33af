import Mathlib.Tactic.Common

namespace RuleScope

variable {α κ β : Type} [DecidableEq κ] (key : α → κ) (value : α → β) (k : κ)

/-- The value of the last entry for a key. -/
def latest? (log : List α) : Option β := ((log.filter (key · = k)).getLast?).map value

@[simp] theorem latest?_nil : latest? key value k [] = none := rfl

theorem latest?_singleton (a : α) :
    latest? key value k [a] = if key a = k then some (value a) else none := by
  by_cases h : key a = k <;> simp [latest?, h]

/-- The later part of a log prevails. -/
theorem latest?_append (log more : List α) :
    latest? key value k (log ++ more) = (latest? key value k more).or (latest? key value k log) := by
  rw [latest?, List.filter_append, List.getLast?_append, latest?, latest?]
  cases (more.filter (key · = k)).getLast? <;> rfl

theorem latest?_cons (a : α) (log : List α) :
    latest? key value k (a :: log) =
      (latest? key value k log).or (if key a = k then some (value a) else none) := by
  rw [← List.singleton_append, latest?_append, latest?_singleton]

theorem latest?_eq_none_iff {log : List α} :
    latest? key value k log = none ↔ ∀ a ∈ log, key a ≠ k := by
  simp [latest?]

theorem latest?_eq_some {log : List α} {b : β} (h : ∃ a ∈ log, key a = k)
    (all : ∀ a ∈ log, key a = k → value a = b) : latest? key value k log = some b := by
  cases hl : latest? key value k log with
  | none =>
    obtain ⟨a, ha, hk⟩ := h
    exact absurd hk ((latest?_eq_none_iff key value k).mp hl a ha)
  | some c =>
    obtain ⟨a, ha, rfl⟩ := Option.map_eq_some_iff.mp hl
    obtain ⟨hmem, hk⟩ := List.mem_filter.mp (List.mem_of_getLast? ha)
    rw [all a hmem (by simpa using hk)]

/-- Entries for other keys do not matter. -/
theorem latest?_filter (log : List α) :
    latest? key value k (log.filter (key · = k)) = latest? key value k log := by
  simp [latest?]

end RuleScope
