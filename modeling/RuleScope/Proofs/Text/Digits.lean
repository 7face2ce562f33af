import Mathlib.Tactic.Common
import RuleScope.Text.Digits

namespace RuleScope.Text

/-- The value of some digits after a number. -/
def appendDigits (acc : Nat) (digits : List Nat) : Nat := digits.foldl (fun n d => 10 * n + d) acc

theorem isDigit_digitChar : ∀ d < 10, isDigit (digitChar d) = true := by decide

theorem digitValue_digitChar : ∀ d < 10, digitValue (digitChar d) = d := by decide

theorem digitChar_ne_zero : ∀ d < 10, d ≠ 0 → digitChar d ≠ '0' := by decide

theorem le_appendDigits (acc : Nat) (digits : List Nat) : acc ≤ appendDigits acc digits := by
  induction digits generalizing acc with
  | nil => exact Nat.le_refl _
  | cons d rest ih =>
    have := ih (10 * acc + d)
    rw [appendDigits, List.foldl_cons, ← appendDigits]
    omega

theorem decimalDigits_lt (n : Nat) : ∀ d ∈ decimalDigits n, d < 10 := by
  fun_induction decimalDigits n with
  | case1 n h =>
    intro d hd
    rw [List.mem_singleton.mp hd]
    exact h
  | case2 n h ih =>
    intro d hd
    rcases List.mem_append.mp hd with hd | hd
    · exact ih d hd
    · rw [List.mem_singleton.mp hd]
      omega

theorem appendDigits_decimalDigits (n : Nat) : appendDigits 0 (decimalDigits n) = n := by
  fun_induction decimalDigits n with
  | case1 n h => simp [appendDigits]
  | case2 n h ih =>
    rw [appendDigits] at ih ⊢
    rw [List.foldl_append, ih, List.foldl_cons, List.foldl_nil]
    omega

/-- The first digit of a positive number is not zero. -/
theorem decimalDigits_cons (n : Nat) :
    ∃ d rest, decimalDigits n = d :: rest ∧ d < 10 ∧ (d = 0 → n = 0 ∧ rest = []) := by
  fun_induction decimalDigits n with
  | case1 n h => exact ⟨n, [], rfl, h, fun h => ⟨h, rfl⟩⟩
  | case2 n h ih =>
    obtain ⟨d, rest, he, hd, hz⟩ := ih
    refine ⟨d, rest ++ [n % 10], by rw [he]; rfl, hd, fun h0 => ?_⟩
    have := (hz h0).1
    omega

/-- A natural number starts with a digit, which is zero only for zero itself. -/
theorem natChars_cons (n : Nat) :
    ∃ c rest, natChars n = c :: rest ∧ isDigit c = true ∧ (c = '0' → n = 0 ∧ rest = []) := by
  obtain ⟨d, rest, he, hd, hz⟩ := decimalDigits_cons n
  refine ⟨digitChar d, rest.map digitChar, by rw [natChars, he]; rfl, isDigit_digitChar d hd,
    fun hc => ?_⟩
  by_cases h0 : d = 0
  · obtain ⟨hn, hr⟩ := hz h0
    exact ⟨hn, by rw [hr]; rfl⟩
  · exact absurd hc (digitChar_ne_zero d hd h0)

theorem natChars_isDigit (n : Nat) : ∀ c ∈ natChars n, isDigit c = true := by
  intro c hc
  obtain ⟨d, hd, rfl⟩ := List.mem_map.mp hc
  exact isDigit_digitChar d (decimalDigits_lt n d hd)

theorem readDigits_of_mem {c : Char} {cs : List Char} (hc : isDigit c = false) (h : c ∈ cs)
    (limit : Nat) (beyond : IntegerFault) (acc : Nat) : ∃ e, readDigits limit beyond acc cs = .error e := by
  induction cs generalizing acc with
  | nil => cases h
  | cons d cs ih =>
    rw [readDigits]
    split
    next hdigit =>
      have hne : c ≠ d := by
        rintro rfl
        rw [hc] at hdigit
        cases hdigit
      have hcs : c ∈ cs := (List.mem_cons.mp h).resolve_left hne
      dsimp only
      split
      next => exact ih hcs _
      next => exact ⟨beyond, rfl⟩
    next => exact ⟨.invalidDigit, rfl⟩

theorem readInt_of_mem {c : Char} {cs : List Char} (hc : isDigit c = false) (hplus : c ≠ '+')
    (hminus : c ≠ '-') (h : c ∈ cs) (limit : Nat) : ∃ e, readInt limit cs = .error e := by
  unfold readInt
  split
  next => exact ⟨.empty, rfl⟩
  next => exact ⟨.invalidDigit, rfl⟩
  next => exact ⟨.invalidDigit, rfl⟩
  next cs _ =>
    have hcs : c ∈ cs := (List.mem_cons.mp h).resolve_left hminus
    obtain ⟨e, he⟩ := readDigits_of_mem hc hcs (limit + 1) .tooSmall 0
    exact ⟨e, by rw [he]; rfl⟩
  next cs _ =>
    have hcs : c ∈ cs := (List.mem_cons.mp h).resolve_left hplus
    obtain ⟨e, he⟩ := readDigits_of_mem hc hcs limit .tooLarge 0
    exact ⟨e, by rw [he]; rfl⟩
  next =>
    obtain ⟨e, he⟩ := readDigits_of_mem hc h limit .tooLarge 0
    exact ⟨e, by rw [he]; rfl⟩

end RuleScope.Text
