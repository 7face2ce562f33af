import RuleScope.Proofs.Location.Nesting
import RuleScope.Proofs.Yaml.Flow.Load

namespace RuleScope.Location

open Yaml

def towerFlow : Nat → Flow
  | 0 => .record [({ chars := ['l', 'a', 'b', 'e', 'l'] }, .word { chars := ['r'] }),
      ({ chars := ['i', 'd'] }, .word { chars := ['1'] })]
  | n + 1 => .record [({ chars := ['l', 'a', 'b', 'e', 'l'] }, .word { chars := ['a'] }),
      ({ chars := ['c', 'h', 'i', 'l', 'd', 'r', 'e', 'n'] }, .list [towerFlow n])]

def towerValue : Nat → Value
  | 0 => .mapping [(.string "label", .string "r"), (.string "id", .number (.integer 1))]
  | n + 1 => .mapping [(.string "label", .string "a"),
      (.string "children", .sequence [towerValue n])]

def towerRule : RuleId := (RuleId.ofInt? 1).getD default

/-- A rule below so many imports. -/
def tower : Nat → Location
  | 0 => ⟨"r", 0, .rule towerRule "" [], []⟩
  | n + 1 => ⟨"a", 0, .imported none [], [tower n]⟩

theorem value?_towerFlow (n : Nat) : (towerFlow n).value? = some (towerValue n) := by
  induction n with
  | zero => rfl
  | succ n ih =>
    have hitems : Flow.itemValues? [towerFlow n] = some [towerValue n] := by
      rw [Flow.itemValues?, ih]
      rfl
    rw [towerFlow, Flow.value?, Flow.fieldValues?, Flow.fieldValues?, Flow.fieldValues?,
      Flow.value?, Flow.value?, hitems]
    rfl

theorem nesting_towerValue (n : Nat) : (towerValue n).nesting = 2 * n + 1 := by
  induction n with
  | zero => rfl
  | succ n ih =>
    simp only [towerValue, Value.nesting, Value.nestingFields, Value.nestingItems, ih]
    omega

theorem height_tower (n : Nat) : (tower n).height = n + 1 := by
  induction n with
  | zero => rfl
  | succ n ih =>
    rw [tower, height_eq, heightAll, heightAll, ih]
    omega

theorem convertWith_import {below : Value → Except EntryFault Location} {v : Value} {l : Location}
    (h : below v = .ok l) :
    convertWith below (.mapping [(.string "label", .string "a"),
      (.string "children", .sequence [v])]) = .ok ⟨"a", 0, .imported none [], [l]⟩ := by
  have hgather : gather 0 [(v, below v)] = ([l], []) := by
    rw [h]
    rfl
  change Except.ok (⟨"a", 0, .imported none ([] ++ [] ++ (gather 0 [(v, below v)]).2),
    (gather 0 [(v, below v)]).1⟩ : Location) = _
  rw [hgather]
  rfl

theorem convertWithin_towerValue {n levels : Nat} (h : n < levels) :
    convertWithin levels (towerValue n) = .ok (tower n) := by
  induction n generalizing levels with
  | zero =>
    obtain ⟨levels, rfl⟩ : ∃ m, levels = m + 1 := ⟨levels - 1, by omega⟩
    rfl
  | succ n ih =>
    obtain ⟨levels, rfl⟩ : ∃ m, levels = m + 1 := ⟨levels - 1, by omega⟩
    exact convertWith_import (ih (by omega))

theorem height_towerValue (n : Nat) : n < (towerValue n).height := by
  induction n with
  | zero => decide
  | succ n ih =>
    simp only [towerValue, Value.height, Value.heightFields, Value.heightItems]
    omega

/-- A text of a tower is read as the tower, if it is not more than 64 levels high. -/
theorem ofText_towerFlow {n : Nat} (h : n < 64) : ofText (towerFlow n).text = .ok (tower n) := by
  have hcollection : (towerFlow n).isWord = false := by cases n <;> rfl
  have hnesting : (towerValue n).nesting ≤ Event.depthLimit := by
    rw [nesting_towerValue]
    change 2 * n + 1 ≤ 128
    omega
  have hvalue := ofText?_flow hcollection (value?_towerFlow n) hnesting
  have hconvert : convert (towerValue n) = .ok (tower n) :=
    convertWithin_towerValue (height_towerValue n)
  have hmapping : (towerValue n).asMapping?.isNone = false := by cases n <;> rfl
  rw [ofText, hvalue]
  dsimp only
  rw [ofValue, hmapping, hconvert]
  rfl

example : (towerFlow 1).text =
    "\x7blabel: a, children: [\x7blabel: r, id: 1\x7d]\x7d" := by decide

/-- The heights of the location trees that are read from texts are those from 1 to 64. -/
theorem exists_ofText_height_iff {h : Nat} :
    (∃ text l, ofText text = .ok l ∧ l.height = h) ↔ 1 ≤ h ∧ h ≤ 64 := by
  constructor
  · rintro ⟨text, l, hl, rfl⟩
    have hheight := height_eq l
    exact ⟨by omega, height_le_of_ofText hl⟩
  · rintro ⟨hpos, hle⟩
    refine ⟨_, _, ofText_towerFlow (n := h - 1) (by omega), ?_⟩
    rw [height_tower]
    omega

end RuleScope.Location
