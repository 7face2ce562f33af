import Mathlib.Data.List.Nodup
import RuleScope.Proofs.Latest
import RuleScope.Proofs.RuleModel.Runs

namespace RuleScope

open RuleTree

/-- The state to which a node was changed last. -/
def changedTo? (n : Nat) (changes : List Change) : Option LoggingState :=
  latest? Change.node Change.new n changes

/-- A change that the tree allows, with the rule id of its node. -/
structure RuleTree.Allows (t : RuleTree) (c : Change) : Prop where
  rule_eq : c.rule = t.ruleId? c.node
  mayHold : t.MayHold c.node c.new

/-- `w'` continues `w`, and its further changes tell what has become of the states. -/
structure Sweep.Recorded (t : RuleTree) (w w' : Sweep) (more : List Change) : Prop where
  changes_eq : w'.changes = w.changes ++ more
  state_eq : ∀ n, w'.state n = (changedTo? n more).getD (w.state n)
  allowed : ∀ c ∈ more, t.Allows c

/-- Changes that lead, one after the other, from a state to a state. -/
def LeadTo (s : LoggingState) : List Change → LoggingState → Prop
  | [], s' => s = s'
  | c :: rest, s' => c.old = s ∧ c.new ≠ s ∧ LeadTo c.new rest s'

theorem LeadTo.append {s s' s'' : LoggingState} {changes more : List Change}
    (h : LeadTo s changes s') (h' : LeadTo s' more s'') : LeadTo s (changes ++ more) s'' := by
  induction changes generalizing s with
  | nil =>
    obtain rfl : s = s' := h
    exact h'
  | cons c rest ih => exact ⟨h.1, h.2.1, ih h.2.2⟩

/-- The last change tells where they lead. -/
theorem LeadTo.eq_last {s s' : LoggingState} {changes : List Change} (h : LeadTo s changes s') :
    s' = (changes.getLast?.map Change.new).getD s := by
  induction changes generalizing s with
  | nil => exact Eq.symm h
  | cons c rest ih =>
    rw [ih h.2.2, List.getLast?_cons]
    cases rest.getLast? <;> rfl

/-- What is written is recorded, and of each node the record leads from its state to its state. -/
theorem Sweep.Writes.leadTo {t : RuleTree} {w w' : Sweep} (h : Sweep.Writes t w w')
    (hw : w.states.size = t.size) : w'.states.size = t.size ∧
      ∃ more, w'.changes = w.changes ++ more ∧ (∀ c ∈ more, t.Allows c) ∧
        ∀ n, LeadTo (w.state n) (more.filter (·.node = n)) (w'.state n) := by
  induction h with
  | refl => exact ⟨hw, [], by simp, by simp, fun n => rfl⟩
  | @write w' k s _ hs ih =>
    obtain ⟨hsize, more, hchanges, hallowed, hlead⟩ := ih
    refine ⟨(write_size t w' k s).trans hsize, ?_⟩
    by_cases he : w'.state k = s
    · have same : w'.write t k s = w' := if_pos he
      rw [same]
      exact ⟨more, hchanges, hallowed, hlead⟩
    · refine ⟨more ++ [⟨k, t.ruleId? k, w'.state k, s⟩], ?_, fun d hd => ?_, fun n => ?_⟩
      · rw [Sweep.write, if_neg he, hchanges, List.append_assoc]
      · rcases List.mem_append.mp hd with hd | hd
        · exact hallowed d hd
        · rw [List.mem_singleton.mp hd]
          exact ⟨rfl, hs⟩
      · rw [write_state (hsize ▸ hs.lt_size), List.filter_append]
        refine (hlead n).append ?_
        by_cases hn : n = k
        · subst hn
          simp [LeadTo, Ne.symm he]
        · simp [LeadTo, hn, Ne.symm hn]

theorem Sweep.Writes.recorded {t : RuleTree} {w w' : Sweep} (h : Sweep.Writes t w w')
    (hw : w.states.size = t.size) : w'.states.size = t.size ∧ ∃ more, Sweep.Recorded t w w' more := by
  obtain ⟨hsize, more, hchanges, hallowed, hlead⟩ := h.leadTo hw
  exact ⟨hsize, more, hchanges, fun n => (hlead n).eq_last, hallowed⟩

namespace Update

variable {m : RuleModel} {u : Update}

/-- The changes lead from the old states to the new ones. -/
theorem From.state_eq (h : u.From m) (hm : m.Consistent) (n : Nat) :
    u.model.state n = (changedTo? n u.changes).getD (m.state n) := by
  obtain ⟨_, more, hchanges, hstate, _⟩ := h.writes.recorded hm.settled.live.size_eq
  obtain rfl : u.changes = more := by simpa using hchanges
  exact hstate n

theorem From.leadTo (h : u.From m) (hm : m.Consistent) (n : Nat) :
    LeadTo (m.state n) (u.changes.filter (·.node = n)) (u.model.state n) := by
  obtain ⟨_, more, hchanges, -, hlead⟩ := h.writes.leadTo hm.settled.live.size_eq
  obtain rfl : u.changes = more := by simpa using hchanges
  exact hlead n

theorem From.allowed (h : u.From m) (hm : m.Consistent) : ∀ c ∈ u.changes, m.tree.Allows c := by
  obtain ⟨_, more, hchanges, _, hallowed⟩ := h.writes.recorded hm.settled.live.size_eq
  obtain rfl : u.changes = more := by simpa using hchanges
  exact hallowed

/-- A node that an update changes at most once is changed if its state is another one afterwards,
and otherwise not. -/
theorem From.changes_of_once (h : u.From m) (hm : m.Consistent) {n : Nat}
    (once : (u.changes.filter (·.node = n)).length ≤ 1) : u.changes.filter (·.node = n) =
      if u.model.state n = m.state n then []
      else [⟨n, m.tree.ruleId? n, m.state n, u.model.state n⟩] := by
  have hlead := h.leadTo hm n
  have hlisted : ∀ c ∈ u.changes.filter (·.node = n), c.node = n ∧ c.rule = m.tree.ruleId? n := by
    intro c hc
    obtain ⟨hmem, hn⟩ := List.mem_filter.mp hc
    have hn : c.node = n := by simpa using hn
    exact ⟨hn, hn ▸ (h.allowed hm c hmem).rule_eq⟩
  -- The chain of the node's changes has no link, or one; it cannot have two.
  cases hf : u.changes.filter (·.node = n) with
  | nil =>
    rw [hf] at hlead
    exact (if_pos (Eq.symm hlead)).symm
  | cons c rest =>
    rw [hf] at hlead hlisted once
    obtain ⟨hold, hne, hrest⟩ := hlead
    obtain ⟨hnode, hrule⟩ := hlisted c List.mem_cons_self
    cases rest with
    | nil =>
      have hnew : c.new = u.model.state n := hrest
      rw [if_neg (hnew ▸ hne), ← hnew, ← hold, ← hrule]
      exact congrArg (fun k => [(⟨k, c.rule, c.old, c.new⟩ : Change)]) hnode
    | cons d rest => simp at once

end Update

theorem RuleTree.Sound.ruleId?_inj {t : RuleTree} (h : t.Sound) {id : RuleId} {n k : Nat}
    (hn : t.ruleId? n = some id) (hk : t.ruleId? k = some id) : n = k := by
  have hn := (h.mem_rules_iff id n).mpr hn
  have hk := (h.mem_rules_iff id k).mpr hk
  have hpair := List.inj_on_of_nodup_map h.rules_nodup hn hk rfl
  exact congrArg Prod.snd hpair

end RuleScope
