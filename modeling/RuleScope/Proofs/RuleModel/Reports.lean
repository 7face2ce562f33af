import RuleScope.Proofs.LogBatch.Delivery
import RuleScope.Proofs.RuleModel.Determined
import RuleScope.RuleModel.Report

namespace RuleScope

open RuleTree

/-- No evaluation of a rule is followed by a state of that rule. -/
def Wire.Undisturbed (ms : List Wire.Message) : Prop :=
  ms.Pairwise fun x y => ∀ e ∈ x.log?, ∀ s ∈ y.state?, s.rule ≠ e.rule

instance (ms : List Wire.Message) : Decidable (Wire.Undisturbed ms) :=
  inferInstanceAs (Decidable (ms.Pairwise fun x y => ∀ e ∈ x.log?, ∀ s ∈ y.state?, s.rule ≠ e.rule))

namespace RuleModel

/-- Handles batches one after the other. -/
def reportAll (m : RuleModel) : List LogBatch → RuleModel × List Notice × List String
  | [] => (m, [], [])
  | b :: rest =>
    let (m, notices, lines) := m.report b
    let (m, moreNotices, moreLines) := m.reportAll rest
    (m, notices ++ moreNotices, lines ++ moreLines)

/-- Handles reports one by one, each as a batch of its own. -/
def reportEach (m : RuleModel) (ms : List Wire.Message) : RuleModel × List Notice × List String :=
  m.reportAll (ms.map fun x => .ofMessages [x])

/-- The lines shown for one evaluation. -/
def entryLines (m : RuleModel) (e : Wire.LogMessage) : List String :=
  m.logLines ⟨e.rule, [e.results]⟩

section

variable {m : RuleModel}

theorem reportAll_append (m : RuleModel) (bs cs : List LogBatch) :
    m.reportAll (bs ++ cs) =
      (((m.reportAll bs).1.reportAll cs).1,
        (m.reportAll bs).2.1 ++ ((m.reportAll bs).1.reportAll cs).2.1,
        (m.reportAll bs).2.2 ++ ((m.reportAll bs).1.reportAll cs).2.2) := by
  induction bs generalizing m with
  | nil => rfl
  | cons b rest ih =>
    simp only [List.cons_append, reportAll, ih, List.append_assoc]

/-- A group shows what its evaluations show one by one. -/
theorem logLines_eq (m : RuleModel) (g : RuleLogs) :
    m.logLines g = g.entries.flatMap m.entryLines := by
  rw [RuleLogs.entries, List.flatMap_map]
  simp only [entryLines, logLines]
  cases m.tree.rule? g.rule with
  | none => simp
  | some n =>
    dsimp only
    induction g.evaluations with
    | nil => rfl
    | cons results rest ih =>
      have hsplit : results :: rest = [results] ++ rest := rfl
      rw [hsplit, List.filterMap_append, List.map_append, ih, List.flatMap_append,
        List.flatMap_singleton]

theorem report_ofMessages (m : RuleModel) (ms : List Wire.Message) :
    m.report (.ofMessages ms) =
      ((m.acceptStates (ms.filterMap Wire.Message.state?)).1,
        (m.acceptStates (ms.filterMap Wire.Message.state?)).2,
        (ms.filterMap Wire.Message.log?).flatMap
          (m.acceptStates (ms.filterMap Wire.Message.state?)).1.entryLines) := by
  obtain ⟨-, hentries, hstates⟩ := LogBatch.ofMessages_spec ms
  have hlines : ∀ m : RuleModel, (LogBatch.ofMessages ms).logs.flatMap m.logLines =
      (ms.filterMap Wire.Message.log?).flatMap m.entryLines := by
    intro m
    rw [← hentries, LogBatch.entries, List.flatMap_assoc]
    exact List.flatMap_congr fun g _ => logLines_eq m g
  simp only [report, hstates, hlines]

theorem reportEach_log (m : RuleModel) (e : Wire.LogMessage) (rest : List Wire.Message) :
    m.reportEach (.log e :: rest) = ((m.reportEach rest).1, (m.reportEach rest).2.1,
      m.entryLines e ++ (m.reportEach rest).2.2) := by
  have hone : m.report (.ofMessages [.log e]) = (m, [], m.entryLines e) := by
    have hlogs : [Wire.Message.log e].filterMap Wire.Message.log? = [e] := rfl
    have hstates : [Wire.Message.log e].filterMap Wire.Message.state? = [] := rfl
    rw [report_ofMessages, hlogs, hstates, List.flatMap_singleton]
    rfl
  unfold reportEach
  simp only [List.map_cons, reportAll, hone, List.nil_append]

theorem reportEach_state (m : RuleModel) (s : Wire.StateMessage) (rest : List Wire.Message) :
    m.reportEach (.state s :: rest) = (((m.acceptStates [s]).1.reportEach rest).1,
      (m.acceptStates [s]).2 ++ ((m.acceptStates [s]).1.reportEach rest).2.1,
      ((m.acceptStates [s]).1.reportEach rest).2.2) := by
  have hone : m.report (.ofMessages [.state s]) =
      ((m.acceptStates [s]).1, (m.acceptStates [s]).2, []) := by
    rw [report_ofMessages]
    simp [Wire.Message.log?, Wire.Message.state?]
  unfold reportEach
  simp only [List.map_cons, reportAll, hone, List.nil_append]

theorem acceptStates_cons (m : RuleModel) (s : Wire.StateMessage) (rest : List Wire.StateMessage) :
    m.acceptStates (s :: rest) = (((m.acceptStates [s]).1.acceptStates rest).1,
      (m.acceptStates [s]).2 ++ ((m.acceptStates [s]).1.acceptStates rest).2) := by
  simp only [acceptStates]
  split <;> simp

/-- One by one or not, the states are set in the same order. -/
theorem reportEach_states (m : RuleModel) (ms : List Wire.Message) :
    (m.reportEach ms).1 = (m.acceptStates (ms.filterMap Wire.Message.state?)).1 ∧
      (m.reportEach ms).2.1 = (m.acceptStates (ms.filterMap Wire.Message.state?)).2 := by
  induction ms generalizing m with
  | nil => exact ⟨rfl, rfl⟩
  | cons x rest ih =>
    cases x with
    | log e =>
      rw [reportEach_log]
      exact ih m
    | state s =>
      obtain ⟨hmodel, hnotices⟩ := ih (m.acceptStates [s]).1
      have hlist : (Wire.Message.state s :: rest).filterMap Wire.Message.state? =
          s :: rest.filterMap Wire.Message.state? := rfl
      rw [reportEach_state, hlist, acceptStates_cons m s (rest.filterMap _)]
      exact ⟨hmodel, congrArg ((m.acceptStates [s]).2 ++ ·) hnotices⟩

/-- The state that a message sets is that of its rule alone, and a state that cannot be set is
none. -/
theorem setRuleState_state_of_ne (h : m.Consistent) {id other : RuleId} {s : LoggingState}
    {u : Update} (hu : m.setRuleState id s = .ok u) {r : Nat} (hr : m.tree.ruleId? r = some other)
    (hne : other ≠ id) : u.model.state r = m.state r := by
  have sound := h.wellFormed.sound
  obtain ⟨n, hn⟩ : ∃ n, m.tree.ruleId? n = some id := by
    unfold setRuleState at hu
    split at hu
    next n hn => exact ⟨n, (sound.mem_rules_iff id n).mp (Table.mem_of_get? hn)⟩
    next => cases hu
  have hs : s ∈ LoggingState.selectable := by
    refine (LoggingState.isDerived_eq_false_iff s).mp ?_
    by_contra hderived
    have hfail : ∀ n, m.setState n s = .error (.derivedState s) := fun n => by
      simp only [setState, setAllBelow, Bool.not_eq_false] at hderived ⊢
      rw [if_pos hderived]
    unfold setRuleState at hu
    split at hu
    next n _ => cases (hfail n).symm.trans hu
    next => cases hu
  obtain ⟨u', hu', -, hstate⟩ := setRuleState_rule h hn hs
  obtain rfl : u = u' := Except.ok.inj (hu.symm.trans hu')
  have hrn : r ≠ n := by
    rintro rfl
    exact hne (Option.some.inj (hr.symm.trans hn))
  rw [hstate r (isRule_iff_ruleId?.mpr (by simp [hr])), if_neg hrn]

theorem acceptStates_singleton (h : m.Consistent) (s : Wire.StateMessage) :
    (m.acceptStates [s]).1.Consistent ∧ (m.acceptStates [s]).1.tree = m.tree ∧
      ∀ r id, m.tree.ruleId? r = some id → id ≠ s.rule →
        (m.acceptStates [s]).1.state r = m.state r := by
  simp only [acceptStates]
  split
  next u hu =>
    have hfrom := setRuleState_from h hu
    exact ⟨hfrom.consistent, hfrom.tree_eq, fun r id hr hne => setRuleState_state_of_ne h hu hr hne⟩
  next => exact ⟨h, rfl, fun _ _ _ _ => rfl⟩

theorem entryLines_congr {m' : RuleModel} (htree : m'.tree = m.tree) {e : Wire.LogMessage}
    (hstate : ∀ n, m.tree.rule? e.rule = some n → m'.state n = m.state n) :
    m'.entryLines e = m.entryLines e := by
  simp only [entryLines, logLines, htree]
  split
  next => rfl
  next n hn => rw [hstate n hn]

/-- States of other rules change nothing of what an evaluation shows. -/
theorem entryLines_acceptStates (h : m.Consistent) {e : Wire.LogMessage}
    {states : List Wire.StateMessage} (hne : ∀ s ∈ states, s.rule ≠ e.rule) :
    (m.acceptStates states).1.entryLines e = m.entryLines e := by
  induction states generalizing m with
  | nil => rfl
  | cons s rest ih =>
    obtain ⟨hc, htree, hstate⟩ := acceptStates_singleton h s
    have hrest := ih hc fun x hx => hne x (List.mem_cons_of_mem _ hx)
    have hfirst : (m.acceptStates [s]).1.entryLines e = m.entryLines e := by
      refine entryLines_congr htree fun n hn => ?_
      have hid : m.tree.ruleId? n = some e.rule :=
        (h.wellFormed.sound.mem_rules_iff e.rule n).mp (Table.mem_of_get? hn)
      exact hstate n e.rule hid (Ne.symm (hne s List.mem_cons_self))
    rw [acceptStates_cons]
    exact hrest.trans hfirst

/-- Where no evaluation of a rule is followed by a state of it, the reports of a batch show the same
lines one by one. -/
theorem reportEach_lines (h : m.Consistent) {ms : List Wire.Message} (hms : Wire.Undisturbed ms) :
    (m.reportEach ms).2.2 = (m.report (.ofMessages ms)).2.2 := by
  rw [report_ofMessages]
  induction ms generalizing m with
  | nil => rfl
  | cons x rest ih =>
    obtain ⟨hx, hrest⟩ := List.pairwise_cons.mp hms
    cases x with
    | log e =>
      have hlater : ∀ s ∈ rest.filterMap Wire.Message.state?, s.rule ≠ e.rule := by
        intro s hs
        obtain ⟨y, hy, hys⟩ := List.mem_filterMap.mp hs
        exact hx y hy e rfl s hys
      have hlist : (Wire.Message.log e :: rest).filterMap Wire.Message.log? =
          e :: rest.filterMap Wire.Message.log? := rfl
      have hsame : (Wire.Message.log e :: rest).filterMap Wire.Message.state? =
          rest.filterMap Wire.Message.state? := rfl
      rw [reportEach_log, hlist, hsame, List.flatMap_cons, entryLines_acceptStates h hlater]
      exact congrArg (m.entryLines e ++ ·) (ih h hrest)
    | state s =>
      have hc := (acceptStates_singleton h s).1
      have hlist : (Wire.Message.state s :: rest).filterMap Wire.Message.state? =
          s :: rest.filterMap Wire.Message.state? := rfl
      rw [reportEach_state, hlist, acceptStates_cons m s (rest.filterMap _)]
      exact ih hc hrest

theorem reportEach_append (m : RuleModel) (ms more : List Wire.Message) :
    m.reportEach (ms ++ more) = (((m.reportEach ms).1.reportEach more).1,
      (m.reportEach ms).2.1 ++ ((m.reportEach ms).1.reportEach more).2.1,
      (m.reportEach ms).2.2 ++ ((m.reportEach ms).1.reportEach more).2.2) := by
  rw [reportEach, List.map_append, reportAll_append]
  rfl

theorem acceptStates_consistent (h : m.Consistent) (states : List Wire.StateMessage) :
    (m.acceptStates states).1.Consistent := by
  induction states generalizing m with
  | nil => exact h
  | cons s rest ih =>
    rw [acceptStates_cons]
    exact ih (acceptStates_singleton h s).1

/-- Batches, one after the other, do what their reports do one by one. -/
theorem reportAll_eq_reportEach (h : m.Consistent) (cut : List (List Wire.Message)) :
    (m.reportAll (cut.map .ofMessages)).1 = (m.reportEach cut.flatten).1 ∧
      (m.reportAll (cut.map .ofMessages)).2.1 = (m.reportEach cut.flatten).2.1 ∧
      ((∀ ms ∈ cut, Wire.Undisturbed ms) →
        (m.reportAll (cut.map .ofMessages)).2.2 = (m.reportEach cut.flatten).2.2) := by
  induction cut generalizing m with
  | nil => exact ⟨rfl, rfl, fun _ => rfl⟩
  | cons ms rest ih =>
    obtain ⟨hmodel, hnotices⟩ := reportEach_states m ms
    have hc := acceptStates_consistent h (ms.filterMap Wire.Message.state?)
    obtain ⟨ihmodel, ihnotices, ihlines⟩ := ih hc
    have hbatch := report_ofMessages m ms
    rw [List.map_cons, List.flatten_cons, reportEach_append, hmodel, hnotices]
    simp only [reportAll, hbatch]
    refine ⟨ihmodel, congrArg _ ihnotices, fun hall => ?_⟩
    have hlines := reportEach_lines h (hall ms List.mem_cons_self)
    rw [hbatch] at hlines
    rw [hlines, ihlines fun x hx => hall x (List.mem_cons_of_mem _ hx)]

end

/-- However the reports are cut into batches, the model ends the same and its observers are told the
same as when each report is handled by itself; and the same lines are shown in the same order if in
no batch an evaluation of a rule is followed by a state of that rule. -/
theorem build_run_reportAll_eq {resolve : String → AbsPath} {sourceRoot : String} {l : Location}
    {m : RuleModel} (h : build resolve sourceRoot l = .ok m) (actions : List Action)
    (cut : List (List Wire.Message)) :
    ((m.run actions).reportAll (cut.map .ofMessages)).1 =
        ((m.run actions).reportEach cut.flatten).1 ∧
      ((m.run actions).reportAll (cut.map .ofMessages)).2.1 =
        ((m.run actions).reportEach cut.flatten).2.1 ∧
      ((∀ ms ∈ cut, Wire.Undisturbed ms) →
        ((m.run actions).reportAll (cut.map .ofMessages)).2.2 =
          ((m.run actions).reportEach cut.flatten).2.2) := by
  obtain ⟨hc, -⟩ := run_consistent (build_consistent h) actions
  exact reportAll_eq_reportEach hc cut

/-- The inner rule is set, evaluated, and the outer rule set in one batch; then the outer rule is
evaluated twice, and a rule that the model lacks. -/
def nestedReports : List (List Wire.Message) :=
  [[.state ⟨innerId, .always⟩, .log ⟨innerId, [true, false]⟩, .state ⟨outerId, .ifTrue⟩],
    [.log ⟨outerId, [false]⟩, .log ⟨outerId, [true]⟩,
      .log ⟨(RuleId.ofInt? 8).getD default, [true]⟩]]

/-- Somebody observes the root and the inner rule. -/
def nestedObserved : List Action := [.subscribe .listener [0, 4]]

theorem build_nested_reportAll_eq : ∃ m,
    build (AbsPath.lexical AbsPath.root) "/src" nestedLocation = .ok m ∧
    ((m.run nestedObserved).reportAll (nestedReports.map .ofMessages)).1 =
      ((m.run nestedObserved).reportEach nestedReports.flatten).1 ∧
    ((m.run nestedObserved).reportAll (nestedReports.map .ofMessages)).2.1 =
      [⟨⟨0⟩, 4, some innerId, .never, .always⟩, ⟨⟨0⟩, 0, none, .never, .ifTrue⟩] ∧
    ((m.run nestedObserved).reportAll (nestedReports.map .ofMessages)).2.2 =
      ["rules/taxes/rate/bands/low #9: true [f]", "rules/taxes/rate #7: true"] := by
  obtain ⟨m, h⟩ : ∃ m, build (AbsPath.lexical AbsPath.root) "/src" nestedLocation = .ok m :=
    ⟨_, rfl⟩
  obtain ⟨hmodel, hnotices, hlines⟩ := build_run_reportAll_eq h nestedObserved nestedReports
  have facts : (build (AbsPath.lexical AbsPath.root) "/src" nestedLocation).toOption.map
      (fun m => ((m.run nestedObserved).reportEach nestedReports.flatten).2) =
        some ([⟨⟨0⟩, 4, some innerId, .never, .always⟩, ⟨⟨0⟩, 0, none, .never, .ifTrue⟩],
          ["rules/taxes/rate/bands/low #9: true [f]", "rules/taxes/rate #7: true"]) := by
    decide +kernel
  rw [h] at facts
  obtain ⟨hfacts, hshown⟩ := Prod.mk.inj (Option.some.inj facts)
  exact ⟨m, h, hmodel, hnotices.trans hfacts, (hlines (by decide)).trans hshown⟩

end RuleModel

end RuleScope
