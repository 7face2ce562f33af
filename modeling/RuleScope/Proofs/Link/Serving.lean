import Mathlib.Data.Finset.Card
import RuleScope.Proofs.Link.MirrorRuns

namespace RuleScope

/-- A runtime, the pushed states that were handed out, and the lines that it has sent. -/
structure Service where
  endpoint : Endpoint
  told : List Wire.StateMessage
  sent : List String

namespace Service

inductive Event where
  | accept
  | line (text : String)
  /-- The debugger has closed the connection, or the stream has broken off. -/
  | ended
  | evaluated (id : RuleId) (results : List Bool)
  /-- An evaluation is reported whatever the state of its rule. -/
  | log (id : RuleId) (results : List Bool)
  | send
  /-- The pushed states are asked for. -/
  | take

def start (addr : Address) : Service := ⟨.new addr, [], []⟩

/-- One event, if it can happen. Lines come over a connection only. -/
def step? (s : Service) : Event → Option Service
  | .accept => s.endpoint.accept?.map fun endpoint => { s with endpoint }
  | .line text =>
    if s.endpoint.connected then some { s with endpoint := s.endpoint.read text } else none
  | .ended =>
    if s.endpoint.connected then some { s with endpoint := s.endpoint.release } else none
  | .evaluated id results => some { s with endpoint := s.endpoint.evaluated id results }
  | .log id results => some { s with endpoint := s.endpoint.log id results }
  | .send =>
    some { s with endpoint := s.endpoint.flush.1, sent := s.sent ++ s.endpoint.flush.2 }
  | .take =>
    some { s with
      endpoint := s.endpoint.takeReceived.1
      told := s.told ++ s.endpoint.takeReceived.2 }

def run? (s : Service) (events : List Event) : Option Service := events.foldlM step? s

/-- What an event pushes. -/
def Event.pushed? : Event → Option Wire.StateMessage
  | .line text => Mirror.pushed? text
  | _ => none

/-- A log of pushed states is what the table and the received states are made of. -/
structure Records (s : Service) (log : List Wire.StateMessage) : Prop where
  value : ∀ id, Table.get? id s.endpoint.table =
    latest? Wire.StateMessage.rule Wire.StateMessage.state id log
  nodup : (s.endpoint.table.map Prod.fst).Nodup
  received : s.told ++ s.endpoint.received = log

variable {s s' : Service} {log : List Wire.StateMessage}

theorem start_records (addr : Address) : (start addr).Records [] where
  value _ := rfl
  nodup := List.nodup_nil
  received := rfl

/-- Only the table and the received states matter. -/
theorem Records.congr (h : s.Records log) (htable : s'.endpoint.table = s.endpoint.table)
    (hreceived : s'.told ++ s'.endpoint.received = s.told ++ s.endpoint.received) :
    s'.Records log :=
  ⟨fun id => htable ▸ h.value id, htable ▸ h.nodup, hreceived.trans h.received⟩

theorem Records.push (h : s.Records log) {text : String} {m : Wire.StateMessage}
    (hm : Mirror.pushed? text = some m) :
    ({ s with endpoint := s.endpoint.read text } : Service).Records (log ++ [m]) := by
  rw [Mirror.read_of_pushed hm]
  refine ⟨fun id => ?_, Table.nodup_put h.nodup _, ?_⟩
  · rw [latest?_append, latest?_singleton, ← h.value id]
    by_cases hid : m.rule = id
    · subst hid
      rw [if_pos rfl, Table.get?_put_self, Option.some_or]
    · rw [if_neg hid, Table.get?_put_of_ne (Ne.symm hid), Option.none_or]
  · rw [← List.append_assoc, h.received]

theorem Records.step (h : s.Records log) {e : Event} (hs : s.step? e = some s') :
    s'.Records (log ++ e.pushed?.toList) := by
  have same (hpushed : e.pushed? = none) (hrecords : s'.Records log) :
      s'.Records (log ++ e.pushed?.toList) := by
    rwa [hpushed, Option.toList_none, List.append_nil]
  cases e with
  | line text =>
    simp only [step?, Option.ite_none_right_eq_some, Option.some.injEq] at hs
    obtain ⟨-, rfl⟩ := hs
    cases hp : Mirror.pushed? text with
    | some m =>
      have hpush := h.push hp
      rwa [Event.pushed?, hp]
    | none =>
      refine same hp ?_
      rwa [Mirror.read_of_not_pushed hp]
  | accept =>
    refine same rfl ?_
    obtain ⟨endpoint, haccept, rfl⟩ := Option.map_eq_some_iff.mp hs
    unfold Endpoint.accept? at haccept
    split at haccept
    next => cases haccept
    next =>
      cases haccept
      exact h.congr rfl rfl
  | ended =>
    refine same rfl ?_
    simp only [step?, Option.ite_none_right_eq_some, Option.some.injEq] at hs
    obtain ⟨-, rfl⟩ := hs
    exact h.congr rfl rfl
  | evaluated id results =>
    refine same rfl ?_
    cases hs
    unfold Endpoint.evaluated
    split <;> exact h.congr rfl rfl
  | log id results =>
    refine same rfl ?_
    cases hs
    exact h.congr rfl rfl
  | send =>
    refine same rfl ?_
    cases hs
    unfold Endpoint.flush
    split <;> exact h.congr rfl rfl
  | take =>
    refine same rfl ?_
    cases hs
    exact h.congr rfl (List.append_nil _)

theorem Records.run (h : s.Records log) {events : List Event} (hs : s.run? events = some s') :
    s'.Records (log ++ events.filterMap Event.pushed?) := by
  induction events generalizing s log with
  | nil =>
    cases hs
    rwa [List.filterMap_nil, List.append_nil]
  | cons e rest ih =>
    obtain ⟨s₁, hstep, hrest⟩ := Option.bind_eq_some_iff.mp hs
    have hrun := ih (h.step hstep) hrest
    rw [List.append_assoc] at hrun
    have hpushed : e.pushed?.toList ++ rest.filterMap Event.pushed? =
        (e :: rest).filterMap Event.pushed? := by
      rw [List.filterMap_cons]
      cases e.pushed? <;> rfl
    rwa [hpushed] at hrun

theorem Records.state_eq (h : s.Records log) (id : RuleId) : s.endpoint.state id =
    (latest? Wire.StateMessage.rule Wire.StateMessage.state id log).getD .never := by
  rw [Endpoint.state, h.value id]

/-- The known rules are those that a state was pushed for, however often. -/
theorem Records.knownRules_eq (h : s.Records log) :
    s.endpoint.knownRules = (log.map Wire.StateMessage.rule).toFinset.card := by
  have hkeys : (s.endpoint.table.map Prod.fst).toFinset =
      (log.map Wire.StateMessage.rule).toFinset := by
    ext id
    have hmissing : id ∉ s.endpoint.table.map Prod.fst ↔ ∀ m ∈ log, m.rule ≠ id := by
      rw [← Table.get?_eq_none_iff, h.value id, latest?_eq_none_iff]
    rw [List.mem_toFinset, List.mem_toFinset, ← not_iff_not, hmissing]
    simp
  rw [← hkeys, List.toFinset_card_of_nodup h.nodup, List.length_map]
  rfl

end Service

end RuleScope
