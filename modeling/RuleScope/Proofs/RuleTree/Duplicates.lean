import RuleScope.Proofs.RuleTree.Traversal

namespace RuleScope

open RuleTree

def LocationKind.ruleId? : LocationKind → Option RuleId
  | .imported _ _ => none
  | .rule id _ _ => some id

namespace Location

mutual
/-- The ids of all rules, in pre-order. -/
def ruleIds : Location → List RuleId
  | ⟨_, _, kind, children⟩ => kind.ruleId?.toList ++ ruleIdsAll children

def ruleIdsAll : List Location → List RuleId
  | [] => []
  | l :: rest => l.ruleIds ++ ruleIdsAll rest
end

/-- An id that has come before in the row, and is the first of this sort. -/
def FirstRepeat (ids : List RuleId) (id : RuleId) : Prop :=
  ∃ front rest, ids = front ++ id :: rest ∧ front.Nodup ∧ id ∈ front

/-- The first id that is known or has come before. -/
def repeated? (known : List RuleId) : List RuleId → Option RuleId
  | [] => none
  | id :: rest => if id ∈ known then some id else repeated? (known ++ [id]) rest

variable {known ids : List RuleId} {id : RuleId}

theorem repeated?_append (ids more : List RuleId) :
    repeated? known (ids ++ more) = (repeated? known ids).or (repeated? (known ++ ids) more) := by
  induction ids generalizing known with
  | nil => simp [repeated?]
  | cons id rest ih =>
    rw [List.cons_append, repeated?, repeated?]
    split
    next => rfl
    next => rw [ih, List.append_assoc, List.singleton_append]

theorem repeated?_eq_none_iff :
    repeated? known ids = none ↔ ids.Nodup ∧ ∀ id ∈ ids, id ∉ known := by
  induction ids generalizing known with
  | nil => simp [repeated?]
  | cons id rest ih =>
    rw [repeated?]
    by_cases h : id ∈ known
    · simp [h]
    · rw [if_neg h, ih, List.nodup_cons, List.forall_mem_cons]
      constructor
      · rintro ⟨hrest, hnew⟩
        have hid : id ∉ rest := fun hmem => hnew id hmem (List.mem_append_right _ (by simp))
        exact ⟨⟨hid, hrest⟩, h, fun i hi hk => hnew i hi (List.mem_append_left _ hk)⟩
      · rintro ⟨⟨hid, hrest⟩, -, hnew⟩
        refine ⟨hrest, fun i hi hk => ?_⟩
        rcases List.mem_append.mp hk with hk | hk
        · exact hnew i hi hk
        · rw [List.mem_singleton.mp hk] at hi
          exact hid hi

theorem repeated?_eq_some_iff_append (hknown : known.Nodup) :
    repeated? known ids = some id ↔ ∃ front rest,
      ids = front ++ id :: rest ∧ (known ++ front).Nodup ∧ id ∈ known ++ front := by
  induction ids generalizing known with
  | nil => simp [repeated?]
  | cons i ids ih =>
    rw [repeated?]
    by_cases h : i ∈ known
    · rw [if_pos h]
      constructor
      · intro hi
        obtain rfl := Option.some.inj hi
        exact ⟨[], ids, rfl, by simpa using hknown, by simpa using h⟩
      · rintro ⟨front, rest, hids, hnodup, -⟩
        cases front with
        | nil => rw [(List.cons.inj hids).1]
        | cons j front =>
          obtain rfl := (List.cons.inj hids).1
          obtain ⟨-, -, hdisjoint⟩ := List.nodup_append.mp hnodup
          exact absurd rfl (hdisjoint i h i List.mem_cons_self)
    · have hlonger : (known ++ [i]).Nodup := by
        refine List.nodup_append.mpr ⟨hknown, by simp, fun a ha b hb => ?_⟩
        rintro rfl
        exact h (List.mem_singleton.mp hb ▸ ha)
      rw [if_neg h, ih hlonger]
      constructor
      · rintro ⟨front, rest, hids, hnodup, hmem⟩
        rw [List.append_assoc, List.singleton_append] at hnodup hmem
        exact ⟨i :: front, rest, by rw [hids]; rfl, hnodup, hmem⟩
      · rintro ⟨front, rest, hids, hnodup, hmem⟩
        cases front with
        | nil =>
          rw [List.append_nil, ← (List.cons.inj hids).1] at hmem
          exact absurd hmem h
        | cons j front =>
          obtain ⟨rfl, hrest⟩ := List.cons.inj hids
          rw [List.append_cons] at hnodup hmem
          exact ⟨front, rest, hrest, hnodup, hmem⟩

theorem repeated?_eq_some_iff : repeated? [] ids = some id ↔ FirstRepeat ids id :=
  repeated?_eq_some_iff_append List.nodup_nil

theorem exists_firstRepeat_iff : (∃ id, FirstRepeat ids id) ↔ ¬ ids.Nodup := by
  have hnone : repeated? [] ids = none ↔ ids.Nodup := by simp [repeated?_eq_none_iff]
  rw [← hnone]
  simp only [← repeated?_eq_some_iff]
  cases repeated? [] ids <;> simp

end Location

namespace RuleTree

def ruleIds (t : RuleTree) : List RuleId := t.rules.map Prod.fst

/-- Rule ids are entered up to the first that is known, and all of them if there is none. -/
def Enters {α : Type} (tree : α → RuleTree) (known ids : List RuleId) (r : Except BuildFault α) :
    Prop :=
  match Location.repeated? known ids with
  | some id => r = .error (.duplicateRuleId id)
  | none => ∃ a, r = .ok a ∧ (tree a).ruleIds = known ++ ids

section

variable {α β : Type} {tree : α → RuleTree} {tree' : β → RuleTree} {known ids more : List RuleId}
  {r : Except BuildFault α} {f : α → Except BuildFault β}

theorem Enters.bind (h : Enters tree known ids r)
    (hf : ∀ a, (tree a).ruleIds = known ++ ids → Enters tree' (known ++ ids) more (f a)) :
    Enters tree' known (ids ++ more) (r >>= f) := by
  unfold Enters at h
  rw [Enters, Location.repeated?_append]
  cases hids : Location.repeated? known ids with
  | some id =>
    rw [hids] at h
    dsimp only at h
    rw [h]
    rfl
  | none =>
    rw [hids] at h
    obtain ⟨a, rfl, ha⟩ := h
    have hrest := hf a ha
    rw [Enters] at hrest
    rw [Option.none_or, ← List.append_assoc]
    exact hrest

theorem Enters.pure {a : α} (h : (tree a).ruleIds = known) : Enters tree known [] (.ok a) :=
  ⟨a, rfl, by rw [h, List.append_nil]⟩

end

variable {resolve : String → AbsPath} {parent : Option Nat}

theorem addNode_enters (t : RuleTree) (label : String) (line : Nat) (kind : LocationKind) :
    Enters id t.ruleIds kind.ruleId?.toList (addNode resolve t parent label line kind) := by
  cases kind with
  | imported path diagnostics =>
    have hkeeps := addDiagnostics_keeps t.size diagnostics { t with
      imports := Table.put (resolve (Path.join t.sourceRoot.text (writtenPath label path))) t.size
        t.imports
      nodes := t.nodes.push ⟨label, line, parent, [], .imported
        (resolve (Path.join t.sourceRoot.text (writtenPath label path))) diagnostics false⟩ }
    refine Enters.pure ?_
    rw [id, ruleIds, hkeeps.2.2, ruleIds]
  | rule id expression baseTerms =>
    cases hid : Table.get? id t.rules with
    | some n =>
      have hmem : id ∈ t.ruleIds := by
        by_contra h
        rw [ruleIds, ← Table.get?_eq_none_iff, hid] at h
        cases h
      have hfirst : Location.repeated? t.ruleIds [id] = some id := by simp [Location.repeated?, hmem]
      rw [Enters, LocationKind.ruleId?, Option.toList_some, hfirst]
      simp [addNode, hid]
    | none =>
      have hmem : id ∉ t.ruleIds := Table.get?_eq_none_iff.mp hid
      have hput := Table.put_of_get?_eq_none hid t.size
      have hfirst : Location.repeated? t.ruleIds [id] = none := by simp [Location.repeated?, hmem]
      rw [Enters, LocationKind.ruleId?, Option.toList_some, hfirst]
      simp [addNode, hid, hput, ruleIds]

theorem complete_ruleIds (t : RuleTree) (parent : Option Nat) (n : Nat) (ids : List Nat) :
    (t.complete parent n ids).ruleIds = t.ruleIds := by
  unfold complete addDependency ruleIds
  cases parent with
  | none => rfl
  | some p =>
    dsimp only
    split <;> rfl

mutual

theorem add_enters (parent : Option Nat) (l : Location) (t : RuleTree) :
    Enters id t.ruleIds l.ruleIds (add resolve parent l t) := by
  obtain ⟨label, line, kind, children⟩ := l
  rw [add, Location.ruleIds]
  refine (addNode_enters t label line kind).bind fun t₁ h₁ => ?_
  have hall := addAll_enters t.size children t₁
  rw [show t₁.ruleIds = _ from h₁] at hall
  rw [← List.append_nil (Location.ruleIdsAll children)]
  refine hall.bind fun r hr => Enters.pure ?_
  exact (complete_ruleIds r.1 parent t.size r.2).trans hr

theorem addAll_enters (n : Nat) (ls : List Location) (t : RuleTree) :
    Enters Prod.fst t.ruleIds (Location.ruleIdsAll ls) (addAll resolve n ls t) := by
  cases ls with
  | nil => exact Enters.pure rfl
  | cons l rest =>
    rw [addAll, Location.ruleIdsAll]
    refine (add_enters (some n) l t).bind fun t₁ h₁ => ?_
    have hrest := addAll_enters n rest t₁
    rw [show t₁.ruleIds = _ from h₁] at hrest
    rw [← List.append_nil (Location.ruleIdsAll rest)]
    exact hrest.bind fun r hr => Enters.pure hr

end

variable {sourceRoot : String} {l : Location}

theorem build_enters (hl : l.isImport = true) :
    Enters id [] l.ruleIds (build resolve sourceRoot l) := by
  rw [build, if_pos hl]
  exact add_enters none l (bare (resolve sourceRoot))

theorem build_eq_error_iff {e : BuildFault} : build resolve sourceRoot l = .error e ↔
    (l.isImport = false ∧ e = .rootNotImport l.label) ∨
      (l.isImport = true ∧ ∃ id, Location.FirstRepeat l.ruleIds id ∧ e = .duplicateRuleId id) := by
  cases hl : l.isImport with
  | false =>
    rw [build, if_neg (by simp [hl])]
    simp [eq_comm]
  | true =>
    have h : Enters id [] l.ruleIds (build resolve sourceRoot l) := build_enters hl
    rw [Enters] at h
    cases hids : Location.repeated? [] l.ruleIds with
    | some id =>
      simp only [hids] at h
      simp [h, ← Location.repeated?_eq_some_iff, hids, eq_comm]
    | none =>
      simp only [hids] at h
      obtain ⟨t, ht, -⟩ := h
      simp [ht, ← Location.repeated?_eq_some_iff, hids]

theorem exists_build_eq_ok_iff :
    (∃ t, build resolve sourceRoot l = .ok t) ↔ l.isImport = true ∧ l.ruleIds.Nodup := by
  have hrepeat : (∃ id, Location.FirstRepeat l.ruleIds id) ↔ ¬ l.ruleIds.Nodup :=
    Location.exists_firstRepeat_iff
  cases h : build resolve sourceRoot l with
  | error e =>
    rcases build_eq_error_iff.mp h with ⟨hl, -⟩ | ⟨hl, id, hid, -⟩
    · simp [hl]
    · simp [hl, hrepeat.mp ⟨id, hid⟩]
  | ok t =>
    have hno : ∀ e, build resolve sourceRoot l ≠ .error e := fun e he => by
      rw [h] at he
      cases he
    have hl : l.isImport = true := by
      by_contra hl
      exact hno _ (build_eq_error_iff.mpr (Or.inl ⟨Bool.eq_false_iff.mpr hl, rfl⟩))
    have hids : l.ruleIds.Nodup := by
      by_contra hids
      obtain ⟨id, hid⟩ := hrepeat.mpr hids
      exact hno _ (build_eq_error_iff.mpr (Or.inr ⟨hl, id, hid, rfl⟩))
    exact ⟨fun _ => ⟨hl, hids⟩, fun _ => ⟨t, rfl⟩⟩

end RuleTree

end RuleScope
