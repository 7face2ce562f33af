import RuleScope.Location.Convert
import RuleScope.Proofs.RuleTree.Depth
import RuleScope.Proofs.Yaml.Nesting

namespace RuleScope

open Yaml

namespace Yaml.Value

theorem nesting_of_asMapping? {v : Value} {fields : List (Value × Value)}
    (h : v.asMapping? = some fields) : v.nesting = 1 + nestingFields fields := by
  unfold asMapping? at h
  split at h
  next hv =>
    cases h
    rw [← nesting_untag, hv, nesting]
  next => cases h

theorem nesting_of_asSequence? {v : Value} {items : List Value} (h : v.asSequence? = some items) :
    v.nesting = 1 + nestingItems items := by
  unfold asSequence? at h
  split at h
  next hv =>
    cases h
    rw [← nesting_untag, hv, nesting]
  next => cases h

theorem nesting_lookup {key : String} {fields : List (Value × Value)} {v : Value}
    (h : lookup key fields = some v) : v.nesting ≤ nestingFields fields := by
  induction fields using lookup.induct key with
  | case1 => cases h
  | case2 w rest =>
    rw [lookup, if_pos rfl] at h
    cases h
    rw [nestingFields]
    omega
  | case3 s w rest hne ih =>
    rw [lookup, if_neg hne] at h
    have := ih h
    rw [nestingFields]
    omega
  | case4 f rest hs ih =>
    rw [lookup] at h
    · have hrest := ih h
      have hmax : nestingFields (f :: rest) =
          max (max f.1.nesting f.2.nesting) (nestingFields rest) := rfl
      omega
    · exact hs

/-- A field lies inside the mapping that has it. -/
theorem nesting_get? {v w : Value} {key : String} (h : v.get? key = some w) :
    w.nesting + 1 ≤ v.nesting := by
  obtain ⟨fields, hfields, hlookup⟩ := Option.bind_eq_some_iff.mp h
  have hle := nesting_lookup hlookup
  rw [nesting_of_asMapping? hfields]
  omega

end Yaml.Value

namespace Location

theorem heightAll_le_iff {ls : List Location} {n : Nat} :
    heightAll ls ≤ n ↔ ∀ l ∈ ls, l.height ≤ n := by
  induction ls with
  | nil => simp [heightAll]
  | cons l rest ih =>
    rw [heightAll, List.forall_mem_cons, ← ih]
    omega

theorem height_eq (l : Location) : l.height = 1 + heightAll l.children := by
  cases l
  rw [height]

theorem nesting_childItems {v item : Value} {line : Nat} (h : item ∈ (childItems v line).1) :
    item.nesting + 2 ≤ v.nesting := by
  unfold childItems at h
  split at h
  next => cases h
  next children hget =>
    split at h
    next items hitems =>
      have hinside := Value.nesting_get? hget
      have hseq := Value.nesting_of_asSequence? hitems
      have hitem : item.nesting ≤ Value.nestingItems items :=
        Value.nestingItems_le_iff.mp (Nat.le_refl _) item h
      omega
    next => cases h

theorem nesting_nestedItems {v item : Value} (h : item ∈ nestedItems v) :
    item.nesting + 2 ≤ v.nesting := by
  unfold nestedItems at h
  split at h
  next items hget =>
    have hinside := Value.nesting_get? hget
    have hitem := Value.nestingItems_le_iff.mp (Nat.le_refl _) item h
    rw [Value.nesting] at hinside
    omega
  next => cases h

/-- A sequence of steps that succeeds has succeeded in its first step. -/
theorem exists_of_bind_eq_ok {ε α β : Type} {x : Except ε α} {f : α → Except ε β} {b : β}
    (h : (x >>= f) = .ok b) : ∃ a, x = .ok a ∧ f a = .ok b := by
  cases x with
  | ok a => exact ⟨a, rfl, h⟩
  | error e => cases h

theorem mem_of_mapM_eq_ok {ε α β : Type} {f : α → Except ε β} {as : List α} {bs : List β}
    (h : as.mapM f = .ok bs) {b : β} (hb : b ∈ bs) : ∃ a ∈ as, f a = .ok b := by
  induction as generalizing bs with
  | nil =>
    cases h
    cases hb
  | cons a rest ih =>
    rw [List.mapM_cons] at h
    obtain ⟨b', hb', h⟩ := exists_of_bind_eq_ok h
    obtain ⟨bs', hbs', h⟩ := exists_of_bind_eq_ok h
    cases h
    rcases List.mem_cons.mp hb with rfl | hb
    · exact ⟨a, List.mem_cons_self, hb'⟩
    · obtain ⟨a', ha', hf⟩ := ih hbs' hb
      exact ⟨a', List.mem_cons_of_mem _ ha', hf⟩

theorem exists_of_mapM_eq_ok {ε α β : Type} {f : α → Except ε β} {as : List α} {bs : List β}
    (h : as.mapM f = .ok bs) {a : α} (ha : a ∈ as) : ∃ b ∈ bs, f a = .ok b := by
  induction as generalizing bs with
  | nil => cases ha
  | cons first rest ih =>
    rw [List.mapM_cons] at h
    obtain ⟨b, hb, h⟩ := exists_of_bind_eq_ok h
    obtain ⟨bs', hbs, h⟩ := exists_of_bind_eq_ok h
    cases h
    rcases List.mem_cons.mp ha with rfl | ha
    · exact ⟨b, List.mem_cons_self, hb⟩
    · obtain ⟨c, hc, hf⟩ := ih hbs ha
      exact ⟨c, List.mem_cons_of_mem _ hc, hf⟩

theorem mem_gather {line : Nat} {items : List (Value × Except EntryFault Location)} {c : Location}
    (h : c ∈ (gather line items).1) : ∃ item, (item, .ok c) ∈ items := by
  induction items with
  | nil => cases h
  | cons x rest ih =>
    obtain ⟨v, r⟩ := x
    cases r with
    | ok l =>
      rcases List.mem_cons.mp h with rfl | h
      · exact ⟨v, List.mem_cons_self⟩
      · obtain ⟨item, hitem⟩ := ih h
        exact ⟨item, List.mem_cons_of_mem _ hitem⟩
    | error e =>
      obtain ⟨item, hitem⟩ := ih h
      exact ⟨item, List.mem_cons_of_mem _ hitem⟩

/-- The children of a converted entry come from values two containers further in. -/
theorem convertWith_spec {below : Value → Except EntryFault Location} {v : Value} {l : Location}
    (h : convertWith below v = .ok l) : 1 ≤ v.nesting ∧
      ∀ c ∈ l.children, ∃ item, item.nesting + 2 ≤ v.nesting ∧ below item = .ok c := by
  unfold convertWith at h
  split at h
  · cases h
  next hmapping =>
    have hpos : 1 ≤ v.nesting := by
      cases hfields : v.asMapping? with
      | none => simp [hfields] at hmapping
      | some fields =>
        rw [Value.nesting_of_asMapping? hfields]
        omega
    refine ⟨hpos, ?_⟩
    obtain ⟨label, _, h⟩ := exists_of_bind_eq_ok h
    obtain ⟨line, _, h⟩ := exists_of_bind_eq_ok h
    obtain ⟨imported, _, h⟩ := exists_of_bind_eq_ok h
    split at h
    · obtain ⟨path, _, h⟩ := exists_of_bind_eq_ok h
      cases h
      intro c hc
      obtain ⟨item, hitem⟩ := mem_gather hc
      obtain ⟨item', hmem, hpair⟩ := List.mem_map.mp hitem
      obtain ⟨rfl, hbelow⟩ := Prod.mk.inj hpair
      exact ⟨item', nesting_childItems hmem, hbelow⟩
    · obtain ⟨id, _, h⟩ := exists_of_bind_eq_ok h
      obtain ⟨terms, _, h⟩ := exists_of_bind_eq_ok h
      obtain ⟨children, hchildren, h⟩ := exists_of_bind_eq_ok h
      cases h
      intro c hc
      obtain ⟨item, hmem, hnested⟩ := mem_of_mapM_eq_ok hchildren hc
      refine ⟨item, nesting_nestedItems hmem, ?_⟩
      unfold nested at hnested
      split at hnested
      next below_eq =>
        split at hnested
        · cases hnested
        · cases hnested
          exact below_eq
      next => cases hnested

theorem convertWithin_height {levels : Nat} {v : Value} {l : Location}
    (h : convertWithin levels v = .ok l) : 2 * l.height ≤ v.nesting + 1 := by
  induction levels generalizing v l with
  | zero => cases h
  | succ levels ih =>
    obtain ⟨hpos, hchildren⟩ := convertWith_spec h
    have hall : heightAll l.children ≤ (v.nesting - 1) / 2 := by
      apply heightAll_le_iff.mpr
      intro c hc
      obtain ⟨item, hinside, hitem⟩ := hchildren c hc
      have := ih hitem
      omega
    rw [height_eq]
    omega

/-- A location tree that is read from a text is at most 64 high. -/
theorem height_le_of_ofText {text : String} {l : Location} (h : ofText text = .ok l) :
    l.height ≤ 64 := by
  unfold ofText at h
  split at h
  next => cases h
  next v hv =>
    unfold ofValue at h
    split at h
    next => cases h
    next =>
      split at h
      next l' hl =>
        cases h
        have hnesting := nesting_le_of_ofText? hv
        have hheight := convertWithin_height hl
        have hlimit : Event.depthLimit = 128 := rfl
        omega
      next => cases h

end Location

end RuleScope
