import RuleScope.Yaml.Load

namespace RuleScope.Yaml

namespace Value

mutual
/-- The number of containers on the longest way into a value. -/
def nesting : Value → Nat
  | sequence items => 1 + nestingItems items
  | mapping fields => 1 + nestingFields fields
  | tagged _ v => v.nesting
  | _ => 0

def nestingItems : List Value → Nat
  | [] => 0
  | v :: rest => max v.nesting (nestingItems rest)

def nestingFields : List (Value × Value) → Nat
  | [] => 0
  | (k, v) :: rest => max (max k.nesting v.nesting) (nestingFields rest)
end

theorem nestingItems_le_iff {items : List Value} {n : Nat} :
    nestingItems items ≤ n ↔ ∀ v ∈ items, v.nesting ≤ n := by
  induction items with
  | nil => simp [nestingItems]
  | cons v rest ih =>
    rw [nestingItems, List.forall_mem_cons, ← ih]
    omega

theorem nestingFields_le_iff {fields : List (Value × Value)} {n : Nat} :
    nestingFields fields ≤ n ↔ ∀ f ∈ fields, f.1.nesting ≤ n ∧ f.2.nesting ≤ n := by
  induction fields with
  | nil => simp [nestingFields]
  | cons f rest ih =>
    have hmax : nestingFields (f :: rest) = max (max f.1.nesting f.2.nesting) (nestingFields rest) := rfl
    rw [hmax, List.forall_mem_cons, ← ih]
    omega

theorem nesting_untag (v : Value) : v.untag.nesting = v.nesting := by
  induction v using untag.induct with
  | case1 tag v ih => rw [untag, nesting, ih]
  | case2 v h =>
    rw [untag]
    exact h

end Value

theorem nullOf?_nesting {s : String} {v : Value} (h : nullOf? s = some v) : v.nesting = 0 := by
  unfold nullOf? at h
  split at h <;> cases h
  rfl

theorem booleanOf?_nesting {s : String} {v : Value} (h : booleanOf? s = some v) :
    v.nesting = 0 := by
  unfold booleanOf? at h
  split at h
  · cases h
    rfl
  · split at h <;> cases h
    rfl

theorem resolvePlain_nesting {s : String} {v : Value} (h : resolvePlain s = some v) :
    v.nesting = 0 := by
  unfold resolvePlain at h
  split at h
  · cases h
    rfl
  split at h
  next hnull =>
    cases h
    exact nullOf?_nesting hnull
  next hboolean =>
    cases h
    exact booleanOf?_nesting hboolean
  next =>
    cases h
    rfl
  next => cases h
  next =>
    split at h
    · cases h
      rfl
    · split at h <;> cases h <;> rfl

theorem resolveTagged_nesting {tag : Tag} {s : String} {v : Value}
    (h : resolveTagged tag s = some v) : v.nesting = 0 := by
  unfold resolveTagged at h
  split at h
  · exact booleanOf?_nesting h
  split at h
  · split at h <;> cases h
    rfl
  split at h
  · obtain ⟨n, _, rfl⟩ := Option.map_eq_some_iff.mp h
    rfl
  split at h
  · exact nullOf?_nesting h
  · cases h
    rfl

namespace Event

theorem nesting_withTag (tag : Option Tag) (v : Value) : (withTag tag v).nesting = v.nesting := by
  unfold withTag
  split <;> rfl

theorem scalarValue_nesting {tag : Option Tag} {text : String} {plain : Bool} {v : Value}
    (h : scalarValue tag text plain = some v) : v.nesting = 0 := by
  have huntagged : ∀ w, (if plain then resolvePlain text else some (.string text)) = some w →
      w.nesting = 0 := by
    intro w hw
    split at hw
    · exact resolvePlain_nesting hw
    · cases hw
      rfl
  cases tag with
  | none => exact huntagged v h
  | some tag =>
    have hcases : (if tag.isLocal then
        (if plain then resolvePlain text else some (.string text)).map (withTag (some tag))
      else resolveTagged tag text) = some v := h
    by_cases hlocal : tag.isLocal
    · rw [if_pos hlocal] at hcases
      obtain ⟨w, hw, rfl⟩ := Option.map_eq_some_iff.mp hcases
      rw [nesting_withTag]
      exact huntagged w hw
    · rw [if_neg hlocal] at hcases
      exact resolveTagged_nesting hcases

/-- Every value that is loaded satisfies `p`, however many aliases have been followed. -/
def Loads {α : Type} (r : Loader α) (p : α → Prop) : Prop := ∀ j a j', r j = some (a, j') → p a

namespace Loads

variable {α β : Type} {p : α → Prop} {q : β → Prop} {r : Loader α}

theorem pure {a : α} (h : p a) : Loads (Pure.pure a) p := by
  intro j b j' he
  cases he
  exact h

theorem failure : Loads (α := α) failure p := fun _ _ _ he => by cases he

theorem failure_bind {f : α → Loader β} : Loads (Alternative.failure >>= f) q :=
  fun _ _ _ he => by cases he

theorem bind {f : α → Loader β} (h : Loads r p) (h' : ∀ a, p a → Loads (f a) q) :
    Loads (r >>= f) q := by
  intro j b j' he
  obtain ⟨⟨a, j₁⟩, ha, hb⟩ := Option.bind_eq_some_iff.mp he
  exact h' a (h j a j₁ ha) j₁ b j' hb

/-- Nothing need be known of the first value. -/
theorem after {f : α → Loader β} (h : ∀ a, Loads (f a) q) : Loads (r >>= f) q :=
  bind (p := fun _ => True) (fun _ _ _ _ => trivial) fun a _ => h a

end Loads

section

variable {node : Nat → Loader (Value × Nat)} {n : Nat}

theorem loads_itemsLoop (h : ∀ place, Loads (node place) fun r => r.1.nesting ≤ n)
    (nodes : Array Node) (fuel place : Nat) {seen : List Value} (hs : ∀ v ∈ seen, v.nesting ≤ n) :
    Loads (itemsLoop node nodes fuel place seen) fun r => Value.nestingItems r.1 ≤ n := by
  induction fuel generalizing place seen with
  | zero => exact Loads.failure
  | succ fuel ih =>
    unfold itemsLoop
    split
    · apply Loads.pure
      apply Value.nestingItems_le_iff.mpr
      intro v hv
      exact hs v (List.mem_reverse.mp hv)
    · refine (h place).bind fun r hr => ih r.2 ?_
      exact List.forall_mem_cons.mpr ⟨hr, hs⟩

theorem loads_fieldsLoop (h : ∀ place, Loads (node place) fun r => r.1.nesting ≤ n)
    (nodes : Array Node) (fuel place : Nat) {seen : List (Value × Value)}
    (hs : ∀ f ∈ seen, f.1.nesting ≤ n ∧ f.2.nesting ≤ n) :
    Loads (fieldsLoop node nodes fuel place seen) fun r => Value.nestingFields r.1 ≤ n := by
  induction fuel generalizing place seen with
  | zero => exact Loads.failure
  | succ fuel ih =>
    unfold fieldsLoop
    split
    · apply Loads.pure
      apply Value.nestingFields_le_iff.mpr
      intro f hf
      exact hs f (List.mem_reverse.mp hf)
    · refine (h place).bind fun k hk => ?_
      obtain ⟨k, next⟩ := k
      dsimp only
      split
      · exact Loads.failure_bind
      · refine (h next).bind fun v hv => ih v.2 ?_
        exact List.forall_mem_cons.mpr ⟨⟨hk, hv⟩, hs⟩

end

section

variable (doc : Document) {levels : Nat}

theorem loads_eventValue_none (place : Nat) :
    Loads (eventValue doc none place) fun r => r.1.nesting ≤ 0 := by
  unfold eventValue
  split
  next tag text plain _ =>
    cases hv : scalarValue tag text plain with
    | some v => exact Loads.pure (Nat.le_of_eq (scalarValue_nesting hv))
    | none => exact Loads.failure
  next hnode => cases hnode
  next hnode => cases hnode
  next => exact Loads.failure

theorem loads_eventValue {node : Nat → Loader (Value × Nat)}
    (h : ∀ place, Loads (node place) fun r => r.1.nesting ≤ levels) (place : Nat) :
    Loads (eventValue doc (some node) place) fun r => r.1.nesting ≤ levels + 1 := by
  unfold eventValue
  split
  next tag text plain _ =>
    cases hv : scalarValue tag text plain with
    | some v =>
      apply Loads.pure
      show v.nesting ≤ levels + 1
      rw [scalarValue_nesting hv]
      exact Nat.zero_le _
    | none => exact Loads.failure
  next hnode =>
    cases hnode
    have hnone : ∀ v ∈ ([] : List Value), v.nesting ≤ levels := by simp
    refine (loads_itemsLoop h _ _ _ hnone).bind fun r hr => Loads.pure ?_
    rw [nesting_withTag, Value.nesting]
    omega
  next hnode =>
    cases hnode
    have hnone : ∀ f ∈ ([] : List (Value × Value)), f.1.nesting ≤ levels ∧ f.2.nesting ≤ levels := by
      simp
    refine (loads_fieldsLoop h _ _ _ hnone).bind fun r hr => Loads.pure ?_
    rw [nesting_withTag, Value.nesting]
    omega
  next => exact Loads.failure

theorem loads_nodeValue {node : Option (Nat → Loader (Value × Nat))}
    (h : ∀ place, Loads (eventValue doc node place) fun r => r.1.nesting ≤ levels) (place : Nat) :
    Loads (nodeValue doc node place) fun r => r.1.nesting ≤ levels := by
  unfold nodeValue
  split
  next =>
    refine Loads.after fun _ => ?_
    dsimp only
    split
    · exact Loads.failure_bind
    · refine Loads.after fun _ => ?_
      split
      · exact (h _).bind fun r hr => Loads.pure hr
      · exact Loads.failure
  next => exact h place

/-- With room for so many containers, a value nests no deeper. -/
theorem loads_valueAt (levels place : Nat) :
    Loads (valueAt doc levels place) fun r => r.1.nesting ≤ levels := by
  induction levels generalizing place with
  | zero => exact loads_nodeValue doc (loads_eventValue_none doc) place
  | succ levels ih => exact loads_nodeValue doc (loads_eventValue doc ih) place

end

theorem nesting_le_of_toValue? {events : List Event} {v : Value} (h : toValue? events = some v) :
    v.nesting ≤ depthLimit := by
  unfold toValue? at h
  obtain ⟨⟨nodes, anchors, rest⟩, _, h⟩ := Option.bind_eq_some_iff.mp h
  dsimp only at h
  split at h
  · cases h
    exact Nat.zero_le _
  split at h
  · cases h
  obtain ⟨⟨⟨w, next⟩, j⟩, hload, h⟩ := Option.bind_eq_some_iff.mp h
  cases h
  exact loads_valueAt _ depthLimit 0 0 (w, next) j hload

end Event

/-- The value of a text nests no deeper than the loader goes. -/
theorem nesting_le_of_ofText? {text : String} {v : Value} (h : Value.ofText? text = some v) :
    v.nesting ≤ Event.depthLimit := by
  obtain ⟨tokens, _, h⟩ := Option.bind_eq_some_iff.mp h
  obtain ⟨events, _, h⟩ := Option.bind_eq_some_iff.mp h
  exact Event.nesting_le_of_toValue? h

end RuleScope.Yaml
