import Mathlib.Data.List.Induction
import RuleScope.Sources.Watch

namespace RuleScope

namespace SourceChange

theorem same_refl (a : SourceChange) : a.same a = true := by
  cases a <;> simp [same]

theorem same_symm {a b : SourceChange} (h : a.same b = true) : b.same a = true := by
  cases a <;> cases b <;> simp_all [same]

theorem same_trans {a b c : SourceChange} (h : a.same b = true) (h' : b.same c = true) :
    a.same c = true := by
  cases a <;> cases b <;> cases c <;> simp_all [same]

end SourceChange

namespace SourceBatch

theorem push_changes (b : SourceBatch) (c : SourceChange) :
    (b.push c).changes = if b.changes.any (·.same c) then b.changes else b.changes ++ [c] := by
  unfold push
  split <;> rfl

theorem foldl_push (b : SourceBatch) (cs : List SourceChange) :
    ∃ more, (cs.foldl push b).changes = b.changes ++ more ∧ more ⊆ cs := by
  induction cs generalizing b with
  | nil => exact ⟨[], by simp, List.Subset.refl _⟩
  | cons c rest ih =>
    obtain ⟨more, hmore, hsub⟩ := ih (b.push c)
    rw [push_changes] at hmore
    split at hmore
    next => exact ⟨more, hmore, fun x hx => List.mem_cons_of_mem _ (hsub hx)⟩
    next =>
      refine ⟨c :: more, by simpa using hmore, fun x hx => ?_⟩
      rcases List.mem_cons.mp hx with rfl | hx
      · exact List.mem_cons_self
      · exact List.mem_cons_of_mem _ (hsub hx)

theorem ofChanges_subset (cs : List SourceChange) : (ofChanges cs).changes ⊆ cs := by
  obtain ⟨more, hmore, hsub⟩ := foldl_push ⟨[]⟩ cs
  rw [ofChanges, hmore]
  exact hsub

/-- The first of some changes that are the same is kept, and after it nothing but what came after. -/
theorem ofChanges_first {pre : List SourceChange} {c : SourceChange} (rest : List SourceChange)
    (first : ∀ x ∈ pre, x.same c = false) :
    ∃ more, (ofChanges (pre ++ c :: rest)).changes = (ofChanges pre).changes ++ c :: more ∧
      more ⊆ rest := by
  have kept : ((ofChanges pre).push c).changes = (ofChanges pre).changes ++ [c] := by
    rw [push_changes, if_neg]
    intro h
    obtain ⟨x, hx, hs⟩ := List.any_eq_true.mp h
    rw [first x (ofChanges_subset pre hx)] at hs
    cases hs
  obtain ⟨more, hmore, hsub⟩ := foldl_push ((ofChanges pre).push c) rest
  refine ⟨more, ?_, hsub⟩
  rw [kept, List.append_assoc, List.singleton_append] at hmore
  rw [← hmore, ofChanges, List.foldl_append]
  rfl

/-- The changes before which there is none that is the same. -/
def firsts (cs : List SourceChange) : List SourceChange :=
  (cs.zipIdx.filter fun e => !(cs.take e.2).any (·.same e.1)).map Prod.fst

theorem firsts_concat (cs : List SourceChange) (c : SourceChange) :
    firsts (cs ++ [c]) = firsts cs ++ if cs.any (·.same c) then [] else [c] := by
  have before : ∀ e ∈ cs.zipIdx, (cs ++ [c]).take e.2 = cs.take e.2 := by
    intro e he
    have hlt := List.snd_lt_of_mem_zipIdx he
    exact List.take_append_of_le_length (by omega)
  unfold firsts
  rw [List.zipIdx_append, List.filter_append, List.map_append,
    List.filter_congr fun e he => by rw [before e he]]
  congr 1
  cases hany : cs.any (·.same c) <;> simp [hany]

theorem ofChanges_concat (cs : List SourceChange) (c : SourceChange) :
    ofChanges (cs ++ [c]) = (ofChanges cs).push c := by
  rw [ofChanges, List.foldl_append]
  rfl

/-- What is the same as one of two changes that are the same is the same as the other. -/
theorem any_same_congr {x c : SourceChange} (h : x.same c = true) (cs : List SourceChange) :
    cs.any (·.same c) = cs.any (·.same x) := by
  refine Bool.eq_iff_iff.mpr ?_
  simp only [List.any_eq_true]
  exact exists_congr fun y => and_congr_right fun _ =>
    ⟨fun hy => SourceChange.same_trans hy (SourceChange.same_symm h),
      fun hy => SourceChange.same_trans hy h⟩

theorem any_ofChanges (cs : List SourceChange) (c : SourceChange) :
    (ofChanges cs).changes.any (·.same c) = cs.any (·.same c) := by
  induction cs using List.reverseRecOn generalizing c with
  | nil => rfl
  | append_singleton cs x ih =>
    rw [ofChanges_concat, push_changes, ih, List.any_append]
    cases hx : cs.any (·.same x) with
    | true =>
      rw [if_pos rfl, ih]
      cases hc : x.same c with
      | true => simp [any_same_congr hc cs, hx]
      | false => simp [hc]
    | false => rw [if_neg Bool.false_ne_true, List.any_append, ih]

/-- A batch holds one change for all that are the same. -/
theorem countP_ofChanges (cs : List SourceChange) (c : SourceChange) :
    (ofChanges cs).changes.countP (·.same c) = if cs.any (·.same c) then 1 else 0 := by
  induction cs using List.reverseRecOn generalizing c with
  | nil => rfl
  | append_singleton cs x ih =>
    rw [ofChanges_concat, push_changes, any_ofChanges, List.any_append]
    cases hx : cs.any (·.same x) with
    | true =>
      rw [if_pos rfl, ih]
      cases hc : x.same c with
      | true => simp [any_same_congr hc cs, hx]
      | false => simp [hc]
    | false =>
      rw [if_neg Bool.false_ne_true, List.countP_append, List.countP_singleton, ih]
      cases hc : x.same c with
      | true => simp [any_same_congr hc cs, hx, hc]
      | false => simp [hc]

/-- A batch holds the first of all changes that are the same, in order. -/
theorem ofChanges_changes (cs : List SourceChange) : (ofChanges cs).changes = firsts cs := by
  induction cs using List.reverseRecOn with
  | nil => rfl
  | append_singleton cs c ih =>
    rw [ofChanges_concat, push_changes, any_ofChanges, firsts_concat, ih]
    cases cs.any (·.same c) <;> simp

/-- A batch holds something where it was given something. -/
theorem nonempty?_ofChanges (cs : List SourceChange) :
    (ofChanges cs).nonempty? = if cs.isEmpty then none else some (ofChanges cs) := by
  have hempty : (ofChanges cs).isEmpty = cs.isEmpty := by
    cases cs with
    | nil => rfl
    | cons c cs =>
      have hany : (ofChanges (c :: cs)).changes.any (·.same c) = true := by
        rw [any_ofChanges, List.any_cons, SourceChange.same_refl, Bool.true_or]
      obtain ⟨x, hx, -⟩ := List.any_eq_true.mp hany
      simp [isEmpty, List.ne_nil_of_mem hx]
  rw [nonempty?, hempty]

end SourceBatch

end RuleScope
