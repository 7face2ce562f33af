import Mathlib.Data.String.Basic
import RuleScope.Snapshot.Merge
import RuleScope.Snapshot.Model

namespace RuleScope.Snapshot

/-- Labels in order, each once. -/
def Sorted {α : Type} (entries : List (String × α)) : Prop := entries.Pairwise fun a b => a.1 < b.1

section

variable {α : Type} {label : String} {a : α} {entries : List (String × α)}

theorem find?_insert (l : String) :
    find? l (insert label a entries) = if l = label then some a else find? l entries := by
  induction entries with
  | nil => simp [insert, find?, eq_comm]
  | cons b rest ih =>
    obtain ⟨k, b⟩ := b
    unfold insert
    split
    next => simp [find?, eq_comm]
    next =>
      split
      next he =>
        subst he
        by_cases hl : l = label
        · simp [find?, hl]
        · simp [find?, hl]
      next he =>
        by_cases hk : l = k
        · subst hk
          simp [find?, Ne.symm he]
        · simp [find?, hk, ih]

theorem mem_insert {b : String × α} (h : b ∈ insert label a entries) :
    b = (label, a) ∨ b ∈ entries := by
  induction entries with
  | nil => simpa [insert] using h
  | cons c rest ih =>
    unfold insert at h
    split at h
    next => simpa using h
    next =>
      split at h
      next => exact (List.mem_cons.mp h).imp_right (List.mem_cons_of_mem _)
      next =>
        rcases List.mem_cons.mp h with rfl | h
        · exact Or.inr List.mem_cons_self
        · exact (ih h).imp_right (List.mem_cons_of_mem _)

theorem insert_sorted (h : Sorted entries) : Sorted (insert label a entries) := by
  induction entries with
  | nil => simp [insert, Sorted]
  | cons b rest ih =>
    obtain ⟨hb, hrest⟩ := List.pairwise_cons.mp h
    unfold insert
    split
    next hlt =>
      refine List.pairwise_cons.mpr ⟨fun c hc => ?_, h⟩
      rcases List.mem_cons.mp hc with rfl | hc
      · exact hlt
      · exact hlt.trans (hb c hc)
    next hlt =>
      split
      next he =>
        subst he
        exact List.pairwise_cons.mpr ⟨hb, hrest⟩
      next he =>
        refine List.pairwise_cons.mpr ⟨fun c hc => ?_, ih hrest⟩
        rcases mem_insert hc with rfl | hc
        · exact (lt_trichotomy label b.1).resolve_left hlt |>.resolve_left he
        · exact hb c hc

theorem find?_eq_none_of_lt (h : ∀ b ∈ entries, label < b.1) : find? label entries = none := by
  induction entries with
  | nil => rfl
  | cons b rest ih =>
    have hne : label ≠ b.1 := (h b List.mem_cons_self).ne
    rw [find?, if_neg hne]
    exact ih fun c hc => h c (List.mem_cons_of_mem _ hc)

end

/-- What is known of one node. -/
structure Known where
  isImport : Bool
  state : LoggingState
  expanded : Bool
  deriving DecidableEq, Repr

namespace Entry

def known (e : Entry) : Known := ⟨e.isImport, e.state, e.expanded⟩

/-- What an entry says of the node at a label path below its own. -/
def known? (e : Entry) (labels : List String) : Option Known := (e.at? labels).map known

/-- At every level below an entry the children are in the order of their labels. -/
def Ordered (e : Entry) : Prop := ∀ labels c, e.at? labels = some c → Sorted c.children

end Entry

/-- Entries in order, with all that lies below them in order. -/
def AllOrdered (entries : List (String × Entry)) : Prop :=
  Sorted entries ∧ ∀ label e, find? label entries = some e → e.Ordered

theorem allOrdered_nil : AllOrdered [] := ⟨.nil, by simp [find?]⟩

theorem AllOrdered.insert {entries : List (String × Entry)} (h : AllOrdered entries) {e : Entry}
    (he : e.Ordered) (label : String) : AllOrdered (insert label e entries) := by
  refine ⟨insert_sorted h.1, fun l c hc => ?_⟩
  rw [find?_insert] at hc
  split at hc
  next =>
    cases hc
    exact he
  next => exact h.2 l c hc

namespace Entry

@[simp] theorem known?_nil (e : Entry) : e.known? [] = some e.known := rfl

theorem known?_cons (e : Entry) (label : String) (rest : List String) :
    e.known? (label :: rest) = (find? label e.children).bind fun c => c.known? rest := by
  simp only [known?, at?]
  cases find? label e.children <;> rfl

theorem ordered_iff {e : Entry} : e.Ordered ↔ AllOrdered e.children := by
  constructor
  · refine fun h => ⟨h [] e rfl, fun label c hc labels d hd => h (label :: labels) d ?_⟩
    simpa [at?, hc] using hd
  · rintro ⟨hs, hc⟩ labels d hd
    cases labels with
    | nil =>
      cases hd
      exact hs
    | cons label rest =>
      obtain ⟨c, hf, hd⟩ := Option.bind_eq_some_iff.mp hd
      exact hc label c hf rest d hd

theorem leaf_ordered (state : LoggingState) (isImport : Bool) : (leaf state isImport).Ordered :=
  ordered_iff.mpr allOrdered_nil

section

variable {expanded : Bool} {state : LoggingState} {isImport : Bool}

theorem setAt_ordered {path : List String} {e : Entry} (h : e.Ordered) :
    (e.setAt expanded state isImport path).Ordered := by
  induction path generalizing e with
  | nil =>
    have he := ordered_iff.mp h
    exact ordered_iff.mpr he
  | cons label rest ih =>
    have he := ordered_iff.mp h
    refine ordered_iff.mpr (he.insert (ih ?_) label)
    cases hc : find? label e.children with
    | none => exact leaf_ordered _ _
    | some c => exact he.2 label c hc

/-- Values are entered at one path, where the entry above is there already. -/
theorem known?_setAt {path : List String} {e : Entry} (parent : (e.at? path.dropLast).isSome)
    (labels : List String) : (e.setAt expanded state isImport path).known? labels =
      if labels = path then some ⟨isImport, state, expanded⟩ else e.known? labels := by
  induction path generalizing e labels with
  | nil =>
    cases labels with
    | nil => simp [setAt, known]
    | cons label rest => simp [setAt, known?_cons]
  | cons label rest ih =>
    cases labels with
    | nil => simp [setAt, known]
    | cons l labels =>
      rw [known?_cons, known?_cons, setAt]
      simp only [find?_insert]
      by_cases hl : l = label
      · subst hl
        simp only [if_true, Option.bind_some, List.cons.injEq, true_and]
        cases hc : find? l e.children with
        | some c =>
          refine ih ?_ labels
          cases rest with
          | nil => rfl
          | cons r rest => simpa [at?, hc] using parent
        | none =>
          cases rest with
          | nil =>
            rw [Option.getD_none, ih rfl]
            cases labels <;> simp [known?_cons, leaf, find?]
          | cons r rest => simp [at?, hc] at parent
      · simp [hl]

end

theorem find?_mergeAll {newer : List (String × Entry)} (h : Sorted newer)
    (old : List (String × Entry)) (l : String) : find? l (mergeAll old newer) =
      match find? l newer with
      | some e => some (((find? l old).map fun known => known.merge e).getD e)
      | none => find? l old := by
  induction newer generalizing old with
  | nil => rfl
  | cons b rest ih =>
    obtain ⟨label, e⟩ := b
    obtain ⟨hlt, hrest⟩ := List.pairwise_cons.mp h
    have habsent : find? label rest = none := find?_eq_none_of_lt hlt
    rw [mergeAll, ih hrest]
    by_cases hl : l = label
    · subst hl
      rw [habsent, find?_insert]
      simp only [find?, if_true]
      cases find? l old <;> rfl
    · simp [find?, find?_insert, hl]

theorem merge_children (old newer : Entry) :
    (old.merge newer).children = mergeAll old.children newer.children := by
  obtain ⟨_, _, _, _⟩ := newer
  simp [merge]

@[simp] theorem merge_known (old newer : Entry) : (old.merge newer).known = newer.known := by
  obtain ⟨_, _, _, _⟩ := newer
  simp [merge, known]

/-- After a merge a path has the newer entry if there is one, merged into the older. -/
theorem at?_merge {newer : Entry} (h : newer.Ordered) (old : Entry) (labels : List String) :
    (old.merge newer).at? labels =
      match newer.at? labels with
      | some e => some (((old.at? labels).map fun known => known.merge e).getD e)
      | none => old.at? labels := by
  induction labels generalizing old newer with
  | nil => rfl
  | cons label rest ih =>
    have hn := ordered_iff.mp h
    simp only [at?]
    rw [merge_children, find?_mergeAll hn.1]
    cases hc : find? label newer.children with
    | none => rfl
    | some e =>
      cases find? label old.children with
      | none =>
        simp only [Option.map_none, Option.getD_none, Option.bind_some, Option.bind_none]
        cases e.at? rest <;> rfl
      | some known => exact ih (hn.2 label e hc) known

theorem known?_merge {newer : Entry} (h : newer.Ordered) (old : Entry) (labels : List String) :
    (old.merge newer).known? labels = (newer.known? labels).or (old.known? labels) := by
  unfold known?
  rw [at?_merge h]
  cases newer.at? labels with
  | none => rfl
  | some e => cases old.at? labels <;> simp

theorem mergeAll_sorted {old : List (String × Entry)} (h : Sorted old)
    (newer : List (String × Entry)) : Sorted (mergeAll old newer) := by
  induction newer generalizing old with
  | nil => exact h
  | cons b rest ih => exact ih (insert_sorted h)

theorem merge_ordered {old newer : Entry} (ho : old.Ordered) (hn : newer.Ordered) :
    (old.merge newer).Ordered := by
  intro labels c hc
  rw [at?_merge hn] at hc
  cases hnew : newer.at? labels with
  | none =>
    rw [hnew] at hc
    exact ho labels c hc
  | some e =>
    rw [hnew] at hc
    cases hold : old.at? labels with
    | none =>
      rw [hold] at hc
      cases hc
      exact hn labels _ hnew
    | some known =>
      rw [hold] at hc
      obtain rfl : known.merge e = c := Option.some.inj hc
      rw [merge_children]
      exact mergeAll_sorted (ho labels known hold) _

end Entry

end RuleScope.Snapshot
