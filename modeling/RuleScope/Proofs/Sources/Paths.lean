import RuleScope.Proofs.Sources.Nodes
import RuleScope.Session

namespace RuleScope

namespace SourceTree

variable {t t' t'' : SourceTree} {d : Disk}

def Knows (t : SourceTree) (p : AbsPath) : Prop := (t.node? p).isSome = true

instance (t : SourceTree) (p : AbsPath) : Decidable (t.Knows p) :=
  inferInstanceAs (Decidable (_ = true))

theorem knows_iff {p : AbsPath} : t.Knows p ↔ (t.mark? p).isSome = true := by
  rw [Knows, mark?, Option.isSome_map]

/-- The root is known, and of what lies inside it all that is above a known path. -/
structure Closed (t : SourceTree) : Prop where
  root : t.Knows t.root
  inside : ∀ q, t.Knows q → q.isWithin t.root = true
  upward : ∀ p q, t.Knows p → p.isWithin q = true → q.isWithin t.root = true → t.Knows q

/-- Whether a path inside the root is one of some places inside the root, or on the way to one. -/
def reaches (root : AbsPath) (places : List AbsPath) (q : AbsPath) : Bool :=
  q.isWithin root && places.any fun p => p.isWithin root && p.isWithin q

theorem reaches_iff {root q : AbsPath} {places : List AbsPath} :
    reaches root places q = true ↔
      q.isWithin root = true ∧ ∃ p ∈ places, p.isWithin root = true ∧ p.isWithin q = true := by
  simp [reaches]

/-- `t'` knows some places besides what `t` knows, and all on the way to them. -/
structure Gains (t t' : SourceTree) (places : List AbsPath) : Prop where
  root_eq : t'.root = t.root
  knows_iff : ∀ q, t'.Knows q ↔ t.Knows q ∨ reaches t.root places q = true

theorem Gains.refl (t : SourceTree) : t.Gains t [] :=
  ⟨rfl, fun q => by simp [reaches]⟩

theorem Gains.append {places more : List AbsPath} (h : t.Gains t' places)
    (h' : t'.Gains t'' more) : t.Gains t'' (places ++ more) := by
  refine ⟨h'.root_eq.trans h.root_eq, fun q => ?_⟩
  rw [h'.knows_iff, h.knows_iff, h.root_eq, or_assoc]
  simp only [reaches, List.any_append, Bool.and_or_distrib_left, Bool.or_eq_true]

theorem Closed.gains (h : t.Closed) {places : List AbsPath} (hg : t.Gains t' places) :
    t'.Closed := by
  refine ⟨?_, fun q hq => ?_, fun p q hp hpq hq => ?_⟩
  · rw [hg.root_eq, hg.knows_iff]
    exact Or.inl h.root
  · rw [hg.root_eq]
    rcases (hg.knows_iff q).mp hq with hq | hq
    · exact h.inside q hq
    · exact (reaches_iff.mp hq).1
  · rw [hg.root_eq] at hq
    rcases (hg.knows_iff p).mp hp with hp | hp
    · exact (hg.knows_iff q).mpr (Or.inl (h.upward p q hp hpq hq))
    · obtain ⟨_, e, he, her, hep⟩ := reaches_iff.mp hp
      exact (hg.knows_iff q).mpr
        (Or.inr (reaches_iff.mpr ⟨hq, e, he, her, AbsPath.isWithin_trans hep hpq⟩))

/-- In a closed tree only the folders below the root need to be entered on the way to a place. -/
theorem Closed.knows_or_onWay (h : t.Closed) (p q : AbsPath) :
    t.Knows q ∨ t.onWay p q = true ↔ t.Knows q ∨ reaches t.root [p] q = true := by
  by_cases hr : q = t.root
  · rw [hr]
    exact iff_of_true (Or.inl h.root) (Or.inl h.root)
  · simp only [onWay, reaches, List.any_cons, List.any_nil, Bool.or_false, Bool.and_eq_true,
      decide_eq_true_eq]
    refine or_congr_right ⟨?_, ?_⟩
    · rintro ⟨⟨⟨hp, hq⟩, _⟩, hpq⟩
      exact ⟨hq, hp, hpq⟩
    · rintro ⟨hq, hp, hpq⟩
      exact ⟨⟨⟨hp, hq⟩, hr⟩, hpq⟩

theorem ensureFolder_gains (h : t.Closed) (p : AbsPath) : t.Gains (t.ensureFolder p) [p] := by
  refine ⟨(ensureFolder_ground t p).1.root_eq, fun q => ?_⟩
  rw [← h.knows_or_onWay, SourceTree.knows_iff, mark?_ensureFolder, SourceTree.knows_iff]
  cases t.mark? q <;> cases t.onWay p q <;> simp

def broughtByFile (p : AbsPath) : List AbsPath := if p.isRuleSource then [p] else []

/-- A file that is known, or does not matter, brings in nothing new. -/
theorem Closed.gains_of_known (h : t.Closed) {p : AbsPath}
    (hp : p.isRuleSource = true → p.isWithin t.root = true → t.Knows p)
    (hroot : t'.root = t.root) (hknows : ∀ q, t'.Knows q ↔ t.Knows q) :
    t.Gains t' (broughtByFile p) := by
  refine ⟨hroot, fun q => ?_⟩
  rw [hknows, or_iff_left_of_imp]
  unfold broughtByFile
  split
  next hs =>
    intro hr
    obtain ⟨hq, e, he, her, heq⟩ := reaches_iff.mp hr
    obtain rfl : e = p := List.mem_singleton.mp he
    exact h.upward e q (hp hs her) heq hq
  next => simp [reaches]

theorem touchFile_gains (h : t.Closed) (d : Disk) (p : AbsPath) :
    t.Gains (t.touchFile d p) (broughtByFile p) := by
  rcases touchFile_cases t d p with ⟨hp, he⟩ | ⟨hp, hent | hflag⟩
  · rw [he]
    exact h.gains_of_known (fun hs hr => absurd ⟨hs, hr⟩ hp) rfl fun _ => Iff.rfl
  · have hbrought : broughtByFile p = [p] := if_pos hp.1
    refine ⟨hent.ground.root_eq, fun q => ?_⟩
    rw [hbrought, ← h.knows_or_onWay, SourceTree.knows_iff, hent.mark_eq, SourceTree.knows_iff]
    by_cases hq : q = p
    · -- The root is known from the start, so a new file is none.
      have hne : p ≠ t.root := fun he => by
        have := h.root
        rw [← he, SourceTree.knows_iff, hent.unknown] at this
        cases this
      simp [hq, onWay, hp.2, hne, AbsPath.isWithin_refl]
    · rw [if_neg hq]
      cases t.mark? q <;> cases t.onWay p q <;> simp
  · refine h.gains_of_known (fun _ _ => SourceTree.knows_iff.mpr hflag.known)
      hflag.ground.root_eq fun q => ?_
    rw [SourceTree.knows_iff, hflag.mark_eq, SourceTree.knows_iff]
    split
    next => rw [Option.isSome_map]
    next => rfl

/-- The places that something met on a walk brings in. -/
def broughtBy (e : AbsPath × DiskEntry) : List AbsPath :=
  match e.2 with
  | .directory => [e.1]
  | .file _ _ => broughtByFile e.1
  | .link _ => []

theorem meet_gains (h : t.Closed) (d : Disk) (e : AbsPath × DiskEntry) :
    t.Gains (meet d t e) (broughtBy e) := by
  obtain ⟨p, entry⟩ := e
  cases entry with
  | directory => exact ensureFolder_gains h p
  | link => exact .refl t
  | file text time =>
    have touched := touchFile_gains h d p
    simp only [meet, broughtBy]
    split
    next => exact touched
    next hnot =>
      refine h.gains_of_known (fun hs _ => ?_) rfl fun _ => Iff.rfl
      simpa [hs, Knows, Option.isSome_iff_ne_none] using hnot

theorem foldl_meet_gains (h : t.Closed) (d : Disk) (entries : List (AbsPath × DiskEntry)) :
    t.Gains (entries.foldl (meet d) t) (entries.flatMap broughtBy) := by
  induction entries generalizing t with
  | nil => exact .refl t
  | cons e rest ih =>
    -- The tree stays closed on the way, so that a known file never brings in anything.
    have first := meet_gains h d e
    rw [List.flatMap_cons]
    exact first.append (ih (h.gains first))

/-- The places that a walk brings in, if it starts inside the root. -/
def broughtBelow (d : Disk) (root p : AbsPath) : List AbsPath :=
  if p.isWithin root then (d.walk p.text).flatMap broughtBy else []

/-- The places that a path brings in that stands for `p`. -/
def brought (d : Disk) (root p : AbsPath) : List AbsPath :=
  if d.isDirectory p.text then broughtBelow d root (d.place p.text) else broughtByFile p

theorem addPlace_gains (h : t.Closed) (d : Disk) (p : AbsPath) :
    t.Gains (t.addPlace d p) (broughtBelow d t.root p) := by
  unfold addPlace broughtBelow
  split
  next => exact foldl_meet_gains h d _
  next => exact .refl t

theorem changed_gains (h : t.Closed) (d : Disk) (path : String) :
    t.Gains (t.changed d path) (brought d t.root (d.place path)) := by
  unfold changed brought
  dsimp only
  split
  next => exact addPlace_gains h d _
  next => exact touchFile_gains h d _

theorem remove_knows (h : t.Closed) (d : Disk) (path : String) (q : AbsPath) :
    (t.remove d path).Knows q ↔ t.Knows q ∧ ¬ (d.place path ≠ t.root ∧
      (d.place path).isWithin t.root = true ∧ q.isWithin (d.place path) = true) := by
  have canRemove : t.canRemove d path = true ↔
      d.place path ≠ t.root ∧ t.Knows (d.place path) := by
    simp [SourceTree.canRemove, Knows]
  rw [knows_iff, mark?_remove]
  split
  next hr =>
    obtain ⟨hne, hp⟩ := canRemove.mp hr.1
    exact iff_of_false (by simp) fun ⟨_, hn⟩ => hn ⟨hne, h.inside _ hp, hr.2⟩
  next hr =>
    rw [← knows_iff]
    refine ⟨fun hq => ⟨hq, fun ⟨hne, hin, hw⟩ => hr ⟨canRemove.mpr ⟨hne, ?_⟩, hw⟩⟩, And.left⟩
    exact h.upward q _ hq hw hin

theorem Closed.remove (h : t.Closed) (d : Disk) (path : String) : (t.remove d path).Closed := by
  have hroot := (remove_ground t d path).1.root_eq
  refine ⟨?_, fun q hq => ?_, fun p q hp hpq hq => ?_⟩
  · rw [hroot, remove_knows h]
    refine ⟨h.root, fun ⟨hne, hin, hw⟩ => hne (AbsPath.eq_of_isWithin hin hw)⟩
  · rw [hroot]
    exact h.inside q ((remove_knows h d path q).mp hq).1
  · rw [hroot] at hq
    obtain ⟨hp, hkept⟩ := (remove_knows h d path p).mp hp
    exact (remove_knows h d path q).mpr ⟨h.upward p q hp hpq hq, fun ⟨hne, hin, hw⟩ =>
      hkept ⟨hne, hin, AbsPath.isWithin_trans hpq hw⟩⟩

theorem new_closed (d : Disk) (root locationFile : String) : (new d root locationFile).Closed := by
  have only : ∀ q, (new d root locationFile).Knows q ↔ q = d.place root := by
    intro q
    by_cases h : d.place root = q
    · simp [Knows, node?, new, Table.get?, h]
    · simp [Knows, node?, new, Table.get?, h, Ne.symm h]
  refine ⟨(only _).mpr rfl, fun q hq => ?_, fun p q hp hpq hq => ?_⟩
  · rw [(only q).mp hq]
    exact AbsPath.isWithin_refl _
  · rw [(only p).mp hp] at hpq
    exact (only q).mpr (AbsPath.eq_of_isWithin hq hpq)

theorem scan_closed (d : Disk) (root locationFile : String) :
    (scan d root locationFile).Closed :=
  (new_closed d root locationFile).gains (addPlace_gains (new_closed d root locationFile) d _)

end SourceTree

namespace SourceChange

/-- What a change says of a path: that it is there, or that it is gone. -/
def word? (d : Disk) (root q : AbsPath) : SourceChange → Option Bool
  | .changed path =>
    if SourceTree.reaches root (SourceTree.brought d root (d.place path)) q then some true else none
  | .removed path =>
    if d.place path ≠ root ∧ (d.place path).isWithin root = true ∧
      q.isWithin (d.place path) = true then some false else none
  | .locationWritten => none

/-- The last word on a path. -/
def lastWord? (d : Disk) (root q : AbsPath) (cs : List SourceChange) : Option Bool :=
  cs.reverse.findSome? (word? d root q)

theorem lastWord?_cons (d : Disk) (root q : AbsPath) (c : SourceChange) (cs : List SourceChange) :
    lastWord? d root q (c :: cs) = (lastWord? d root q cs).or (word? d root q c) := by
  simp [lastWord?]

end SourceChange

namespace Session

open SourceTree SourceChange

variable {t : SourceTree} {d : Disk}

theorem follow_closed (h : t.Closed) (d : Disk) (c : SourceChange) :
    (follow d t c).Closed ∧ (follow d t c).root = t.root := by
  cases c with
  | changed path =>
    have hg := changed_gains h d path
    exact ⟨h.gains hg, hg.root_eq⟩
  | removed path => exact ⟨h.remove d path, (remove_ground t d path).1.root_eq⟩
  | locationWritten => exact ⟨h, rfl⟩

theorem follow_knows (h : t.Closed) (d : Disk) (c : SourceChange) (q : AbsPath) :
    (follow d t c).Knows q ↔ (c.word? d t.root q).getD (decide (t.Knows q)) = true := by
  cases c with
  | changed path =>
    rw [follow, (changed_gains h d path).knows_iff, word?]
    split
    next hr => simp [hr]
    next hr => simp [hr]
  | removed path =>
    rw [follow, remove_knows h, word?]
    split
    next hr => simp [hr]
    next hr => simp only [hr, not_false_eq_true, and_true, Option.getD_none, decide_eq_true_eq]
  | locationWritten => simp [follow, word?]

theorem foldl_follow_knows (h : t.Closed) (d : Disk) (cs : List SourceChange) :
    (cs.foldl (follow d) t).Closed ∧ (cs.foldl (follow d) t).root = t.root ∧
      ∀ q, (cs.foldl (follow d) t).Knows q ↔
        (lastWord? d t.root q cs).getD (decide (t.Knows q)) = true := by
  induction cs generalizing t with
  | nil => exact ⟨h, rfl, fun q => by simp [lastWord?]⟩
  | cons c rest ih =>
    obtain ⟨hc, hroot⟩ := follow_closed h d c
    obtain ⟨hclosed, hroot', hknows⟩ := ih hc
    refine ⟨hclosed, hroot'.trans hroot, fun q => ?_⟩
    have first := follow_knows h d c q
    rw [List.foldl_cons, hknows, hroot, lastWord?_cons]
    cases lastWord? d t.root q rest with
    | some b => rfl
    | none => simpa using first

end Session

end RuleScope
