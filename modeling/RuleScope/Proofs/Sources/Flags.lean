import RuleScope.Proofs.Sources.Paths

namespace RuleScope

namespace SourceTree

variable {t t' t'' : SourceTree} {d : Disk}

/-- A file on disk is newer than the location file of the last compile. -/
def Newer (t : SourceTree) (d : Disk) (p : AbsPath) : Prop :=
  ∃ time ∈ d.modified? p.text, ∃ location ∈ t.locationTime, location < time

instance (t : SourceTree) (d : Disk) (p : AbsPath) : Decidable (t.Newer d p) :=
  inferInstanceAs (Decidable (∃ time ∈ _, ∃ location ∈ _, location < time))

theorem Newer.isNewer {p : AbsPath} (h : t.Newer d p) :
    isNewer (d.modified? p.text) t.locationTime = true := by
  obtain ⟨time, htime, location, hlocation, hlt⟩ := h
  rw [Option.mem_def.mp htime, Option.mem_def.mp hlocation]
  exact decide_eq_true hlt

/-- A file that is known and not flagged. -/
def Unflagged (t : SourceTree) (p : AbsPath) : Prop := t.mark? p = some ⟨false, false⟩

instance (t : SourceTree) (p : AbsPath) : Decidable (t.Unflagged p) :=
  inferInstanceAs (Decidable (_ = _))

/-- Anything flagged puts the sources out of sync. -/
def Alarmed (t : SourceTree) : Prop :=
  ∀ q k, t.mark? q = some k → k.flagged = true → t.status = .outOfSync

/-- From `t` to `t'` some paths are touched or lost, and nothing else loses its flag or fails to be
flagged. -/
structure Heeds (d : Disk) (t t' : SourceTree) (touched : AbsPath → Prop) : Prop where
  ground : t.SameGround t'
  unflagged_iff : ∀ q, t.Newer d q → (t'.Unflagged q ↔ t.Unflagged q ∧ ¬ touched q)
  alarmed : t.Alarmed → t'.Alarmed

theorem Newer.congr {p : AbsPath} (hg : t.SameGround t') : t'.Newer d p ↔ t.Newer d p := by
  rw [Newer, Newer, hg.time_eq]

theorem Heeds.refl (d : Disk) (t : SourceTree) : t.Heeds d t fun _ => False :=
  ⟨.refl t, fun _ _ => by simp, id⟩

theorem Heeds.trans {touched more : AbsPath → Prop} (h : Heeds d t t' touched)
    (h' : Heeds d t' t'' more) : Heeds d t t'' fun q => touched q ∨ more q := by
  refine ⟨h.ground.trans h'.ground, fun q hn => ?_, fun ha => h'.alarmed (h.alarmed ha)⟩
  rw [h'.unflagged_iff q ((Newer.congr h.ground).mpr hn), h.unflagged_iff q hn, not_or, and_assoc]

theorem Heeds.congr {touched touched' : AbsPath → Prop} (h : Heeds d t t' touched)
    (same : ∀ q, touched' q ↔ touched q) : Heeds d t t' touched' :=
  ⟨h.ground, fun q hn => by rw [h.unflagged_iff q hn, same], h.alarmed⟩

theorem or_folder_eq_some_iff {k : Mark} (hk : k ≠ ⟨true, false⟩) (m : Option Mark) (folder : Bool) :
    m.or (if folder = true then some ⟨true, false⟩ else none) = some k ↔ m = some k := by
  cases m with
  | some _ => rfl
  | none =>
    cases folder with
    | false => rfl
    | true => simp [Ne.symm hk]

theorem ensureFolder_heeds (t : SourceTree) (d : Disk) (p : AbsPath) :
    Heeds d t (t.ensureFolder p) fun _ => False := by
  obtain ⟨hground, hstatus⟩ := ensureFolder_ground t p
  refine ⟨hground, fun q _ => ?_, fun ha q k hk hflag => ?_⟩
  · rw [Unflagged, mark?_ensureFolder, or_folder_eq_some_iff (by simp), not_false_eq_true, and_true]
    rfl
  · have hne : k ≠ ⟨true, false⟩ := by
      rintro rfl
      cases hflag
    rw [mark?_ensureFolder, or_folder_eq_some_iff hne] at hk
    exact hstatus.trans (ha q k hk hflag)

theorem Enters.heeds {p : AbsPath} (h : t.Enters t' d p) : Heeds d t t' fun _ => False := by
  refine ⟨h.ground, fun q hn => ?_, fun ha q k hk hflag => ?_⟩
  · rw [Unflagged, h.mark_eq, not_false_eq_true, and_true]
    split
    next he =>
      subst he
      simp [hn.isNewer, Unflagged, h.unknown]
    next => exact or_folder_eq_some_iff (by simp) _ _
  · have hne : k ≠ ⟨true, false⟩ := by
      rintro rfl
      cases hflag
    rw [h.mark_eq] at hk
    rw [h.status_eq]
    split
    next => rfl
    next hnew =>
      split at hk
      next =>
        cases hk
        exact absurd hflag hnew
      next => exact ha q k ((or_folder_eq_some_iff hne _ _).mp hk) hflag

theorem Flags.heeds {p : AbsPath} (h : t.Flags t' p) : Heeds d t t' fun q => q = p := by
  refine ⟨h.ground, fun q _ => ?_, fun _ _ _ _ _ => h.status_eq⟩
  rw [Unflagged, h.mark_eq]
  split
  next he =>
    refine iff_of_false (fun hk => ?_) fun hq => hq.2 he
    obtain ⟨k, -, hk⟩ := Option.map_eq_some_iff.mp hk
    exact absurd (congrArg Mark.flagged hk) (by simp)
  next he => exact ⟨fun hk => ⟨hk, he⟩, And.left⟩

theorem touchFile_heeds (t : SourceTree) (d : Disk) (p : AbsPath) : Heeds d t (t.touchFile d p)
    fun q => q = p ∧ p.isRuleSource = true ∧ p.isWithin t.root = true := by
  rcases touchFile_cases t d p with ⟨hp, he⟩ | ⟨hp, hent | hflag⟩
  · rw [he]
    exact (Heeds.refl d t).congr fun q => iff_of_false (fun hq => hp hq.2) id
  · -- A file that is newer is flagged when it is entered, so it counts as touched without harm.
    refine ⟨hent.ground, fun q hn => ?_, hent.heeds.alarmed⟩
    rw [hent.heeds.unflagged_iff q hn]
    refine and_congr_right fun hq => iff_of_true id fun hqp => ?_
    rw [Unflagged, hqp.1, hent.unknown] at hq
    cases hq
  · exact hflag.heeds.congr fun q => ⟨And.left, fun hq => ⟨hq, hp⟩⟩

/-- What is met on a walk is entered, and nothing known is touched. -/
theorem meet_heeds (t : SourceTree) (d : Disk) (e : AbsPath × DiskEntry) :
    Heeds d t (meet d t e) fun _ => False := by
  obtain ⟨p, entry⟩ := e
  cases entry with
  | directory => exact ensureFolder_heeds t d p
  | link => exact .refl d t
  | file text time =>
    simp only [meet]
    split
    next h =>
      have unknown : t.mark? p = none := by
        have hn : (t.node? p).isNone = true := (Bool.and_eq_true _ _ ▸ h).2
        rw [mark?, Option.isNone_iff_eq_none.mp hn]
        rfl
      rcases touchFile_cases t d p with ⟨_, he⟩ | ⟨_, hent | hflag⟩
      · rw [he]
        exact .refl d t
      · exact hent.heeds
      · have := hflag.known
        rw [unknown] at this
        cases this
    next => exact .refl d t

theorem addPlace_heeds (t : SourceTree) (d : Disk) (p : AbsPath) :
    Heeds d t (t.addPlace d p) fun _ => False := by
  have walked : ∀ (entries : List (AbsPath × DiskEntry)) (t : SourceTree),
      Heeds d t (entries.foldl (meet d) t) fun _ => False := by
    intro entries
    induction entries with
    | nil => exact .refl d
    | cons e rest ih =>
      intro t
      exact ((meet_heeds t d e).trans (ih _)).congr fun _ => by simp
  unfold addPlace
  split
  next => exact walked _ t
  next => exact .refl d t

theorem remove_heeds (h : t.Closed) (d : Disk) (path : String) : Heeds d t (t.remove d path)
    fun q => d.place path ≠ t.root ∧ (d.place path).isWithin t.root = true ∧
      q.isWithin (d.place path) = true := by
  obtain ⟨hground, hstatus⟩ := remove_ground t d path
  refine ⟨hground, fun q _ => ?_, fun ha q k hk hflag => ?_⟩
  · have kept : (t.remove d path).Unflagged q ↔
        t.Unflagged q ∧ (t.remove d path).Knows q := by
      rw [Unflagged, SourceTree.knows_iff, mark?_remove]
      split
      next => simp
      next => exact ⟨fun hk => ⟨hk, by rw [hk]; rfl⟩, And.left⟩
    rw [kept, remove_knows h]
    exact and_congr_right fun hq =>
      and_iff_right (SourceTree.knows_iff.mpr (by rw [hq]; rfl))
  · rw [mark?_remove] at hk
    split at hk
    next => cases hk
    next => exact hstatus.trans (ha q k hk hflag)

theorem new_alarmed (d : Disk) (root locationFile : String) : (new d root locationFile).Alarmed := by
  intro q k hk hflag
  have unflagged : k.flagged = false := by
    by_cases h : d.place root = q
    · simp only [mark?, node?, new, Table.get?, h, if_true] at hk
      cases hk
      rfl
    · simp [mark?, node?, new, Table.get?, h] at hk
  rw [unflagged] at hflag
  cases hflag

theorem scan_alarmed (d : Disk) (root locationFile : String) : (scan d root locationFile).Alarmed :=
  (addPlace_heeds _ d _).alarmed (new_alarmed d root locationFile)

end SourceTree

namespace SourceChange

/-- A change names a rule source inside the root, or takes it away with what lies above it. -/
def Touches (d : Disk) (root q : AbsPath) : SourceChange → Prop
  | .changed path => d.isDirectory (d.place path).text = false ∧ d.place path = q ∧
      q.isRuleSource = true ∧ q.isWithin root = true
  | .removed path => d.place path ≠ root ∧ (d.place path).isWithin root = true ∧
      q.isWithin (d.place path) = true
  | .locationWritten => False

instance (d : Disk) (root q : AbsPath) (c : SourceChange) : Decidable (c.Touches d root q) := by
  cases c <;> unfold Touches <;> infer_instance

end SourceChange

namespace Session

open SourceTree SourceChange

variable {t : SourceTree}

theorem follow_heeds (h : t.Closed) (d : Disk) (c : SourceChange) :
    Heeds d t (follow d t c) fun q => c.Touches d t.root q := by
  cases c with
  | changed path =>
    have hfollow : follow d t (.changed path) = t.changed d path := rfl
    rw [hfollow, SourceTree.changed]
    split
    next hd => exact (addPlace_heeds t d _).congr fun q => by simp [Touches, hd]
    next hd =>
      refine (touchFile_heeds t d _).congr fun q => ?_
      have hd : d.isDirectory (d.place path).text = false := by simpa using hd
      constructor
      · rintro ⟨_, rfl, hp⟩
        exact ⟨rfl, hp⟩
      · rintro ⟨rfl, hp⟩
        exact ⟨hd, rfl, hp⟩
  | removed path => exact remove_heeds h d path
  | locationWritten => exact .refl d t

/-- A newer file without a flag was there before the changes, and none of them touches it. -/
theorem foldl_follow_heeds (h : t.Closed) (d : Disk) (cs : List SourceChange) :
    Heeds d t (cs.foldl (follow d) t) fun q => ∃ c ∈ cs, c.Touches d t.root q := by
  induction cs generalizing t with
  | nil => exact (Heeds.refl d t).congr fun q => by simp
  | cons c rest ih =>
    obtain ⟨hclosed, hroot⟩ := follow_closed h d c
    refine ((follow_heeds h d c).trans (ih hclosed)).congr fun q => ?_
    rw [hroot, List.exists_mem_cons_iff]

end Session

end RuleScope
