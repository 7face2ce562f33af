import RuleScope.Proofs.Disk.Joining
import RuleScope.Proofs.Path.Reading

namespace RuleScope.Disk

variable {d : Disk} {here p q : AbsPath} {pieces rest : List String} {links : Nat} {path : String}

/-- The place or one above it is a link. -/
def MeetsLink (d : Disk) (p : AbsPath) : Prop :=
  ∃ q target, p.isWithin q = true ∧ d.entry? q = some (.link target)

theorem MeetsLink.within (h : d.MeetsLink q) (hpq : p.isWithin q = true) : d.MeetsLink p := by
  obtain ⟨r, target, hr, hlink⟩ := h
  exact ⟨r, target, AbsPath.isWithin_trans hpq hr, hlink⟩

theorem not_meetsLink_root (d : Disk) : ¬ d.MeetsLink .root := by
  rintro ⟨q, target, hq, hlink⟩
  have hroot : q = .root := (AbsPath.eq_of_isWithin hq (AbsPath.isWithin_iff.mpr List.nil_prefix)).symm
  rw [hroot] at hlink
  cases hlink

theorem not_meetsLink_child {name : String} (h : ¬ d.MeetsLink p)
    (hchild : ∀ target, d.entry? (p.child name) ≠ some (.link target)) :
    ¬ d.MeetsLink (p.child name) := by
  rintro ⟨q, target, hq, hlink⟩
  rcases AbsPath.isWithin_of_child.mp hq with rfl | hq
  · exact hchild target hlink
  · exact h ⟨q, target, hq, hlink⟩

/-- Where a leg ends or goes on. -/
def Leg.place? : Leg → Option AbsPath
  | .ended (.found p) => some p
  | .ended (.free _ _) => none
  | .link here _ => some here

/-- From a place that meets no link, following comes to such places only. -/
theorem not_meetsLink_of_leg {r : Leg} (hhere : ¬ d.MeetsLink here)
    (h : d.leg true here pieces = .ok r) (hp : r.place? = some p) : ¬ d.MeetsLink p := by
  fun_induction leg d true here pieces
  case case1 =>
    cases h
    cases hp
    exact hhere
  case case3 ih => exact ih hhere h
  case case4 here _ _ _ ih =>
    refine ih (fun hup => hhere (hup.within ?_)) h
    exact AbsPath.isWithin_iff.mpr (List.dropLast_prefix here.names)
  case case6 =>
    cases h
    cases hp
  case case8 hlast => simp at hlast
  case case9 target _ _ =>
    cases h
    cases hp
    unfold startOf
    split
    next => exact d.not_meetsLink_root
    next => exact hhere
  case case10 hsolid hentry ih =>
    refine ih (not_meetsLink_child hhere fun target hlink => ?_) h
    exact hsolid target (Option.some.inj (hentry.symm.trans hlink))
  all_goals cases h

theorem not_meetsLink_of_follow (hhere : ¬ d.MeetsLink here)
    (h : d.follow true links here pieces = .ok (.found p)) : ¬ d.MeetsLink p := by
  fun_induction follow d true links here pieces
  case case2 hleg =>
    cases h
    exact not_meetsLink_of_leg hhere hleg rfl
  case case4 hleg ih => exact ih (not_meetsLink_of_leg hhere hleg rfl) h
  all_goals cases h

/-- Without a link on the way the names that are left lead to the place, if they lead anywhere. -/
theorem leg_of_not_meetsLink {r : Leg} (hp : p.Proper) (hlink : ¬ d.MeetsLink p)
    (hnames : here.names ++ pieces = p.names) (h : d.leg true here pieces = .ok r) :
    r = .ended (.found p) ∨ ∃ q slashed, r = .ended (.free q slashed) := by
  have hname : ∀ {here : AbsPath} {piece : String} {rest : List String},
      here.names ++ piece :: rest = p.names → Path.IsName piece := fun hnames =>
    hp _ (hnames ▸ List.mem_append_right _ List.mem_cons_self)
  fun_induction leg d true here pieces
  case case1 here =>
    cases h
    rw [List.append_nil] at hnames
    exact .inl (congrArg (Leg.ended ∘ Place.found) (congrArg AbsPath.mk hnames))
  case case3 hnothing _ =>
    obtain ⟨hempty, hdot, -⟩ := hname hnames
    exact absurd hnothing (not_or.mpr ⟨hempty, hdot⟩)
  case case4 =>
    obtain ⟨-, -, hup, -⟩ := hname hnames
    exact absurd rfl hup
  case case6 =>
    cases h
    exact .inr ⟨_, _, rfl⟩
  case case8 hlast => simp at hlast
  case case9 here piece rest _ _ _ _ target hentry _ =>
    have hwithin : p.isWithin (here.child piece) = true :=
      AbsPath.isWithin_iff.mpr ⟨rest, by simpa [AbsPath.child] using hnames⟩
    exact absurd ⟨_, target, hwithin, hentry⟩ hlink
  case case10 ih => exact ih (by simpa [AbsPath.child] using hnames) h
  all_goals cases h

theorem find?_eq_some_iff : d.find? path = some p ↔ d.seek true path = .ok (.found p) := by
  rw [← find_eq_ok_iff, find?]
  cases d.find path <;> simp [Except.toOption]

theorem follow_of_find?_text (h : d.find? p.text = some q) :
    d.follow true maxLinks .root (Path.pieces p.text) = .ok (.found q) := by
  have hseek := find?_eq_some_iff.mp h
  unfold seek at hseek
  split_ifs at hseek
  rwa [startOf, if_pos (AbsPath.isAbsolute_text p)] at hseek

theorem eq_of_find?_text (hp : p.Proper) (hlink : ¬ d.MeetsLink p) (h : d.find? p.text = some q) :
    q = p := by
  have hleg : d.leg true .root (Path.pieces p.text) = d.leg true .root p.names := by
    by_cases hroot : p = .root
    · subst hroot
      have hpieces : Path.pieces AbsPath.root.text = ["", ""] := by decide
      rw [hpieces, leg_root_slash, leg_root_slash]
      rfl
    · rw [AbsPath.pieces_text hp hroot, leg_root_slash]
  have hfollow := follow_of_find?_text h
  unfold follow at hfollow
  rw [hleg] at hfollow
  cases hend : d.leg true .root p.names with
  | error => simp [hend] at hfollow
  | ok r =>
    rw [hend] at hfollow
    rcases leg_of_not_meetsLink hp hlink (List.nil_append p.names) hend with rfl | ⟨q, slashed, rfl⟩
    · cases hfollow
      rfl
    · cases hfollow

theorem place_of_missing (h : d.has path = false) : d.place path = .lexical d.workDir path := by
  rw [has, Option.isSome_eq_false_iff, Option.isNone_iff_eq_none] at h
  rw [place, h, Option.getD_none]

/-- The text of a place stands for the place, unless it leads to something on disk past a link. -/
theorem place_text_eq_iff (hp : p.Proper) :
    d.place p.text = p ↔ ¬ (d.has p.text = true ∧ d.MeetsLink p) := by
  cases hfind : d.find? p.text with
  | none =>
    have hmissing : d.has p.text = false := by rw [has, hfind, Option.isSome_none]
    rw [place_of_missing hmissing, AbsPath.lexical_text hp, hmissing]
    simp
  | some q =>
    have hhas : d.has p.text = true := by rw [has, hfind, Option.isSome_some]
    rw [place, hfind, Option.getD_some, hhas]
    constructor
    · rintro rfl ⟨-, hlink⟩
      exact not_meetsLink_of_follow d.not_meetsLink_root (follow_of_find?_text hfind) hlink
    · intro hlink
      exact eq_of_find?_text hp (fun hmeets => hlink ⟨rfl, hmeets⟩) hfind

/-- Pieces that lead to something do so in two steps, cut anywhere. -/
theorem exists_follow_of_append (h : d.follow true links here (pieces ++ rest) = .ok (.found p)) :
    ∃ q left, d.follow true links here pieces = .ok (.found q) ∧
      d.follow true left q rest = .ok (.found p) := by
  fun_induction follow d true links here pieces with
  | case1 links here pieces e hleg =>
    unfold follow at h
    rw [leg_append, hleg] at h
    cases h
  | case2 links here pieces place hleg =>
    unfold follow at h
    rw [leg_append, hleg] at h
    cases place with
    | free q slashed =>
      by_cases hrest : rest.all (· = "") = true
      · simp [hrest] at h
      · simp [hrest] at h
    | found q =>
      refine ⟨q, links, rfl, ?_⟩
      unfold follow
      exact h
  | case3 here pieces here' pieces' hleg =>
    unfold follow at h
    rw [leg_append, hleg] at h
    cases h
  | case4 here pieces links here' pieces' hleg ih =>
    unfold follow at h
    rw [leg_append, hleg] at h
    exact ih h

theorem isDirectoryAt_of_follow {place : Place} (hne : pieces ≠ [])
    (h : d.follow true links here pieces = .ok place) : d.isDirectoryAt here = true := by
  by_contra hnot
  rw [Bool.not_eq_true] at hnot
  cases pieces with
  | nil => exact hne rfl
  | cons piece pieces =>
    unfold follow leg at h
    simp [hnot] at h

/-- Nothing lies behind a directory that is missing. -/
theorem has_of_has_join {dir : String} (hdir : dir ≠ "") (hpath : Path.isAbsolute path = false)
    (h : d.has (Path.join dir path) = true) : d.has dir = true := by
  obtain ⟨p, hp⟩ := Option.isSome_iff_exists.mp h
  obtain ⟨ps, hps, hfollow, hseek⟩ := seek_join_eq_ok hdir hpath (find?_eq_some_iff.mp hp)
  obtain ⟨q, left, hq, hrest⟩ := exists_follow_of_append hfollow
  have hisdir : d.isDirectoryAt q = true := isDirectoryAt_of_follow (Path.piecesFrom_ne_nil _ _) hrest
  refine Option.isSome_iff_exists.mpr ⟨q, find?_eq_some_iff.mpr ?_⟩
  rw [hseek]
  rcases hps with hpieces | hpieces
  · rwa [hpieces]
  · rw [hpieces]
    exact follow_append_slash hq hisdir

/-- The directory stands for the place that its text reads, so that no link changed it, and the path
leads to nothing behind it. -/
structure LeadsNowhere (d : Disk) (dir path : String) : Prop where
  reads : d.place dir = .lexical d.workDir dir
  missing : Path.isAbsolute path = false → d.has (Path.join dir path) = false

theorem leadsNowhere_of_missing {dir : String} (hdir : d.has dir = false)
    (hempty : dir = "" → Path.isAbsolute path = false → d.has path = false) :
    d.LeadsNowhere dir path where
  reads := place_of_missing hdir
  missing hpath := by
    by_cases hne : dir = ""
    · rw [hne, Path.join, if_neg (by simp [hpath]), if_pos rfl]
      exact hempty hne hpath
    · rw [← Bool.not_eq_true] at hdir ⊢
      exact fun h => hdir (has_of_has_join hne hpath h)

/-- A path that leads nowhere is read from the place that the directory stands for. -/
theorem LeadsNowhere.place_join {dir : String} (h : d.LeadsNowhere dir path)
    (hpath : Path.isAbsolute path = false) :
    d.place (Path.join dir path) = .lexical (d.place dir) path := by
  rw [place_of_missing (h.missing hpath), h.reads, AbsPath.lexical_join_path]

/-- A missing path stands for a place that is written with a slash before each of its names, and these
are left when the path is read behind the working directory. The text of that place stands for it again,
unless it leads to something on disk past a link. A path that leads nowhere behind a directory stands for
what the place of the directory says; behind a missing directory every path leads nowhere, apart from the
empty directory, behind which a path is what it is without. -/
theorem missing_stands_for_text (d : Disk) (hwork : d.workDir.Proper) :
    (∀ path, d.has path = false →
      (d.place path).text = "/" ++ String.intercalate "/" (d.place path).names ∧
      (d.place path).Proper ∧
      (d.place path).names = Path.readOn [] (Path.pieces (Path.join d.workDir.text path)) ∧
      (d.place (d.place path).text = d.place path ↔
        ¬ (d.has (d.place path).text = true ∧ d.MeetsLink (d.place path)))) ∧
    (∀ dir path, d.has dir = false → (dir = "" → Path.isAbsolute path = false → d.has path = false) →
      d.LeadsNowhere dir path) ∧
    ∀ dir dir' path, d.LeadsNowhere dir path → d.LeadsNowhere dir' path →
      d.place dir = d.place dir' → d.place (Path.join dir path) = d.place (Path.join dir' path) := by
  refine ⟨fun path hpath => ?_, fun _ _ => leadsNowhere_of_missing, fun dir dir' path h h' hplace => ?_⟩
  · have hproper : (d.place path).Proper := by
      rw [place_of_missing hpath]
      exact AbsPath.lexical_proper hwork path
    refine ⟨AbsPath.text_eq _, hproper, ?_, place_text_eq_iff hproper⟩
    rw [place_of_missing hpath]
    exact AbsPath.names_lexical_eq hwork path
  · by_cases hpath : Path.isAbsolute path = true
    · rw [Path.join, if_pos hpath, Path.join, if_pos hpath]
    · rw [Bool.not_eq_true] at hpath
      rw [h.place_join hpath, h'.place_join hpath, hplace]

/-- A directory, and a link to it beside it. -/
def linkedDisk : Disk :=
  ⟨[(⟨["work"]⟩, .directory), (⟨["work", "real"]⟩, .directory), (⟨["work", "link"]⟩, .link "real")],
    ⟨["work"]⟩, 0⟩

/-- The way through a missing directory leads to the link, whose text stands for the directory. What a
path stands for behind a directory is not told by the place of the directory where the link is found
behind the empty directory only, or where the directory is reached past the link. -/
theorem not_place_text_linked : linkedDisk.workDir.Proper ∧
    (¬ ∀ path, linkedDisk.has path = false →
      linkedDisk.place (linkedDisk.place path).text = linkedDisk.place path) ∧
    (¬ ∀ dir dir' path, linkedDisk.has dir = false → linkedDisk.has dir' = false →
      linkedDisk.place dir = linkedDisk.place dir' →
        linkedDisk.place (Path.join dir path) = linkedDisk.place (Path.join dir' path)) ∧
    ¬ ∀ dir dir' path, linkedDisk.has (Path.join dir path) = false →
      linkedDisk.has (Path.join dir' path) = false → linkedDisk.place dir = linkedDisk.place dir' →
        linkedDisk.place (Path.join dir path) = linkedDisk.place (Path.join dir' path) := by
  refine ⟨by decide, fun h => ?_, fun h => ?_, fun h => ?_⟩
  · exact absurd (h "gone/../link" (by decide)) (by decide)
  · exact absurd (h "" "gone/.." "link" (by decide) (by decide) (by decide)) (by decide)
  · exact absurd (h "link" "real" "gone" (by decide) (by decide) (by decide)) (by decide)

/-- A path with doubled slashes and both kinds of dots, and one behind the directory, behind another text
of it, and behind a missing directory that is left for it. -/
theorem missing_stands_for_text_linked :
    linkedDisk.workDir.Proper ∧
    linkedDisk.has "gone/../../plan//./main.rudi" = false ∧
    linkedDisk.place "gone/../../plan//./main.rudi" = ⟨["plan", "main.rudi"]⟩ ∧
    (linkedDisk.place "gone/../../plan//./main.rudi").names =
      Path.readOn [] (Path.pieces (Path.join linkedDisk.workDir.text "gone/../../plan//./main.rudi")) ∧
    linkedDisk.place (linkedDisk.place "gone/../../plan//./main.rudi").text =
      linkedDisk.place "gone/../../plan//./main.rudi" ∧
    linkedDisk.has "real/." = true ∧ linkedDisk.has "gone/../real" = false ∧
    linkedDisk.place (Path.join "real/." "../main.rudi") =
      linkedDisk.place (Path.join "gone/../real" "../main.rudi") := by
  have hwork : linkedDisk.workDir.Proper := by decide
  obtain ⟨hmissing, hnowhere, hjoin⟩ := missing_stands_for_text linkedDisk hwork
  have hplan : linkedDisk.has "gone/../../plan//./main.rudi" = false := by decide
  have hgone : linkedDisk.has "gone/../real" = false := by decide
  have htext : linkedDisk.has (linkedDisk.place "gone/../../plan//./main.rudi").text = false := by decide
  obtain ⟨-, -, hnames, hagain⟩ := hmissing _ hplan
  refine ⟨hwork, hplan, by decide, hnames, hagain.mpr fun h => ?_, by decide, hgone,
    hjoin _ _ _ ⟨by decide, fun _ => by decide⟩ (hnowhere _ _ hgone (fun h => ?_)) (by decide)⟩
  · exact Bool.false_ne_true (htext.symm.trans h.1)
  · exact absurd h (by decide)

end RuleScope.Disk
