import RuleScope.Proofs.Disk.Growth
import RuleScope.Proofs.Path.Written
import RuleScope.Proofs.Sources.Ties

namespace RuleScope

namespace Disk

/-- A place with names that a path can hold, and not too many of them. -/
structure Writable (p : AbsPath) : Prop where
  proper : p.Proper
  names : ∀ name ∈ p.names, name.utf8ByteSize ≤ maxNameBytes ∧ '\x00' ∉ name.toList
  bytes : p.text.utf8ByteSize < pathBytes

/-- Each place is taken once and can be written, and lies in a directory. -/
structure Sound (d : Disk) : Prop where
  nodup : (d.entries.map Prod.fst).Nodup
  writable : ∀ e ∈ d.entries, Writable e.1
  inDirectory : ∀ e ∈ d.entries, e.1.parent?.bind d.entry? = some .directory

instance (p : AbsPath) : Decidable (Writable p) :=
  decidable_of_iff (p.Proper ∧ (∀ name ∈ p.names,
    name.utf8ByteSize ≤ maxNameBytes ∧ '\x00' ∉ name.toList) ∧ p.text.utf8ByteSize < pathBytes)
    ⟨fun ⟨h, h', h''⟩ => ⟨h, h', h''⟩, fun h => ⟨h.proper, h.names, h.bytes⟩⟩

instance (d : Disk) : Decidable d.Sound :=
  decidable_of_iff ((d.entries.map Prod.fst).Nodup ∧ (∀ e ∈ d.entries, Writable e.1) ∧
    ∀ e ∈ d.entries, e.1.parent?.bind d.entry? = some .directory)
    ⟨fun ⟨h, h', h''⟩ => ⟨h, h', h''⟩, fun h => ⟨h.nodup, h.writable, h.inDirectory⟩⟩

variable {d : Disk} {p q : AbsPath} {e : DiskEntry}

theorem mem_entries_of_entry (h : d.entry? p = some e) (hp : p ≠ .root) : (p, e) ∈ d.entries := by
  unfold entry? at h
  rw [if_neg hp] at h
  exact Table.mem_of_get? h

/-- Where each place is taken once, a directory holds what lies at the places below it. -/
theorem mem_children_iff (hkeys : (d.entries.map Prod.fst).Nodup) {f : AbsPath × DiskEntry} :
    f ∈ d.children p ↔ f.1.parent? = some p ∧ d.entry? f.1 = some f.2 := by
  obtain ⟨q, e⟩ := f
  rw [children, List.mem_filter, beq_iff_eq]
  constructor
  · rintro ⟨hmem, hparent⟩
    refine ⟨hparent, ?_⟩
    unfold entry?
    rw [if_neg (AbsPath.ne_root_of_parent? hparent)]
    exact Table.get?_of_mem hkeys hmem
  · rintro ⟨hparent, hentry⟩
    exact ⟨mem_entries_of_entry hentry (AbsPath.ne_root_of_parent? hparent), hparent⟩

theorem leg_name {last : Bool} {here : AbsPath} {name : String} {rest : List String}
    (hhere : d.isDirectoryAt here = true) (hname : Path.IsName name)
    (hbytes : name.utf8ByteSize ≤ maxNameBytes) :
    d.leg last here (name :: rest) = match d.entry? (here.child name) with
      | none => if rest.all (· = "") then .ok (.ended (.free (here.child name) !rest.isEmpty))
        else .error .notFound
      | some (.link target) =>
        if rest.isEmpty && !last then .ok (.ended (.found (here.child name)))
        else .ok (.link (startOf here target) (Path.pieces target ++ rest))
      | some _ => d.leg last (here.child name) rest := by
  obtain ⟨hempty, hdot, hup, -⟩ := hname
  have hinside : ¬ (!d.isDirectoryAt here) = true := by simp [hhere]
  have hmoves : ¬ (name = "" ∨ name = ".") := not_or.mpr ⟨hempty, hdot⟩
  have hshort : ¬ name.utf8ByteSize > maxNameBytes := Nat.not_lt.mpr hbytes
  rw [leg]
  exact (if_neg hinside).trans ((if_neg hmoves).trans ((if_neg hup).trans (if_neg hshort)))

/-- A slash at the start leads nowhere else. -/
theorem leg_root_slash (d : Disk) (last : Bool) (rest : List String) :
    d.leg last .root ("" :: rest) = d.leg last .root rest := by
  have hroot : d.isDirectoryAt .root = true := isDirectoryAt_iff.mpr rfl
  rw [leg]
  simp [hroot]

theorem Writable.null_not_mem (h : Writable p) : '\x00' ∉ p.text.toList := by
  by_cases hroot : p = .root
  · subst hroot
    decide
  · rw [AbsPath.toList_text hroot, List.mem_flatMap]
    rintro ⟨name, hname, hmem⟩
    rcases List.mem_cons.mp hmem with hslash | hmem
    · cases hslash
    · exact (h.names name hname).2 hmem

namespace Sound

theorem exists_directory (h : d.Sound) {f : AbsPath × DiskEntry} (hf : f ∈ d.entries) :
    ∃ dir, f.1.parent? = some dir ∧ d.entry? dir = some .directory :=
  Option.bind_eq_some_iff.mp (h.inDirectory f hf)

theorem entry?_of_mem (h : d.Sound) (hp : (p, e) ∈ d.entries) : d.entry? p = some e := by
  obtain ⟨dir, hdir, -⟩ := h.exists_directory hp
  have hroot := AbsPath.ne_root_of_parent? hdir
  unfold entry?
  rw [if_neg hroot]
  exact Table.get?_of_mem h.nodup hp

theorem writable_of_entry (h : d.Sound) (hp : d.entry? p = some e) : Writable p := by
  by_cases hroot : p = .root
  · subst hroot
    decide
  · exact h.writable _ (mem_entries_of_entry hp hroot)

/-- All that lies above something is a directory. -/
theorem directory_above (h : d.Sound) (hp : d.entry? p = some e) (hpq : p.isWithin q = true)
    (hne : q ≠ p) : d.entry? q = some .directory := by
  induction hlength : p.names.length generalizing p e with
  | zero =>
    have hroot : p = .root := by
      cases p
      exact congrArg AbsPath.mk (List.length_eq_zero_iff.mp hlength)
    rw [hroot] at hpq hne
    exact absurd (AbsPath.eq_of_isWithin hpq (AbsPath.isWithin_iff.mpr List.nil_prefix)).symm hne
  | succ k ih =>
    have hroot : p ≠ .root := by
      rintro rfl
      cases hlength
    obtain ⟨dir, hparent, hdir⟩ := h.exists_directory (mem_entries_of_entry hp hroot)
    rcases (AbsPath.isWithin_iff_of_parent? hparent).mp hpq with rfl | hwithin
    · exact absurd rfl hne
    · by_cases hq : q = dir
      · rwa [hq]
      · have hlength' : p.names.length = dir.names.length + 1 := AbsPath.length_of_parent? hparent
        exact ih hdir hwithin hq (by omega)

/-- Following the names that are left leads to the place; a link is reached but not followed. -/
theorem leg_names (h : d.Sound) (hp : d.entry? p = some e) {last : Bool}
    (hlink : ∀ target, e = .link target → last = false) {front rest : List String}
    (hnames : front ++ rest = p.names) : d.leg last ⟨front⟩ rest = .ok (.ended (.found p)) := by
  induction rest generalizing front with
  | nil =>
    have hself : (⟨front⟩ : AbsPath) = p := by rw [← List.append_nil front, hnames]
    rw [leg, hself]
  | cons name rest ih =>
    have habove : p.isWithin ⟨front⟩ = true := AbsPath.isWithin_iff.mpr ⟨name :: rest, hnames⟩
    have hne : (⟨front⟩ : AbsPath) ≠ p := by
      rintro rfl
      simp at hnames
    have hdirectory : d.isDirectoryAt ⟨front⟩ = true :=
      isDirectoryAt_iff.mpr (h.directory_above hp habove hne)
    have hname : name ∈ p.names := hnames ▸ List.mem_append_right front List.mem_cons_self
    have hwritable := h.writable_of_entry hp
    have hchild : (front ++ [name]) ++ rest = p.names := by simpa using hnames
    have hnext := ih hchild
    rw [leg_name hdirectory (hwritable.proper name hname) (hwritable.names name hname).1,
      AbsPath.child]
    by_cases hrest : rest = []
    · have hself : (⟨front ++ [name]⟩ : AbsPath) = p := by
        rw [hrest, List.append_nil] at hchild
        rw [hchild]
      rw [hself] at hnext ⊢
      rw [hp]
      cases e with
      | link target => simp [hrest, hlink target rfl]
      | directory => exact hnext
      | file => exact hnext
    · have hbetween : p.isWithin ⟨front ++ [name]⟩ = true := AbsPath.isWithin_iff.mpr ⟨rest, hchild⟩
      have hneq : (⟨front ++ [name]⟩ : AbsPath) ≠ p := by
        rintro rfl
        exact hrest (List.append_right_eq_self.mp hchild)
      rw [h.directory_above hp hbetween hneq]
      exact hnext

theorem leg_text (h : d.Sound) (hp : d.entry? p = some e) {last : Bool}
    (hlink : ∀ target, e = .link target → last = false) :
    d.leg last .root (Path.pieces p.text) = .ok (.ended (.found p)) := by
  by_cases hroot : p = .root
  · subst hroot
    have hpieces : Path.pieces AbsPath.root.text = ["", ""] := by decide
    rw [hpieces, leg_root_slash, leg_root_slash, leg]
  · rw [AbsPath.pieces_text (h.writable_of_entry hp).proper hroot, leg_root_slash]
    exact h.leg_names hp hlink (List.nil_append p.names)

theorem seek_text (h : d.Sound) (hp : d.entry? p = some e) {last : Bool}
    (hlink : ∀ target, e = .link target → last = false) :
    d.seek last p.text = .ok (.found p) := by
  have hwritable := h.writable_of_entry hp
  have hnull : p.text.toList.contains '\x00' = false := by simpa using hwritable.null_not_mem
  have habsolute := AbsPath.isAbsolute_text p
  have hempty : p.text ≠ "" := by
    intro he
    rw [he] at habsolute
    cases habsolute
  have hshort : ¬ p.text.utf8ByteSize ≥ pathBytes := Nat.not_le.mpr hwritable.bytes
  have hstart : startOf d.workDir p.text = .root := if_pos habsolute
  have hfollow : d.follow last maxLinks .root (Path.pieces p.text) = .ok (.found p) := by
    unfold follow
    rw [h.leg_text hp hlink]
  rw [seek, hnull, if_neg Bool.false_ne_true, if_neg hempty, if_neg hshort, hstart, hfollow]

/-- What lies on disk and is no link is found by the text of its place. -/
theorem find?_text (h : d.Sound) (hp : d.entry? p = some e) (hlink : ∀ target, e ≠ .link target) :
    d.find? p.text = some p := by
  have hseek : d.seek true p.text = .ok (.found p) :=
    h.seek_text hp fun target he => absurd he (hlink target)
  simp [find?, find, hseek, bind, Except.bind, pure, Except.pure, Except.toOption]

/-- What lies on disk and is no link is its own place. -/
theorem place_text (h : d.Sound) (hp : d.entry? p = some e) (hlink : ∀ target, e ≠ .link target) :
    d.place p.text = p := by
  rw [place, h.find?_text hp hlink, Option.getD_some]

theorem modified?_file (h : d.Sound) {text : FileText} {time : Int}
    (hp : d.entry? p = some (.file text time)) : d.modified? p.text = some time := by
  rw [modified?, h.find?_text hp (by simp), Option.bind_some, modifiedAt?, hp, Option.map_some]

/-- A walk meets nothing that does not lie on disk. -/
theorem entry?_of_mem_walk (h : d.Sound) {path : String} {f : AbsPath × DiskEntry}
    (hf : f ∈ d.walk path) : d.entry? f.1 = some f.2 := by
  have hbelow : ∀ p, f ∈ d.descendants p → d.entry? f.1 = some f.2 := fun p hp =>
    h.entry?_of_mem (List.mem_filter.mp hp).1
  unfold walk at hf
  split at hf
  next p _ =>
    split at hf
    next =>
      cases hfind : d.find? path with
      | none => simp [hfind] at hf
      | some q => exact hbelow q (by simpa [hfind] using hf)
    next e _ he =>
      rcases List.mem_cons.mp hf with rfl | hf
      · exact he
      · exact hbelow p hf
    next => cases hf
  next => cases hf

/-- A walk from a directory meets the directory and all that lies below it. -/
theorem mem_walk_text_iff (h : d.Sound) (hp : d.entry? p = some .directory)
    {f : AbsPath × DiskEntry} : f ∈ d.walk p.text ↔
      f.1.isWithin p = true ∧ d.entry? f.1 = some f.2 := by
  have hwalk : d.walk p.text = (p, .directory) :: d.descendants p := by
    rw [walk, h.seek_text hp (by simp)]
    simp only [hp]
  rw [hwalk, List.mem_cons, descendants, List.mem_filter]
  constructor
  · rintro (rfl | ⟨hf, hbelow⟩)
    · exact ⟨AbsPath.isWithin_refl p, hp⟩
    · simp only [Bool.and_eq_true] at hbelow
      exact ⟨hbelow.1, h.entry?_of_mem hf⟩
  · rintro ⟨hwithin, hentry⟩
    obtain ⟨q, e⟩ := f
    by_cases hq : q = p
    · subst hq
      rw [hp] at hentry
      exact .inl (congrArg (Prod.mk q) (Option.some.inj hentry).symm)
    · refine .inr ⟨mem_entries_of_entry hentry ?_, by simp [hwithin, hq]⟩
      rintro rfl
      exact hq (AbsPath.eq_of_isWithin hwithin (AbsPath.isWithin_iff.mpr List.nil_prefix))

end Sound

end Disk

end RuleScope
