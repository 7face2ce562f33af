import RuleScope.Proofs.Disk.Finding
import RuleScope.Proofs.Sources.Removal

namespace RuleScope

namespace SourceTree

open Disk

variable {t t' : SourceTree} {d : Disk} {start : SyncStatus}

/-- What the tree makes of a place: a file, flagged if it is newer than the location file, or a folder. -/
def seen (t : SourceTree) (d : Disk) (q : AbsPath) : Mark :=
  match d.entry? q with
  | some (.file _ time) =>
    if q = t.root then ⟨true, false⟩ else ⟨false, isNewer (some time) t.locationTime⟩
  | _ => ⟨true, false⟩

/-- What is known is known as what it is. One flag puts the sources out of sync, and without any they are
as at the start. -/
structure Scanned (d : Disk) (start : SyncStatus) (t : SourceTree) : Prop where
  mark_eq : ∀ q k, t.mark? q = some k → k = t.seen d q
  status_cases : t.status = start ∨
    t.status = .outOfSync ∧ ∃ q k, t.mark? q = some k ∧ k.flagged = true

theorem seen_congr (hg : t.SameGround t') (d : Disk) (q : AbsPath) : t'.seen d q = t.seen d q := by
  rw [seen, seen, hg.root_eq, hg.time_eq]

theorem seen_directory {q : AbsPath} (hq : d.entry? q = some .directory) : t.seen d q = ⟨true, false⟩ := by
  rw [seen, hq]

theorem seen_root (t : SourceTree) (d : Disk) : t.seen d t.root = ⟨true, false⟩ := by
  rw [seen]
  split <;> simp

theorem seen_file {q : AbsPath} {text : FileText} {time : Int}
    (hq : d.entry? q = some (.file text time)) (hroot : q ≠ t.root) :
    t.seen d q = ⟨false, isNewer (some time) t.locationTime⟩ := by
  simp [seen, hq, hroot]

/-- What is known stays, and what is new is known as what it is. -/
theorem Scanned.grow (hs : Scanned d start t) (hground : t.SameGround t')
    (hnew : ∀ q k, t'.mark? q = some k → t.mark? q = some k ∨ k = t.seen d q)
    (hkept : ∀ q k, t.mark? q = some k → t'.mark? q = some k)
    (hstatus : t'.status = t.status ∨
      t'.status = .outOfSync ∧ ∃ q k, t'.mark? q = some k ∧ k.flagged = true) :
    Scanned d start t' := by
  refine ⟨fun q k hk => ?_, ?_⟩
  · rw [seen_congr hground]
    rcases hnew q k hk with hk | hk
    · exact hs.mark_eq q k hk
    · exact hk
  · rcases hstatus with hstatus | hout
    · rw [hstatus]
      rcases hs.status_cases with hstart | ⟨hout, q, k, hk, hflag⟩
      · exact .inl hstart
      · exact .inr ⟨hout, q, k, hkept q k hk, hflag⟩
    · exact .inr hout

/-- Everything above what lies on disk is a directory. -/
theorem seen_of_onWay (h : d.Sound) {p q : AbsPath} {e : DiskEntry} (hp : d.entry? p = some e)
    (hself : q = p → e = .directory) (hway : t.onWay p q = true) : t.seen d q = ⟨true, false⟩ := by
  simp only [onWay, Bool.and_eq_true] at hway
  by_cases hq : q = p
  · rw [seen_directory (by rw [hq, hp, hself hq])]
  · exact seen_directory (h.directory_above hp hway.2 hq)

/-- A folder that is entered on the way, where nothing is known yet. -/
theorem mark_or_folder {m : Option Mark} {k seen : Mark} {folder : Bool}
    (hseen : folder = true → seen = ⟨true, false⟩)
    (hk : m.or (if folder = true then some ⟨true, false⟩ else none) = some k) :
    m = some k ∨ k = seen := by
  cases m with
  | some k' => exact .inl hk
  | none =>
    cases folder with
    | false => cases hk
    | true => exact .inr ((Option.some.inj hk).symm.trans (hseen rfl).symm)

theorem Scanned.ensureFolder (hs : Scanned d start t) (h : d.Sound) {p : AbsPath}
    (hp : d.entry? p = some .directory) : Scanned d start (t.ensureFolder p) := by
  obtain ⟨hground, hstatus⟩ := ensureFolder_ground t p
  refine hs.grow hground (fun q k hk => ?_) (fun q k hk => ?_) (.inl hstatus)
  · rw [mark?_ensureFolder] at hk
    exact mark_or_folder (seen_of_onWay h hp fun _ => rfl) hk
  · rw [mark?_ensureFolder, hk, Option.some_or]

theorem Scanned.enters (hs : Scanned d start t) (h : d.Sound) {p : AbsPath} {text : FileText}
    {time : Int} (hp : d.entry? p = some (.file text time)) (hroot : p ≠ t.root)
    (hent : t.Enters t' d p) : Scanned d start t' := by
  have hself : t'.mark? p = some ⟨false, isNewer (some time) t.locationTime⟩ := by
    rw [hent.mark_eq, if_pos rfl, h.modified?_file hp]
  refine hs.grow hent.ground (fun q k hk => ?_) (fun q k hk => ?_) ?_
  · by_cases hq : q = p
    · subst hq
      exact .inr ((Option.some.inj (hk.symm.trans hself)).trans (seen_file hp hroot).symm)
    · rw [hent.mark_eq, if_neg hq] at hk
      exact mark_or_folder (seen_of_onWay h hp fun he => absurd he hq) hk
  · have hq : q ≠ p := by
      rintro rfl
      rw [hent.unknown] at hk
      cases hk
    rw [hent.mark_eq, if_neg hq, hk, Option.some_or]
  · rw [hent.status_eq, h.modified?_file hp]
    split
    next hnewer => exact .inr ⟨rfl, p, _, hself, hnewer⟩
    next => exact .inl rfl

theorem Scanned.meet (hs : Scanned d start t) (h : d.Sound) (hclosed : t.Closed)
    {f : AbsPath × DiskEntry} (hf : d.entry? f.1 = some f.2) :
    Scanned d start (SourceTree.meet d t f) := by
  obtain ⟨p, e⟩ := f
  cases e with
  | directory => exact hs.ensureFolder h hf
  | link => exact hs
  | file text time =>
    simp only [SourceTree.meet]
    split
    next hmet =>
      obtain ⟨-, hnone⟩ : p.isRuleSource = true ∧ t.node? p = none := by simpa using hmet
      have hunknown : t.mark? p = none := by rw [mark?, hnone, Option.map_none]
      rcases touchFile_cases t d p with ⟨-, he⟩ | ⟨-, hent | hflags⟩
      · rw [he]
        exact hs
      · refine hs.enters h hf ?_ hent
        rintro rfl
        have hroot := knows_iff.mp hclosed.root
        rw [hunknown] at hroot
        cases hroot
      · have hknown := hflags.known
        rw [hunknown] at hknown
        cases hknown
    next => exact hs

theorem Scanned.foldl_meet (hs : Scanned d start t) (h : d.Sound) (hclosed : t.Closed)
    {entries : List (AbsPath × DiskEntry)} (hentries : ∀ f ∈ entries, d.entry? f.1 = some f.2) :
    Scanned d start (entries.foldl (SourceTree.meet d) t) := by
  induction entries generalizing t with
  | nil => exact hs
  | cons f rest ih =>
    have hf := hentries f List.mem_cons_self
    exact ih (hs.meet h hclosed hf) (hclosed.gains (meet_gains hclosed d f)) fun g hg =>
      hentries g (List.mem_cons_of_mem f hg)

theorem new_scanned (d : Disk) (root locationFile : String) :
    Scanned d (new d root locationFile).status (new d root locationFile) := by
  refine ⟨fun q k hk => ?_, .inl rfl⟩
  have honly : q = (new d root locationFile).root ∧ k = ⟨true, false⟩ := by
    by_cases hq : d.place root = q
    · simp only [mark?, node?, new, Table.get?, hq, if_true] at hk
      cases hk
      exact ⟨hq.symm, rfl⟩
    · simp [mark?, node?, new, Table.get?, hq] at hk
  rw [honly.1, honly.2, seen_root]

theorem scan_scanned (h : d.Sound) (root locationFile : String) :
    Scanned d (new d root locationFile).status (scan d root locationFile) := by
  have hnew := new_scanned d root locationFile
  rw [scan, addDirectory, addPlace]
  split
  next => exact hnew.foldl_meet h (new_closed d root locationFile) fun f => h.entry?_of_mem_walk
  next => exact hnew

/-- A directory or a rule source. -/
def Sourced (d : Disk) (q : AbsPath) : Prop :=
  d.entry? q = some .directory ∨
    q.isRuleSource = true ∧ ∃ text time, d.entry? q = some (.file text time)

theorem mem_broughtBy_iff {f : AbsPath × DiskEntry} (hf : d.entry? f.1 = some f.2) {q : AbsPath} :
    q ∈ broughtBy f ↔ q = f.1 ∧ Sourced d q := by
  obtain ⟨p, e⟩ := f
  constructor
  · intro hq
    have hself : q = p ∧ (e = .directory ∨ p.isRuleSource = true ∧ ∃ text time, e = .file text time) := by
      cases e with
      | directory => exact ⟨List.mem_singleton.mp hq, .inl rfl⟩
      | link => cases hq
      | file text time =>
        simp only [broughtBy, broughtByFile] at hq
        split at hq
        next hsource => exact ⟨List.mem_singleton.mp hq, .inr ⟨hsource, text, time, rfl⟩⟩
        next => cases hq
    obtain ⟨rfl, hkind⟩ := hself
    refine ⟨rfl, ?_⟩
    rcases hkind with rfl | ⟨hsource, text, time, rfl⟩
    · exact .inl hf
    · exact .inr ⟨hsource, text, time, hf⟩
  · rintro ⟨rfl, hdirectory | ⟨hsource, text, time, hfile⟩⟩
    · obtain rfl := Option.some.inj (hf.symm.trans hdirectory)
      exact List.mem_singleton_self _
    · obtain rfl := Option.some.inj (hf.symm.trans hfile)
      simp [broughtBy, broughtByFile, hsource]

/-- The tree knows the root, and of what lies inside it the directories and rule sources. -/
theorem scan_knows_iff (h : d.Sound) (root locationFile : String) (q : AbsPath) :
    (scan d root locationFile).Knows q ↔
      q = d.place root ∨ q.isWithin (d.place root) = true ∧ Sourced d q := by
  have hclosed := new_closed d root locationFile
  have hknows := (addPlace_gains hclosed d (d.place (d.place root).text)).knows_iff q
  have hnew : (new d root locationFile).Knows q ↔ q = d.place root := by
    by_cases hq : d.place root = q
    · simp [Knows, node?, new, Table.get?, hq]
    · simp [Knows, node?, new, Table.get?, hq, Ne.symm hq]
  rw [hnew] at hknows
  refine hknows.trans (or_congr_right' fun hne => ?_)
  have hroot : (new d root locationFile).root = d.place root := rfl
  rw [reaches_iff, hroot, broughtBelow]
  constructor
  · rintro ⟨hq, p, hp, -, hpq⟩
    obtain ⟨f, hf, hp⟩ := List.mem_flatMap.mp (List.mem_ite_nil_right.mp hp).2
    have hentry := h.entry?_of_mem_walk hf
    obtain ⟨rfl, hsourced⟩ := (mem_broughtBy_iff hentry).mp hp
    refine ⟨hq, ?_⟩
    by_cases hqp : q = f.1
    · rwa [hqp]
    · exact .inl (h.directory_above hentry hpq hqp)
  · rintro ⟨hq, hsourced⟩
    obtain ⟨e, he⟩ : ∃ e, d.entry? q = some e := by
      rcases hsourced with he | ⟨-, text, time, he⟩ <;> exact ⟨_, he⟩
    have htop := h.directory_above he hq (Ne.symm hne)
    have hplace : d.place (d.place root).text = d.place root := h.place_text htop (by simp)
    rw [hplace, if_pos (AbsPath.isWithin_refl _)]
    have hmem : (q, e) ∈ d.walk (d.place root).text := (h.mem_walk_text_iff htop).mpr ⟨hq, he⟩
    exact ⟨hq, q, List.mem_flatMap.mpr ⟨(q, e), hmem, (mem_broughtBy_iff he).mpr ⟨rfl, hsourced⟩⟩, hq,
      AbsPath.isWithin_refl q⟩

/-- All directories and rule sources inside the root are known. -/
def Complete (t : SourceTree) (d : Disk) : Prop :=
  ∀ q, q.isWithin t.root = true → Sourced d q → t.Knows q

theorem Closed.ensureFolder_of_knows (h : t.Closed) {p : AbsPath}
    (hp : p.isWithin t.root = true → t.Knows p) : t.ensureFolder p = t := by
  unfold ensureFolder
  split
  next hin =>
    obtain ⟨names, hnames⟩ := AbsPath.isWithin_iff.mp hin
    have hself : (⟨t.root.names ++ names⟩ : AbsPath) = p := congrArg AbsPath.mk hnames
    rw [← hnames, List.drop_left]
    refine ensureNames_of_knows fun q hq _ hw => ?_
    rw [hself] at hw
    exact h.upward p q (hp hin) hw hq
  next => rfl

theorem Complete.meet_eq (hcomplete : t.Complete d) (hclosed : t.Closed)
    {f : AbsPath × DiskEntry} (hf : d.entry? f.1 = some f.2) : meet d t f = t := by
  obtain ⟨p, e⟩ := f
  cases e with
  | directory => exact hclosed.ensureFolder_of_knows fun hin => hcomplete p hin (.inl hf)
  | link => rfl
  | file text time =>
    simp only [meet]
    split
    next hmet =>
      obtain ⟨hsource, hnone⟩ : p.isRuleSource = true ∧ t.node? p = none := by simpa using hmet
      have hout : ¬ p.isWithin t.root = true := fun hin => by
        have hknown := hcomplete p hin (.inr ⟨hsource, text, time, hf⟩)
        rw [Knows, hnone] at hknown
        cases hknown
      simp [touchFile, hout]
    next => rfl

theorem Complete.addDirectory_eq (hcomplete : t.Complete d) (hclosed : t.Closed) (h : d.Sound)
    (path : String) : t.addDirectory d path = t := by
  rw [addDirectory, addPlace]
  split
  next =>
    have hentries : ∀ f ∈ d.walk (d.place path).text, d.entry? f.1 = some f.2 :=
      fun f hf => h.entry?_of_mem_walk hf
    generalize d.walk (d.place path).text = entries at hentries
    induction entries with
    | nil => rfl
    | cons f rest ih =>
      rw [List.foldl_cons, hcomplete.meet_eq hclosed (hentries f List.mem_cons_self)]
      exact ih fun g hg => hentries g (List.mem_cons_of_mem f hg)
  next => rfl

theorem scan_ground (d : Disk) (root locationFile : String) :
    (new d root locationFile).SameGround (scan d root locationFile) :=
  (addPlace_heeds _ d _).ground

theorem isNewer_iff {time : Int} {compiled? : Option Int} : isNewer (some time) compiled? = true ↔
    ∀ compiled, compiled? = some compiled → compiled < time := by
  cases compiled? <;> simp [isNewer]

/-- A node of a scan is a folder or a file, as what lies at its place. -/
theorem scan_node_cases (h : d.Sound) {root locationFile : String} {p : AbsPath} {n : SourceNode}
    (hn : (scan d root locationFile).node? p = some n) :
    n.mark = ⟨true, false⟩ ∧ (p = d.place root ∨
      p.isWithin (d.place root) = true ∧ d.entry? p = some .directory) ∨
    p ≠ d.place root ∧ p.isWithin (d.place root) = true ∧ p.isRuleSource = true ∧
      ∃ text time, d.entry? p = some (.file text time) ∧
        n.mark = ⟨false, isNewer (some time) (d.modified? (d.place locationFile).text)⟩ := by
  obtain ⟨hroot, htime⟩ := scan_ground d root locationFile
  have hmark : n.mark = (scan d root locationFile).seen d p :=
    (scan_scanned h root locationFile).mark_eq p n.mark (by rw [mark?, hn, Option.map_some])
  have hknown : (scan d root locationFile).Knows p := Option.isSome_iff_exists.mpr ⟨n, hn⟩
  by_cases htop : p = (scan d root locationFile).root
  · rw [htop, seen_root] at hmark
    exact .inl ⟨hmark, .inl (htop.trans hroot)⟩
  · have hne : p ≠ d.place root := fun he => htop (he.trans hroot.symm)
    obtain ⟨hin, hsourced⟩ := ((scan_knows_iff h root locationFile p).mp hknown).resolve_left hne
    rcases hsourced with hdirectory | ⟨hsource, text, time, hfile⟩
    · rw [seen_directory hdirectory] at hmark
      exact .inl ⟨hmark, .inr ⟨hin, hdirectory⟩⟩
    · rw [seen_file hfile htop, htime] at hmark
      exact .inr ⟨hne, hin, hsource, text, time, hfile, hmark⟩

section

variable (h : d.Sound) (root locationFile : String)
include h

theorem scan_exists_node_iff (p : AbsPath) : (∃ n, (scan d root locationFile).node? p = some n) ↔
    p = d.place root ∨ p.isWithin (d.place root) = true ∧ Sourced d p :=
  Option.isSome_iff_exists.symm.trans (scan_knows_iff h root locationFile p)

theorem scan_folder_iff (p : AbsPath) :
    (∃ n, (scan d root locationFile).node? p = some n ∧ n.isFolder = true) ↔
      p = d.place root ∨ p.isWithin (d.place root) = true ∧ d.entry? p = some .directory := by
  constructor
  · rintro ⟨n, hn, hfolder⟩
    rcases scan_node_cases h hn with ⟨-, hp⟩ | ⟨-, -, -, text, time, -, hmark⟩
    · exact hp
    · rw [show n.isFolder = false from congrArg Mark.folder hmark] at hfolder
      cases hfolder
  · intro hp
    obtain ⟨n, hn⟩ := (scan_exists_node_iff h root locationFile p).mpr
      (hp.imp_right fun ⟨hin, hdirectory⟩ => ⟨hin, .inl hdirectory⟩)
    rcases scan_node_cases h hn with ⟨hmark, -⟩ | ⟨hne, -, -, text, time, hfile, -⟩
    · exact ⟨n, hn, congrArg Mark.folder hmark⟩
    · obtain ⟨-, hdirectory⟩ := hp.resolve_left hne
      rw [hfile] at hdirectory
      cases hdirectory

theorem scan_file_iff (p : AbsPath) :
    (∃ n, (scan d root locationFile).node? p = some n ∧ n.isFolder = false) ↔
      p ≠ d.place root ∧ p.isWithin (d.place root) = true ∧ p.isRuleSource = true ∧
        ∃ text time, d.entry? p = some (.file text time) := by
  constructor
  · rintro ⟨n, hn, hfile⟩
    rcases scan_node_cases h hn with ⟨hmark, -⟩ | ⟨hne, hin, hsource, text, time, hentry, -⟩
    · rw [show n.isFolder = true from congrArg Mark.folder hmark] at hfile
      cases hfile
    · exact ⟨hne, hin, hsource, text, time, hentry⟩
  · rintro ⟨hne, hin, hsource, text, time, hfile⟩
    obtain ⟨n, hn⟩ := (scan_exists_node_iff h root locationFile p).mpr
      (.inr ⟨hin, .inr ⟨hsource, text, time, hfile⟩⟩)
    rcases scan_node_cases h hn with ⟨-, hp | ⟨-, hdirectory⟩⟩ | ⟨-, -, -, text', time', -, hmark⟩
    · exact absurd hp hne
    · rw [hfile] at hdirectory
      cases hdirectory
    · exact ⟨n, hn, congrArg Mark.folder hmark⟩

theorem scan_modified_iff {p : AbsPath} {n : SourceNode}
    (hn : (scan d root locationFile).node? p = some n) : n.modified = true ↔ n.isFolder = false ∧
      ∃ text time, d.entry? p = some (.file text time) ∧
        ∀ compiled, d.modified? (d.place locationFile).text = some compiled → compiled < time := by
  rcases scan_node_cases h hn with ⟨hmark, -⟩ | ⟨-, -, -, text, time, hfile, hmark⟩
  · have hfolder : n.isFolder = true := congrArg Mark.folder hmark
    have hmodified : n.modified = false := congrArg Mark.flagged hmark
    simp [hfolder, hmodified]
  · have hfolder : n.isFolder = false := congrArg Mark.folder hmark
    have hmodified : n.modified = isNewer (some time) (d.modified? (d.place locationFile).text) :=
      congrArg Mark.flagged hmark
    rw [hmodified, isNewer_iff, hfolder]
    constructor
    · exact fun hnewer => ⟨rfl, text, time, hfile, hnewer⟩
    · rintro ⟨-, text', time', hfile', hnewer⟩
      cases hfile.symm.trans hfile'
      exact hnewer

theorem scan_status_cases :
    (scan d root locationFile).status = .outOfSync ∧
      (∃ p n, (scan d root locationFile).node? p = some n ∧ n.modified = true) ∨
    (scan d root locationFile).status =
      (if (d.modified? (d.place locationFile).text).isSome then .synced else .unknown) ∧
      (scan d root locationFile).status ≠ .outOfSync ∧
      ¬ ∃ p n, (scan d root locationFile).node? p = some n ∧ n.modified = true := by
  have halarm : ∀ p n, (scan d root locationFile).node? p = some n → n.modified = true →
      (scan d root locationFile).status = .outOfSync := fun p n hn hmodified =>
    scan_alarmed d root locationFile p n.mark (by rw [mark?, hn, Option.map_some]) hmodified
  rcases (scan_scanned h root locationFile).status_cases with hstart | ⟨hout, q, k, hk, hflag⟩
  · have hcalm : (scan d root locationFile).status ≠ .outOfSync := by
      rw [hstart, new]
      dsimp only
      split <;> simp
    refine .inr ⟨hstart, hcalm, ?_⟩
    rintro ⟨p, n, hn, hmodified⟩
    exact hcalm (halarm p n hn hmodified)
  · obtain ⟨n, hn, rfl⟩ := Option.map_eq_some_iff.mp hk
    exact .inl ⟨hout, q, n, hn, hflag⟩

theorem scan_addDirectory (path : String) :
    (scan d root locationFile).addDirectory d path = scan d root locationFile := by
  have hroot : (scan d root locationFile).root = d.place root :=
    (scan_ground d root locationFile).root_eq
  have hcomplete : (scan d root locationFile).Complete d := fun q hq hsourced =>
    (scan_knows_iff h root locationFile q).mpr (.inr ⟨hroot ▸ hq, hsourced⟩)
  exact hcomplete.addDirectory_eq (scan_closed d root locationFile) h path

end

/-- A scan of a root: its folders are the root and all directories below, its files the rule sources
below, each once. A file is modified unless the location file is at least as new, and the sources are out
of sync if any file is; otherwise it matters whether there is a location file. To add directories again
changes nothing. -/
theorem scan_finds_sources (h : d.Sound) (root locationFile : String) :
    let t := scan d root locationFile
    let top := d.place root
    let compiled? := d.modified? (d.place locationFile).text
    (t.nodes.map Prod.fst).Nodup ∧
    (∀ p, (∃ n, t.node? p = some n ∧ n.isFolder = true) ↔
      p = top ∨ p.isWithin top = true ∧ d.entry? p = some .directory) ∧
    (∀ p, (∃ n, t.node? p = some n ∧ n.isFolder = false) ↔
      p ≠ top ∧ p.isWithin top = true ∧ p.isRuleSource = true ∧
        ∃ text time, d.entry? p = some (.file text time)) ∧
    (∀ p n, t.node? p = some n → (n.modified = true ↔ n.isFolder = false ∧
      ∃ text time, d.entry? p = some (.file text time) ∧
        ∀ compiled, compiled? = some compiled → compiled < time)) ∧
    (t.status = .outOfSync ↔ ∃ p n, t.node? p = some n ∧ n.modified = true) ∧
    (t.status ≠ .outOfSync → t.status = if compiled?.isSome then .synced else .unknown) ∧
    ∀ paths : List String, paths.foldl (fun t path => t.addDirectory d path) t = t := by
  intro t top compiled?
  have hkeys : (t.nodes.map Prod.fst).Nodup := ((new_tied d root locationFile).addPlace d _).keys
  have hagain : ∀ paths : List String, paths.foldl (fun t path => t.addDirectory d path) t = t := by
    intro paths
    induction paths with
    | nil => rfl
    | cons path rest ih =>
      rw [List.foldl_cons, scan_addDirectory h root locationFile path]
      exact ih
  refine ⟨hkeys, scan_folder_iff h root locationFile, scan_file_iff h root locationFile,
    fun p n => scan_modified_iff h root locationFile, ?_, fun hcalm => ?_, hagain⟩
  · rcases scan_status_cases h root locationFile with ⟨hout, hmodified⟩ | ⟨-, hcalm, hnone⟩
    · exact iff_of_true hout hmodified
    · exact iff_of_false hcalm hnone
  · exact (scan_status_cases h root locationFile).elim (fun hout => absurd hout.1 hcalm) And.left

/-- A file that is newer than the location file, in a folder below the root. -/
def editedDisk : Disk :=
  ⟨[(⟨["work"]⟩, .directory), (⟨["work", "RuleLoc.yml"]⟩, .file "" 200),
    (⟨["work", "rules"]⟩, .directory), (⟨["work", "rules", "main.rudi"]⟩, .file "" 100),
    (⟨["work", "rules", "notes.txt"]⟩, .file "" 400), (⟨["work", "rules", "sub"]⟩, .directory),
    (⟨["work", "rules", "sub", "rate.rudi"]⟩, .file "" 300)], ⟨["work"]⟩, 500⟩

theorem scan_edited_finds_sources : editedDisk.Sound ∧
    (scan editedDisk "rules" "RuleLoc.yml").status = .outOfSync ∧
    (∃ n, (scan editedDisk "rules" "RuleLoc.yml").node? ⟨["work", "rules", "sub", "rate.rudi"]⟩ = some n ∧
      n.isFolder = false ∧ n.modified = true) ∧
    ["rules/sub", "rules", "rules/sub"].foldl (fun t path => t.addDirectory editedDisk path)
      (scan editedDisk "rules" "RuleLoc.yml") = scan editedDisk "rules" "RuleLoc.yml" := by
  have hsound : editedDisk.Sound := by decide +kernel
  obtain ⟨-, -, hfiles, hmodified, hstatus, -, hagain⟩ :=
    scan_finds_sources hsound "rules" "RuleLoc.yml"
  have hrate : editedDisk.entry? ⟨["work", "rules", "sub", "rate.rudi"]⟩ = some (.file "" 300) := rfl
  have htop : editedDisk.place "rules" = ⟨["work", "rules"]⟩ := by decide +kernel
  obtain ⟨n, hn, hfile⟩ := (hfiles ⟨["work", "rules", "sub", "rate.rudi"]⟩).mpr
    ⟨by rw [htop]; decide, by rw [htop]; decide, by decide +kernel, "", 300, hrate⟩
  have hnewer : n.modified = true := by
    refine (hmodified _ n hn).mpr ⟨hfile, "", 300, hrate, fun compiled hcompiled => ?_⟩
    have hlocation : editedDisk.modified? (editedDisk.place "RuleLoc.yml").text = some 200 := by
      decide +kernel
    rw [hlocation] at hcompiled
    cases hcompiled
    decide
  exact ⟨hsound, hstatus.mpr ⟨_, n, hn, hnewer⟩, ⟨n, hn, hfile, hnewer⟩, hagain _⟩

end SourceTree

end RuleScope
