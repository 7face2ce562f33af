import RuleScope.Proofs.Snapshot.Storing

namespace RuleScope

open Snapshot

theorem Path.splitExtension_fileOf {t : String} (h : t ≠ "") :
    splitExtension (fileOf t) = (t, some fileExtension) := by
  have hreverse : (fileOf t).toList.reverse = 'n' :: 'o' :: 's' :: 'j' :: '.' :: t.toList.reverse := by
    rw [toList_fileOf]
    simp
  unfold splitExtension
  dsimp only
  rw [hreverse]
  cases hchars : t.toList.reverse with
  | nil => exact absurd (String.toList_inj.mp (List.reverse_eq_nil_iff.mp hchars)) h
  | cons c cs =>
    have ht : t = String.ofList (c :: cs).reverse := by
      rw [← hchars, List.reverse_reverse, String.ofList_toList]
    simp [fileExtension, ht]

namespace StoredSnapshot

theorem le_iff {a b : StoredSnapshot} : le a b = true ↔
    b.modified < a.modified ∨ a.modified = b.modified ∧ a.name ≤ b.name := by
  simp [le]

theorem le_trans (a b c : StoredSnapshot) (hab : le a b = true) (hbc : le b c = true) :
    le a c = true := by
  rw [le_iff] at *
  rcases hab with hab | ⟨hab, hname⟩ <;> rcases hbc with hbc | ⟨hbc, hname'⟩
  · exact .inl (by omega)
  · exact .inl (by omega)
  · exact .inl (by omega)
  · exact .inr ⟨by omega, String.le_trans hname hname'⟩

theorem le_total (a b : StoredSnapshot) : (le a b || le b a) = true := by
  rw [Bool.or_eq_true, le_iff, le_iff]
  rcases Int.lt_trichotomy a.modified b.modified with h | h | h
  · exact .inr (.inl h)
  · exact (String.le_total a.name b.name).imp (.inr ⟨h, ·⟩) (.inr ⟨h.symm, ·⟩)
  · exact .inl (.inl h)

/-- What is left out of a listing is not newer than what it shows, and it is left out only if the listing
is full. -/
theorem mem_take_mergeSort {stored : List StoredSnapshot} {e : StoredSnapshot} (h : e ∈ stored) (n : Nat) :
    e ∈ (stored.mergeSort le).take n ∨ ((stored.mergeSort le).take n).length = n ∧
      ∀ f ∈ (stored.mergeSort le).take n, e.modified ≤ f.modified := by
  have hsorted := List.pairwise_mergeSort le_trans le_total stored
  have hmem : e ∈ stored.mergeSort le := List.mem_mergeSort.mpr h
  rw [← List.take_append_drop n (stored.mergeSort le)] at hsorted hmem
  rcases List.mem_append.mp hmem with hlisted | hleft
  · exact .inl hlisted
  · refine .inr ⟨?_, fun f hf => ?_⟩
    · have hlong := List.length_pos_of_mem hleft
      rw [List.length_drop] at hlong
      rw [List.length_take]
      omega
    · rcases le_iff.mp ((List.pairwise_append.mp hsorted).2.2 f hf e hleft) with hlt | ⟨heq, -⟩
      · omega
      · omega

end StoredSnapshot

namespace SnapshotStore

open Disk

/-- What is shown of the file of a saving. -/
structure Shows (s : SnapshotStore) (d : Disk) (v : Saving) (e : StoredSnapshot) : Prop where
  name_eq : stem v.name = e.name
  pathOf_eq : s.pathOf v.name = .ok e.path
  readText_eq : d.readText e.path = .ok v.snapshot.toText
  modified_eq : d.modified? e.path = some e.modified

/-- `d` comes of some savings, which filled the directory of the store: at the place where it is in the
end, there was nothing at the start, or no more than directories. -/
structure FilledBy (s : SnapshotStore) (start : Disk) (savings : List (Int × Saving)) (d : Disk) :
    Prop where
  nodup : (start.entries.map Prod.fst).Nodup
  bare : ∀ p, d.find s.dir = .ok p → ∀ f ∈ start.children p, f.2 = .directory
  performed : d = s.performAll start savings

variable {s : SnapshotStore} {start d : Disk} {savings : List (Int × Saving)} {saved : List Saving}
  {v : Saving} {p : AbsPath} {e : StoredSnapshot} {es : List StoredSnapshot} {name path text : String}

def listingAt (s : SnapshotStore) (d : Disk) (p : AbsPath) : List StoredSnapshot :=
  (((d.children p).filterMap s.stored?).mergeSort StoredSnapshot.le).take maxListed

theorem recent_of_find_error {fault : DiskFault} (h : d.find s.dir = .error fault) :
    s.recent d = .ok [] := by
  have hmissing : d.has s.dir = false := by simp [Disk.has, Disk.find?, h, Except.toOption]
  rw [recent, hmissing]
  rfl

theorem recent_of_find (h : d.find s.dir = .ok p) : s.recent d =
    if d.isDirectoryAt p then .ok (s.listingAt d p) else .error (.disk .notDirectory) := by
  have hthere : d.has s.dir = true := by simp [Disk.has, Disk.find?, h, Except.toOption]
  rw [recent, hthere, if_neg (by decide), Disk.list, h]
  by_cases hp : d.isDirectoryAt p = true <;>
    simp [bind, Except.bind, pure, Except.pure, hp, listingAt]

/-- The listing is given where the directory is one or is missing. -/
theorem recent_isSome_iff (s : SnapshotStore) (d : Disk) : (s.recent d).toOption.isSome = true ↔
    (d.has s.dir = true → d.isDirectory s.dir = true) := by
  rw [Disk.has, Disk.isDirectory, Disk.find?]
  cases hfind : d.find s.dir with
  | error fault =>
    rw [recent_of_find_error hfind]
    simp [Except.toOption]
  | ok p =>
    rw [recent_of_find hfind]
    by_cases hp : d.isDirectoryAt p = true <;> simp [Except.toOption, hp]

theorem recent_eq_ok (h : s.recent d = .ok es) :
    es = [] ∧ (∀ p, d.find s.dir ≠ .ok p) ∨ ∃ p, d.find s.dir = .ok p ∧ es = s.listingAt d p := by
  cases hfind : d.find s.dir with
  | error fault =>
    rw [recent_of_find_error hfind] at h
    exact .inl ⟨(Except.ok.inj h).symm, nofun⟩
  | ok p =>
    rw [recent_of_find hfind] at h
    split at h
    next => exact .inr ⟨p, rfl, (Except.ok.inj h).symm⟩
    next => cases h

/-- Of a directory with few files none is left out. -/
theorem exists_recent_of_few (hp : d.find s.dir = .ok p) (hdir : d.isDirectoryAt p = true)
    (hfew : (d.children p).length ≤ maxListed) : ∃ es, s.recent d = .ok es ∧
      ∀ f ∈ d.children p, ∀ e, s.stored? f = some e → e ∈ es := by
  refine ⟨s.listingAt d p, by rw [recent_of_find hp, if_pos hdir], fun f hf e he => ?_⟩
  have hlength := List.length_filterMap_le s.stored? (d.children p)
  rw [listingAt, List.take_of_length_le (by rw [List.length_mergeSort]; omega), List.mem_mergeSort]
  exact List.mem_filterMap.mpr ⟨f, hf, he⟩

theorem FilledBy.nodup_entries (h : s.FilledBy start savings d) : (d.entries.map Prod.fst).Nodup :=
  h.performed ▸ performAll_nodup h.nodup

theorem FilledBy.holdsOnly (h : s.FilledBy start savings d) (hp : d.find s.dir = .ok p) :
    s.HoldsOnly p (savings.map Prod.snd) d := by
  have hdir : s.dir ≠ "" := by
    intro he
    rw [he] at hp
    cases hp
  have hstart : s.HoldsOnly p [] start := by
    intro q e hq he
    exact .inl (h.bare p hp (q, e) ((mem_children_iff h.nodup).mpr ⟨hq, he⟩))
  obtain ⟨-, -, rfl⟩ := h
  exact hstart.performAll hdir hp

theorem stored?_file (ht : name ≠ "") (time : Int) :
    s.stored? (p.child (fileOf name), .file text time) =
      some ⟨name, Path.join s.dir (fileOf name), time⟩ := by
  have hlast : (p.child (fileOf name)).fileName? = some (fileOf name) := by
    simp [AbsPath.child, AbsPath.fileName?]
  simp only [stored?, hlast, Path.splitExtension_fileOf ht, if_true]

theorem IsFileOf.stored?_eq {q : AbsPath} {f : DiskEntry} (h : s.IsFileOf p d q f v) :
    ∃ time, f = .file v.snapshot.toText time ∧ s.stored? (q, f) =
      some ⟨stem v.name, Path.join s.dir (fileOf (stem v.name)), time⟩ := by
  obtain ⟨time, rfl⟩ := h.exists_time
  have hvalid := (path?_eq_some (pathOf_eq_ok_iff.mp h.pathOf_eq)).1
  exact ⟨time, rfl, h.place_eq ▸ stored?_file (isValidStem_iff.mp hvalid).1.1 time⟩

/-- What is listed shows the file of a saving. -/
theorem shows_of_stored? (hkeys : (d.entries.map Prod.fst).Nodup) (h : s.HoldsOnly p saved d)
    {f : AbsPath × DiskEntry} (hf : f ∈ d.children p) (he : s.stored? f = some e) :
    d.find e.path = .ok f.1 ∧ ∃ v ∈ saved, s.Shows d v e := by
  obtain ⟨q, entry⟩ := f
  obtain ⟨hparent, hentry⟩ := (mem_children_iff hkeys).mp hf
  rcases h q entry hparent hentry with rfl | ⟨v, hv, hfile⟩
  · cases he
  · obtain ⟨time, rfl, hstored⟩ := hfile.stored?_eq
    cases hstored.symm.trans he
    have hfound := hfile.find_eq
    exact ⟨hfound, v, hv, rfl, hfile.pathOf_eq, readText_eq_ok_iff.mpr ⟨q, time, hfound, hentry⟩,
      modified?_of_find hfound hentry⟩

/-- A file that is read by its name is among those of which the latest are listed. -/
theorem exists_stored (hdir : s.dir ≠ "") (hkeys : (d.entries.map Prod.fst).Nodup)
    (h : ∀ p, d.find s.dir = .ok p → s.HoldsOnly p saved d) (hpath : s.pathOf name = .ok path)
    (htext : d.readText path = .ok text) : ∃ p, d.find s.dir = .ok p ∧
      ∃ e ∈ (d.children p).filterMap s.stored?, e.path = path ∧ d.modified? path = some e.modified := by
  obtain ⟨q, time, hfound, hentry⟩ := readText_eq_ok_iff.mp htext
  obtain ⟨p, hp, -, hplace⟩ := exists_directory_of_find hdir hpath hfound
  obtain rfl := hplace fun target => (h p hp).not_link (AbsPath.parent?_child _ _) target
  obtain ⟨hvalid, rfl⟩ := path?_eq_some (pathOf_eq_ok_iff.mp hpath)
  have hmem : (p.child (fileOf (stem name)), DiskEntry.file text time) ∈ d.children p :=
    (mem_children_iff hkeys).mpr ⟨AbsPath.parent?_child _ _, hentry⟩
  have hstored : s.stored? (p.child (fileOf (stem name)), .file text time) =
      some ⟨stem name, Path.join s.dir (fileOf (stem name)), time⟩ :=
    stored?_file (isValidStem_iff.mp hvalid).1.1 time
  exact ⟨p, hp, _, List.mem_filterMap.mpr ⟨_, hmem, hstored⟩, rfl, modified?_of_find hfound hentry⟩

/-- The name that is shown leads to the file, unless it ends in `.json` itself. -/
theorem Shows.pathOf_iff (h : s.Shows d v e) :
    s.pathOf e.name = .ok e.path ↔ ∀ t, e.name ≠ t ++ ".json" := by
  have hpath := pathOf_eq_ok_iff.mp h.pathOf_eq
  rw [pathOf_eq_ok_iff, ← h.name_eq]
  constructor
  · intro hshown
    exact stem_eq_self_iff.mp (stem_eq_of_parts_eq hshown hpath rfl)
  · intro hname
    rw [path?_congr (stem_eq_self hname), hpath]

theorem nodup_listingAt (hkeys : (d.entries.map Prod.fst).Nodup) (h : s.HoldsOnly p saved d) :
    ((s.listingAt d p).map fun e => d.find? e.path).Nodup := by
  have hplaces : (d.children p).Pairwise fun f g => f.1 ≠ g.1 :=
    (List.pairwise_map.mp hkeys).sublist List.filter_sublist
  -- The path of an entry leads to its own place, so places tell the entries apart.
  have hfound : ∀ f ∈ d.children p, ∀ e, s.stored? f = some e → d.find? e.path = some f.1 := by
    intro f hf e he
    rw [Disk.find?, (shows_of_stored? hkeys h hf he).1]
    rfl
  have hstored : (((d.children p).filterMap s.stored?).map fun e => d.find? e.path).Nodup := by
    rw [List.Nodup, List.pairwise_map, List.pairwise_filterMap]
    refine hplaces.imp_of_mem fun {f g} hf hg hne e he e' he' => ?_
    rw [hfound f hf e he, hfound g hg e' he']
    exact fun hsame => hne (Option.some.inj hsame)
  have hperm := (List.mergeSort_perm ((d.children p).filterMap s.stored?) StoredSnapshot.le).map
    fun e => d.find? e.path
  exact (hperm.nodup_iff.mpr hstored).sublist ((List.take_sublist _ _).map _)

/-- A store that was filled by saving lists files of what was saved, each once and at most ten, and
leaves out none that is newer than one it lists. What it shows of a file is the name and the time of the
file, and the name leads back to the file exactly if it does not end in `.json` itself; then what is
loaded by the name is what the file holds. -/
theorem filled_store_lists (h : s.FilledBy start savings d) :
    ((s.recent d).toOption.isSome = true ↔ (d.has s.dir = true → d.isDirectory s.dir = true)) ∧
    ∀ es, s.recent d = .ok es →
      (∀ e ∈ es, (s.pathOf e.name = .ok e.path ↔ ∀ t, e.name ≠ t ++ ".json") ∧
        ∃ v ∈ savings, s.Shows d v.2 e ∧ ((∀ t, e.name ≠ t ++ ".json") →
          s.load d e.name = (ofText v.2.snapshot.toText).mapError (.corrupt e.path))) ∧
      (es.map fun e => d.find? e.path).Nodup ∧ es.length ≤ 10 ∧
      ∀ name path text time, s.pathOf name = .ok path → d.readText path = .ok text →
        d.modified? path = some time → (∃ e ∈ es, e.path = path) ∨
          (s.dir ≠ "" → es.length = 10) ∧ ∀ e ∈ es, time ≤ e.modified := by
  have hkeys := h.nodup_entries
  refine ⟨recent_isSome_iff s d, fun es hes => ?_⟩
  rcases recent_eq_ok hes with ⟨rfl, hmissing⟩ | ⟨p, hp, rfl⟩
  · refine ⟨nofun, List.nodup_nil, by simp, fun name path text time hpath htext _ => .inr ⟨?_, nofun⟩⟩
    intro hdir
    obtain ⟨q, _, hfound, -⟩ := readText_eq_ok_iff.mp htext
    obtain ⟨p, hp, -⟩ := exists_directory_of_find hdir hpath hfound
    exact absurd hp (hmissing p)
  · have holds := h.holdsOnly hp
    refine ⟨fun e he => ?_, nodup_listingAt hkeys holds, List.length_take_le _ _,
      fun name path text time hpath htext htime => ?_⟩
    · obtain ⟨f, hf, hstored⟩ := List.mem_filterMap.mp (List.mem_mergeSort.mp (List.mem_of_mem_take he))
      obtain ⟨-, v, hv, hshows⟩ := shows_of_stored? hkeys holds hf hstored
      obtain ⟨w, hw, rfl⟩ := List.mem_map.mp hv
      refine ⟨hshows.pathOf_iff, w, hw, hshows, fun hname => ?_⟩
      rw [load, hshows.pathOf_iff.mpr hname]
      exact read_of_readText hshows.readText_eq
    · by_cases hdir : s.dir = ""
      · rw [hdir] at hp
        cases hp
      · obtain ⟨p', hp', e, he, rfl, htime'⟩ := exists_stored hdir hkeys (fun p hp => h.holdsOnly hp)
          hpath htext
        obtain rfl : p = p' := Except.ok.inj (hp.symm.trans hp')
        obtain rfl : time = e.modified := Option.some.inj (htime.symm.trans htime')
        refine (StoredSnapshot.mem_take_mergeSort he maxListed).imp (fun hlisted => ⟨e, hlisted, rfl⟩) ?_
        exact fun hleft => ⟨fun _ => hleft.1, hleft.2⟩

/-- Two savings of which the second is listed under the name of the first with `.json` behind it. -/
def nestedSavings : List (Int × Saving) := [(1, .named "deep" .empty), (2, .named "deep.json.json" .blank)]

def nestedDisk : Disk := performAll ⟨"/saved"⟩ ⟨[], .root, 0⟩ nestedSavings

theorem nestedDisk_filled : FilledBy ⟨"/saved"⟩ ⟨[], .root, 0⟩ nestedSavings nestedDisk :=
  ⟨List.nodup_nil, fun _ _ _ hf => absurd (List.mem_filter.mp hf).1 List.not_mem_nil, rfl⟩

theorem nestedDisk_recent : ∃ es, recent ⟨"/saved"⟩ nestedDisk = .ok es ∧
    ⟨"deep", "/saved/deep.json", 1⟩ ∈ es ∧ ⟨"deep.json", "/saved/deep.json.json", 2⟩ ∈ es := by
  have hfind : (nestedDisk.find "/saved").toOption = some ⟨["saved"]⟩ := by decide +kernel
  obtain ⟨es, hes, hlisted⟩ := exists_recent_of_few (s := ⟨"/saved"⟩) (eq_ok_of_toOption hfind)
    (by decide +kernel) (by decide +kernel)
  have hfirst : (⟨["saved", "deep.json"]⟩, .file Snapshot.empty.toText 1) ∈
      nestedDisk.children ⟨["saved"]⟩ := by decide +kernel
  have hsecond : (⟨["saved", "deep.json.json"]⟩, .file Snapshot.blank.toText 2) ∈
      nestedDisk.children ⟨["saved"]⟩ := by decide +kernel
  exact ⟨es, hes, hlisted _ hfirst _ (by decide +kernel), hlisted _ hsecond _ (by decide +kernel)⟩

theorem filled_store_lists_nested : ∃ es, recent ⟨"/saved"⟩ nestedDisk = .ok es ∧
    ⟨"deep", "/saved/deep.json", 1⟩ ∈ es ∧ ⟨"deep.json", "/saved/deep.json.json", 2⟩ ∈ es ∧
    pathOf ⟨"/saved"⟩ "deep" = .ok "/saved/deep.json" ∧
    pathOf ⟨"/saved"⟩ "deep.json" ≠ .ok "/saved/deep.json.json" ∧ es.length ≤ 10 := by
  obtain ⟨es, hes, hfirst, hsecond⟩ := nestedDisk_recent
  obtain ⟨hshown, -, hfew, -⟩ := (filled_store_lists nestedDisk_filled).2 es hes
  have hplain : ∀ t, "deep" ≠ t ++ ".json" := stem_eq_self_iff.mp (by decide +kernel)
  have hnested : "deep.json" = "deep" ++ ".json" := rfl
  exact ⟨es, hes, hfirst, hsecond, (hshown _ hfirst).1.mpr hplain,
    fun hpath => (hshown _ hsecond).1.mp hpath "deep" hnested, hfew⟩

/-- A name that is listed can lead to another file. -/
theorem not_listed_name_leads_back : ¬ ∀ (s : SnapshotStore) (start d : Disk)
    (savings : List (Int × Saving)), s.FilledBy start savings d → ∀ es, s.recent d = .ok es →
      ∀ e ∈ es, s.pathOf e.name = .ok e.path := by
  intro hall
  obtain ⟨es, hes, -, hsecond⟩ := nestedDisk_recent
  have hpath := hall _ _ _ _ nestedDisk_filled es hes _ hsecond
  have hother : pathOf ⟨"/saved"⟩ "deep.json" = .ok "/saved/deep.json" :=
    eq_ok_of_toOption (by decide +kernel)
  exact absurd (Except.ok.inj (hother.symm.trans hpath)) (by decide)

end SnapshotStore

end RuleScope
