import RuleScope.Proofs.Disk.Joining
import RuleScope.Proofs.Snapshot.Autosave
import RuleScope.Proofs.Snapshot.Names

namespace RuleScope

/-- A snapshot to be saved, under a name or as that of a session. -/
inductive Saving where
  | named (name : String) (snapshot : Snapshot)
  | session (sourceRoot : String) (snapshot : Snapshot)

namespace Saving

def name : Saving → String
  | named name _ => name
  | session sourceRoot _ => Snapshot.sessionName sourceRoot

def snapshot : Saving → Snapshot
  | named _ snapshot => snapshot
  | session _ snapshot => snapshot

end Saving

namespace SnapshotStore

open Disk Snapshot

/-- Saves what is to be saved at a time. -/
def perform (s : SnapshotStore) (d : Disk) (time : Int) : Saving → Disk × Except StoreFault String
  | .named name snapshot => s.save { d with now := time } name snapshot
  | .session sourceRoot snapshot => s.saveSession { d with now := time } sourceRoot snapshot

/-- The disk after some savings, each at its time, the failed ones included. -/
def performAll (s : SnapshotStore) (d : Disk) (savings : List (Int × Saving)) : Disk :=
  savings.foldl (fun d v => (s.perform d v.1 v.2).1) d

/-- `d'` is `d` with directories, and with no more than the file of this saving. -/
structure Stores (s : SnapshotStore) (v : Saving) (d d' : Disk) : Prop where
  grows : d.Grows d'
  nodup : (d.entries.map Prod.fst).Nodup → (d'.entries.map Prod.fst).Nodup
  entry?_cases : ∀ q e, d'.entry? q = some e → d.entry? q = some e ∨ e = .directory ∨
    ∃ path time, s.pathOf v.name = .ok path ∧ d'.find path = .ok q ∧ e = .file v.snapshot.toText time

variable {s : SnapshotStore} {v : Saving} {d d' : Disk} {name path text : String} {p q : AbsPath}
  {saved : List Saving}

theorem pathOf_eq_ok_iff : s.pathOf name = .ok path ↔ path? s.dir name = some path := by
  unfold pathOf
  split <;> simp_all

theorem stores_of_adds (h : d.AddsDirectories d') : s.Stores v d d' :=
  ⟨h.toExtends.grows, h.nodup, fun _ _ he => (h.entry?_cases he).imp_right .inl⟩

theorem save_stores (d : Disk) (hpath : s.pathOf v.name = .ok path) :
    s.Stores v d (writeFile d path v.snapshot.toText).1 := by
  obtain ⟨made, adds, ⟨e, h⟩ | ⟨d', hwrite, h⟩⟩ := writeFile_cases d path v.snapshot.toText
  · rw [h]
    exact stores_of_adds adds
  · rw [h]
    obtain ⟨p, hroot, rfl, grows, hfind⟩ := write_ok hwrite
    refine ⟨adds.toExtends.grows.trans grows, fun hkeys => Table.nodup_put (adds.nodup hkeys) _,
      fun q e he => ?_⟩
    rw [entry?_put hroot] at he
    split at he
    next hq =>
      subst hq
      cases he
      exact .inr (.inr ⟨path, _, hpath, hfind, rfl⟩)
    next => exact (adds.entry?_cases he).imp_right .inl

theorem save_eq (s : SnapshotStore) (d : Disk) (name : String) (snapshot : Snapshot) :
    (s.save d name snapshot).1 = match s.pathOf name with
      | .ok path => (writeFile d path snapshot.toText).1
      | .error _ => d := by
  unfold save
  cases s.pathOf name with
  | error e => rfl
  | ok path =>
    dsimp only
    cases writeFile d path snapshot.toText with
    | mk d' fault => cases fault <;> rfl

/-- What a saving does to the disk, whatever comes of it. -/
theorem perform_stores (s : SnapshotStore) (d : Disk) (time : Int) (v : Saving) :
    s.Stores v d (s.perform d time v).1 := by
  have hsave : (s.perform d time v).1 = (s.save { d with now := time } v.name v.snapshot).1 := by
    cases v <;> rfl
  rw [hsave, save_eq]
  have hnow := (d.extends_now time).grows
  cases hpath : s.pathOf v.name with
  | error e => exact ⟨hnow, id, fun _ _ h => .inl h⟩
  | ok path =>
    obtain ⟨grows, nodup, entries⟩ := save_stores { d with now := time } hpath
    exact ⟨hnow.trans grows, nodup, entries⟩

/-- `e` at `q` is the file of a saving in `p`. -/
structure IsFileOf (s : SnapshotStore) (p : AbsPath) (d : Disk) (q : AbsPath) (e : DiskEntry)
    (v : Saving) : Prop where
  place_eq : q = p.child (fileOf (stem v.name))
  pathOf_eq : s.pathOf v.name = .ok (Path.join s.dir (fileOf (stem v.name)))
  find_eq : d.find (Path.join s.dir (fileOf (stem v.name))) = .ok q
  exists_time : ∃ time, e = .file v.snapshot.toText time

/-- In `p` lie no more than directories and the files of what was saved. -/
def HoldsOnly (s : SnapshotStore) (p : AbsPath) (saved : List Saving) (d : Disk) : Prop :=
  ∀ q e, q.parent? = some p → d.entry? q = some e →
    e = .directory ∨ ∃ v ∈ saved, s.IsFileOf p d q e v

theorem IsFileOf.grows {e : DiskEntry} (h : s.IsFileOf p d q e v) (grows : d.Grows d') :
    s.IsFileOf p d' q e v :=
  ⟨h.place_eq, h.pathOf_eq, grows.find h.find_eq, h.exists_time⟩

theorem HoldsOnly.not_link (h : s.HoldsOnly p saved d) (hq : q.parent? = some p) (target : String) :
    d.entry? q ≠ some (.link target) := by
  intro hlink
  rcases h q _ hq hlink with he | ⟨v, -, hv⟩
  · cases he
  · obtain ⟨time, he⟩ := hv.exists_time
    cases he

/-- A file of the store lies in the directory of the store, unless its name is that of a link. -/
theorem exists_directory_of_find (hdir : s.dir ≠ "") (hpath : s.pathOf name = .ok path)
    (hfind : d.find path = .ok q) : ∃ p, d.find s.dir = .ok p ∧ d.isDirectoryAt p = true ∧
      ((∀ target, d.entry? (p.child (fileOf (stem name))) ≠ some (.link target)) →
        q = p.child (fileOf (stem name))) := by
  have hname := isName_of_path? (pathOf_eq_ok_iff.mp hpath)
  obtain ⟨-, rfl⟩ := path?_eq_some (pathOf_eq_ok_iff.mp hpath)
  obtain ⟨p, hp, hisdir, hentry⟩ := seek_join hname hdir (find_eq_ok_iff.mp hfind)
  refine ⟨p, hp, hisdir, fun hlink => ?_⟩
  split at hentry
  next => cases hentry
  next target he => exact absurd he (hlink target)
  next => exact Place.found.inj hentry

/-- A saving adds to the directory no more than its own file. -/
theorem HoldsOnly.step (h : s.HoldsOnly p saved d) (stores : s.Stores v d d') (hdir : s.dir ≠ "")
    (hp : ∀ p', d'.find s.dir = .ok p' → p' = p) : s.HoldsOnly p (saved ++ [v]) d' := by
  intro q e hq he
  rcases stores.entry?_cases q e he with hold | rfl | ⟨path, time, hpath, hfind, rfl⟩
  · refine (h q e hq hold).imp_right fun ⟨w, hw, hfile⟩ => ?_
    exact ⟨w, List.mem_append_left _ hw, hfile.grows stores.grows⟩
  · exact .inl rfl
  · obtain ⟨p', hfound, -, hplace⟩ := exists_directory_of_find hdir hpath hfind
    obtain rfl := hp p' hfound
    obtain ⟨-, rfl⟩ := path?_eq_some (pathOf_eq_ok_iff.mp hpath)
    refine .inr ⟨v, by simp, hplace fun target hlink => ?_, hpath, hfind, time, rfl⟩
    -- A link is nothing that a saving adds, and none was there before.
    rcases stores.entry?_cases _ _ hlink with hold | he | ⟨_, _, -, -, he⟩
    · exact h.not_link (AbsPath.parent?_child _ _) target hold
    · cases he
    · cases he

theorem performAll_grows (s : SnapshotStore) (d : Disk) (savings : List (Int × Saving)) :
    d.Grows (s.performAll d savings) := by
  induction savings generalizing d with
  | nil => exact (Extends.refl d).grows
  | cons v rest ih => exact (s.perform_stores d v.1 v.2).grows.trans (ih _)

theorem performAll_nodup {savings : List (Int × Saving)} (h : (d.entries.map Prod.fst).Nodup) :
    ((s.performAll d savings).entries.map Prod.fst).Nodup := by
  induction savings generalizing d with
  | nil => exact h
  | cons v rest ih => exact ih ((s.perform_stores d v.1 v.2).nodup h)

theorem HoldsOnly.performAll {savings : List (Int × Saving)} (h : s.HoldsOnly p saved d)
    (hdir : s.dir ≠ "") (hp : (s.performAll d savings).find s.dir = .ok p) :
    s.HoldsOnly p (saved ++ savings.map Prod.snd) (s.performAll d savings) := by
  induction savings generalizing d saved with
  | nil => simpa [SnapshotStore.performAll] using h
  | cons v rest ih =>
    -- Where the directory is found after this saving, it is found in the end.
    have hnext : ∀ p', (s.perform d v.1 v.2).1.find s.dir = .ok p' → p' = p := fun p' hp' =>
      Except.ok.inj (((s.performAll_grows _ rest).find hp').symm.trans hp)
    have hstep := h.step (s.perform_stores d v.1 v.2) hdir hnext
    rw [List.map_cons, List.append_cons]
    exact ih hstep hp

end SnapshotStore

end RuleScope
