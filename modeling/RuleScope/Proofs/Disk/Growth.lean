import Mathlib.Tactic.SplitIfs
import RuleScope.Disk.Change

namespace RuleScope

/-- An entry without the text of a file. -/
def DiskEntry.kind : DiskEntry → DiskEntry
  | .file _ _ => .file "" 0
  | e => e

namespace Disk

/-- Whatever lies on `d` lies on `d'` too, files perhaps with another text. -/
structure Grows (d d' : Disk) : Prop where
  workDir_eq : d'.workDir = d.workDir
  kind_eq : ∀ p e, d.entry? p = some e → (d'.entry? p).map DiskEntry.kind = some e.kind

/-- Whatever lies on `d` lies on `d'` too, as it is. -/
structure Extends (d d' : Disk) : Prop where
  workDir_eq : d'.workDir = d.workDir
  entry?_eq : ∀ p e, d.entry? p = some e → d'.entry? p = some e

section

variable {d d' d'' : Disk} {p : AbsPath} {e : DiskEntry}

theorem isDirectoryAt_iff : d.isDirectoryAt p = true ↔ d.entry? p = some .directory := by
  simp [isDirectoryAt]

theorem ne_root_of_entry? (h : d.entry? p ≠ some .directory) : p ≠ .root := by
  rintro rfl
  exact h rfl

theorem ne_root_of_free (h : d.entry? p = none) : p ≠ .root :=
  ne_root_of_entry? (d := d) (by simp [h])

theorem entry?_put (hp : p ≠ .root) (q : AbsPath) :
    Disk.entry? (d.put p e) q = if q = p then some e else d.entry? q := by
  unfold entry? put
  by_cases hq : q = p
  · subst hq
    simp [hp, Table.get?_put_self]
  · simp [hq, Table.get?_put_of_ne hq]

theorem Extends.refl (d : Disk) : d.Extends d := ⟨rfl, fun _ _ h => h⟩

theorem Extends.trans (h : d.Extends d') (h' : d'.Extends d'') : d.Extends d'' :=
  ⟨h'.workDir_eq.trans h.workDir_eq, fun p e he => h'.entry?_eq p e (h.entry?_eq p e he)⟩

theorem Extends.grows (h : d.Extends d') : d.Grows d' :=
  ⟨h.workDir_eq, fun p e he => by rw [h.entry?_eq p e he, Option.map_some]⟩

/-- Nothing on disk changes as time goes by. -/
theorem extends_now (d : Disk) (time : Int) : d.Extends { d with now := time } :=
  ⟨rfl, fun _ _ h => h⟩

theorem put_extends (hp : d.entry? p = none) (e : DiskEntry) : d.Extends (d.put p e) := by
  refine ⟨rfl, fun q f hq => ?_⟩
  have hne : q ≠ p := by
    rintro rfl
    simp [hp] at hq
  rw [entry?_put (ne_root_of_free hp), if_neg hne, hq]

theorem Grows.trans (h : d.Grows d') (h' : d'.Grows d'') : d.Grows d'' := by
  refine ⟨h'.workDir_eq.trans h.workDir_eq, fun p e he => ?_⟩
  obtain ⟨e', he', hkind⟩ := Option.map_eq_some_iff.mp (h.kind_eq p e he)
  rw [h'.kind_eq p e' he', hkind]

/-- A file can be written over. -/
theorem put_grows {text text' : FileText} {time time' : Int}
    (hp : d.entry? p = some (.file text time)) : d.Grows (d.put p (.file text' time')) := by
  have hroot : p ≠ .root := ne_root_of_entry? (d := d) (by simp [hp])
  refine ⟨rfl, fun q e hq => ?_⟩
  rw [entry?_put hroot]
  split
  next h =>
    subst h
    cases hp.symm.trans hq
    rfl
  next => simp [hq]

namespace Grows

variable (h : d.Grows d')
include h

theorem directory (hp : d.isDirectoryAt p = true) : d'.isDirectoryAt p = true := by
  rw [isDirectoryAt_iff] at hp ⊢
  obtain ⟨e, he, hkind⟩ := Option.map_eq_some_iff.mp (h.kind_eq p _ hp)
  cases e <;> simp_all [DiskEntry.kind]

theorem link {target : String} (hp : d.entry? p = some (.link target)) :
    d'.entry? p = some (.link target) := by
  obtain ⟨e, he, hkind⟩ := Option.map_eq_some_iff.mp (h.kind_eq p _ hp)
  cases e <;> simp_all [DiskEntry.kind]

theorem solid (hp : d.entry? p = some e) (he : ∀ target, e ≠ .link target) :
    ∃ e', d'.entry? p = some e' ∧ ∀ target, e' ≠ .link target := by
  obtain ⟨e', he', hkind⟩ := Option.map_eq_some_iff.mp (h.kind_eq p _ hp)
  refine ⟨e', he', ?_⟩
  rintro target rfl
  cases e <;> simp_all [DiskEntry.kind]

end Grows

end

/-- What becomes of the end of a path on a disk that has grown: what was found is found, and a free
name may be that of a file now. -/
inductive Place.Becomes (d : Disk) : Place → Place → Prop
  | found (p : AbsPath) : Becomes d (.found p) (.found p)
  | written {p : AbsPath} {text : FileText} {time : Int} (h : d.entry? p = some (.file text time)) :
    Becomes d (.free p false) (.found p)

inductive Leg.Becomes (d : Disk) : Leg → Leg → Prop
  | ended {place place' : Place} (h : place.Becomes d place') : Becomes d (.ended place) (.ended place')
  | link (here : AbsPath) (pieces : List String) : Becomes d (.link here pieces) (.link here pieces)

section

variable {d d' : Disk} {last : Bool} {here : AbsPath} {pieces : List String}

theorem leg_free {p : AbsPath} {slashed : Bool}
    (h : d.leg last here pieces = .ok (.ended (.free p slashed))) : d.entry? p = none := by
  fun_induction leg d last here pieces
  case case3 ih => exact ih h
  case case4 ih => exact ih h
  case case10 ih => exact ih h
  case case6 hnone _ =>
    cases h
    exact hnone
  all_goals cases h

theorem Grows.entered (grows : d.Grows d') (h : ¬(!d.isDirectoryAt here) = true) :
    ¬(!d'.isDirectoryAt here) = true := by
  simpa using grows.directory (by simpa using h)

theorem Grows.leg_becomes (grows : d.Grows d') {r r' : Leg} (h : d.leg last here pieces = .ok r)
    (hr : r.Becomes d' r') : d'.leg last here pieces = .ok r' := by
  fun_induction leg d last here pieces
  case case1 =>
    cases h
    obtain ⟨⟨⟩⟩ := hr
    rfl
  case case3 hdir hpiece ih =>
    rw [leg, if_neg (grows.entered hdir), if_pos hpiece]
    exact ih h
  case case4 hdir hpiece ih =>
    rw [leg, if_neg (grows.entered hdir), if_neg hpiece, if_pos rfl]
    exact ih h
  case case6 hdir hpiece hup hshort _ hrest =>
    cases h
    rw [leg, if_neg (grows.entered hdir), if_neg hpiece, if_neg hup, if_neg hshort]
    cases hr with
    | ended hplace =>
      generalize hslashed : (!_) = slashed at hplace
      cases hplace with
      | written hfile =>
        obtain rfl : _ = [] := by simpa using hslashed
        rw [hfile]
        rfl
  case case8 hdir hpiece hup hshort target hlink hlast =>
    cases h
    rw [leg, if_neg (grows.entered hdir), if_neg hpiece, if_neg hup, if_neg hshort, grows.link hlink]
    obtain ⟨⟨⟩⟩ := hr
    exact if_pos hlast
  case case9 hdir hpiece hup hshort target hlink hlast =>
    cases h
    rw [leg, if_neg (grows.entered hdir), if_neg hpiece, if_neg hup, if_neg hshort, grows.link hlink]
    cases hr
    exact if_neg hlast
  case case10 hdir hpiece hup hshort e hsolid hentry ih =>
    rw [leg, if_neg (grows.entered hdir), if_neg hpiece, if_neg hup, if_neg hshort]
    obtain ⟨e', he', hsolid'⟩ := grows.solid hentry hsolid
    rw [he']
    split
    next h => cases h
    next target h => exact absurd (Option.some.inj h) (hsolid' target)
    next => exact ih h
  all_goals cases h

theorem follow_free {links : Nat} {p : AbsPath} {slashed : Bool}
    (h : d.follow last links here pieces = .ok (.free p slashed)) : d.entry? p = none := by
  fun_induction follow d last links here pieces
  case case2 hleg =>
    cases h
    exact leg_free hleg
  case case4 ih => exact ih h
  all_goals cases h

theorem Grows.follow_becomes (grows : d.Grows d') {links : Nat} {place place' : Place}
    (h : d.follow last links here pieces = .ok place) (hplace : place.Becomes d' place') :
    d'.follow last links here pieces = .ok place' := by
  fun_induction follow d last links here pieces
  case case2 hleg =>
    cases h
    unfold follow
    rw [grows.leg_becomes hleg (.ended hplace)]
  case case4 here pieces _ hleg ih =>
    unfold follow
    rw [grows.leg_becomes hleg (.link here pieces)]
    exact ih h
  all_goals cases h

end

section

variable {d d' : Disk} {last : Bool} {path text : String}

theorem seek_free {p : AbsPath} {slashed : Bool} (h : d.seek last path = .ok (.free p slashed)) :
    d.entry? p = none := by
  unfold seek at h
  split_ifs at h
  exact follow_free h

theorem Grows.seek_becomes (grows : d.Grows d') {place place' : Place}
    (h : d.seek last path = .ok place) (hplace : place.Becomes d' place') :
    d'.seek last path = .ok place' := by
  unfold seek at h ⊢
  rw [grows.workDir_eq]
  split_ifs at h ⊢
  exact grows.follow_becomes h hplace

theorem find_eq_ok_iff {p : AbsPath} : d.find path = .ok p ↔ d.seek true path = .ok (.found p) := by
  unfold find
  cases d.seek true path with
  | error e => simp [bind, Except.bind]
  | ok place => cases place <;> simp [bind, Except.bind, pure, Except.pure]

theorem Grows.find (grows : d.Grows d') {p : AbsPath} (h : d.find path = .ok p) :
    d'.find path = .ok p :=
  find_eq_ok_iff.mpr (grows.seek_becomes (find_eq_ok_iff.mp h) (.found p))

theorem read_eq_ok_iff {content : FileText} : d.read path = .ok content ↔
    ∃ p time, d.find path = .ok p ∧ d.entry? p = some (.file content time) := by
  unfold read
  cases d.find path with
  | error e => simp [bind, Except.bind]
  | ok p =>
    simp only [bind, Except.bind]
    split <;> simp_all [pure, Except.pure]

theorem readText_eq_ok_iff :
    d.readText path = .ok text ↔ ∃ p time, d.find path = .ok p ∧ d.entry? p = some (.file text time) := by
  rw [← read_eq_ok_iff]
  unfold readText
  cases d.read path with
  | error e => simp [bind, Except.bind]
  | ok content =>
    obtain ⟨before, whole⟩ := content
    cases whole <;> simp [bind, Except.bind, pure, Except.pure]

theorem modified?_of_find {p : AbsPath} {content : FileText} {time : Int} (h : d.find path = .ok p)
    (hfile : d.entry? p = some (.file content time)) : d.modified? path = some time := by
  rw [modified?, find?, h]
  simp [Except.toOption, modifiedAt?, hfile]

/-- A file that can be read lies somewhere. -/
theorem has_of_readText (h : d.readText path = .ok text) : d.has path = true := by
  obtain ⟨p, _, hp, _⟩ := readText_eq_ok_iff.mp h
  simp [has, find?, hp, Except.toOption]

theorem Extends.readText (h : d.Extends d') (ht : d.readText path = .ok text) :
    d'.readText path = .ok text := by
  obtain ⟨p, time, hp, hfile⟩ := readText_eq_ok_iff.mp ht
  exact readText_eq_ok_iff.mpr ⟨p, time, h.grows.find hp, h.entry?_eq p _ hfile⟩

/-- A path that ends where something was put leads to it. -/
theorem find_put {p : AbsPath} {place : Place} {e : DiskEntry} (hseek : d.seek true path = .ok place)
    (grows : d.Grows (d.put p e)) (hplace : place.Becomes (d.put p e) (.found p)) :
    (d.put p e).find path = .ok p :=
  find_eq_ok_iff.mpr (grows.seek_becomes hseek hplace)

/-- What was written lies where its path leads, and nothing else has changed. -/
theorem write_ok (h : d.write path text = .ok d') : ∃ p, p ≠ .root ∧
    d' = d.put p (.file text d.now) ∧ d.Grows d' ∧ d'.find path = .ok p := by
  simp only [write, writeAt, bind, Except.bind] at h
  cases hseek : d.seek true path with
  | error e => simp [hseek] at h
  | ok place =>
    simp only [hseek] at h
    cases place with
    | free p slashed =>
      have hnone := seek_free hseek
      have hroot : p ≠ .root := ne_root_of_free hnone
      cases slashed with
      | true => cases h
      | false =>
        cases h
        have grows := (put_extends hnone (.file text d.now)).grows
        have hfile := entry?_put (d := d) (e := .file text d.now) hroot p
        rw [if_pos rfl] at hfile
        exact ⟨p, hroot, rfl, grows, find_put hseek grows (.written hfile)⟩
    | found p =>
      cases hold : d.entry? p with
      | none => simp [hold] at h
      | some e =>
        simp only [hold] at h
        cases e with
        | directory => cases h
        | link target => cases h
        | file before time =>
          have hroot : p ≠ .root := ne_root_of_entry? (d := d) (by simp [hold])
          cases h
          exact ⟨p, hroot, rfl, put_grows hold, find_put hseek (put_grows hold) (.found p)⟩

/-- What was written is read back. -/
theorem readText_of_write (h : d.write path text = .ok d') : d'.readText path = .ok text := by
  obtain ⟨p, hroot, rfl, -, hfind⟩ := write_ok h
  exact readText_eq_ok_iff.mpr ⟨p, d.now, hfind, by rw [entry?_put hroot, if_pos rfl]⟩

/-- `d'` is `d` with directories where nothing was. -/
inductive AddsDirectories (d : Disk) : Disk → Prop
  | refl : AddsDirectories d d
  | put {d' : Disk} {p : AbsPath} (h : AddsDirectories d d') (hp : d'.entry? p = none) :
    AddsDirectories d (d'.put p .directory)

namespace AddsDirectories

theorem trans {d'' : Disk} (h : d.AddsDirectories d') (h' : d'.AddsDirectories d'') :
    d.AddsDirectories d'' := by
  induction h' with
  | refl => exact h
  | put _ hp ih => exact ih.put hp

theorem toExtends (h : d.AddsDirectories d') : d.Extends d' := by
  induction h with
  | refl => exact .refl d
  | put _ hp ih => exact ih.trans (put_extends hp _)

theorem nodup (h : d.AddsDirectories d') (hkeys : (d.entries.map Prod.fst).Nodup) :
    (d'.entries.map Prod.fst).Nodup := by
  induction h with
  | refl => exact hkeys
  | put _ _ ih => exact Table.nodup_put ih _

/-- Whatever is new is a directory. -/
theorem entry?_cases (h : d.AddsDirectories d') {p : AbsPath} {e : DiskEntry}
    (he : d'.entry? p = some e) : d.entry? p = some e ∨ e = .directory := by
  induction h with
  | refl => exact .inl he
  | put _ hq ih =>
    rw [entry?_put (ne_root_of_free hq)] at he
    split at he
    next => exact .inr (Option.some.inj he).symm
    next => exact ih he

end AddsDirectories

theorem makeDirectory_adds (h : d.makeDirectory path = .ok d') : d.AddsDirectories d' := by
  simp only [makeDirectory, bind, Except.bind] at h
  cases hseek : d.seek false path with
  | error e => simp [hseek] at h
  | ok place =>
    cases place with
    | found p => simp [hseek] at h
    | free p slashed =>
      obtain rfl : d.put p .directory = d' := by simpa [hseek, pure, Except.pure] using h
      exact .put .refl (seek_free hseek)

theorem ensureDirectory_adds (h : d.ensureDirectory path = .ok d') : d.AddsDirectories d' := by
  unfold ensureDirectory at h
  split at h
  next hmade =>
    cases h
    exact makeDirectory_adds hmade
  next =>
    split at h
    next =>
      cases h
      exact .refl
    next => cases h

theorem makeParts_adds (d : Disk) (parts : List Path.Part) :
    d.AddsDirectories (d.makeParts parts).1 := by
  induction parts with
  | nil => exact .refl
  | cons part above ih =>
    simp only [makeParts]
    split
    next hmade => exact ensureDirectory_adds hmade
    next =>
      split
      next habove =>
        rw [habove] at ih
        exact ih
      next habove =>
        rw [habove] at ih
        split
        next hmade => exact ih.trans (ensureDirectory_adds hmade)
        next => exact ih
    next => exact .refl

/-- Making directories leaves everything that lies on a disk as it is, and adds nothing else. -/
theorem makeDirectories_adds (d : Disk) (path : String) :
    d.AddsDirectories (d.makeDirectories path).1 :=
  makeParts_adds d _

end
end Disk
end RuleScope
