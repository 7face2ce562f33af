import RuleScope.Proofs.Location.Isolation
import RuleScope.Proofs.RuleModel.Building
import RuleScope.Proofs.Session.Reached
import RuleScope.Proofs.Snapshot.Merging

namespace RuleScope

open RuleTree Snapshot

namespace RuleModel

/-- What keeps a location file that is there from giving a model. -/
inductive Unloadable (d : Disk) (locationFile sourceRoot : String) : LoadFault → Prop
  | unreadable {cause : DiskFault} (there : d.has locationFile = true)
      (h : d.readText locationFile = .error cause) :
      Unloadable d locationFile sourceRoot (.disk cause)
  | notYaml {text : String} (htext : d.readText locationFile = .ok text)
      (h : Yaml.Value.ofText? text = none) :
      Unloadable d locationFile sourceRoot (.malformed locationFile .notYaml)
  | badRoot {text : String} {v : Yaml.Value} {fault : Location.TextFault}
      (htext : d.readText locationFile = .ok text) (hv : Yaml.Value.ofText? text = some v)
      (h : Location.RootFault v fault) :
      Unloadable d locationFile sourceRoot (.malformed locationFile fault)
  | ruleAtRoot {text : String} {l : Location} (htext : d.readText locationFile = .ok text)
      (hl : Location.ofText text = .ok l) (h : l.isImport = false) :
      Unloadable d locationFile sourceRoot (.build (.rootNotImport l.label))
  | repeatedId {text : String} {l : Location} {id : RuleId}
      (htext : d.readText locationFile = .ok text) (hl : Location.ofText text = .ok l)
      (himport : l.isImport = true) (h : Location.FirstRepeat l.ruleIds id) :
      Unloadable d locationFile sourceRoot (.build (.duplicateRuleId id))

theorem ofText_eq_error_iff {text : String} {fault : Location.TextFault} :
    Location.ofText text = .error fault ↔
      (Yaml.Value.ofText? text = none ∧ fault = .notYaml) ∨
        ∃ v, Yaml.Value.ofText? text = some v ∧ Location.RootFault v fault := by
  unfold Location.ofText
  cases Yaml.Value.ofText? text with
  | none => simp [eq_comm]
  | some v => simp [Location.ofValue_eq_error_iff]

variable {d : Disk} {locationFile sourceRoot : String}

theorem load_eq_none_iff : load d locationFile sourceRoot = .ok none ↔ d.has locationFile = false := by
  unfold load
  cases d.has locationFile with
  | false => simp
  | true =>
    simp only [Bool.not_true, Bool.false_eq_true, if_false]
    split
    next => simp
    next =>
      split
      next => simp
      next => split <;> simp

theorem load_of_readText {text : String} (htext : d.readText locationFile = .ok text) :
    load d locationFile sourceRoot = do
      let l ← (Location.ofText text).mapError (.malformed locationFile)
      let m ← (build d.place sourceRoot l).mapError .build
      return some m := by
  simp only [load, Disk.has_of_readText htext, htext, Bool.not_true, Bool.false_eq_true, if_false]
  cases Location.ofText text with
  | error fault => rfl
  | ok l =>
    cases h : build d.place sourceRoot l <;>
      simp [h, Except.mapError, bind, Except.bind, pure, Except.pure]

theorem load_of_ofText {text : String} {l : Location} (htext : d.readText locationFile = .ok text)
    (hl : Location.ofText text = .ok l) {e : LoadFault} :
    load d locationFile sourceRoot = .error e ↔
      ∃ cause, RuleTree.build d.place sourceRoot l = .error cause ∧ e = .build cause := by
  simp only [← build_eq_error_iff]
  rw [load_of_readText htext, hl]
  cases hbuild : build d.place sourceRoot l <;>
    simp [hbuild, Except.mapError, bind, Except.bind, pure, Except.pure, eq_comm]

theorem load_eq_error_iff {e : LoadFault} :
    load d locationFile sourceRoot = .error e ↔ Unloadable d locationFile sourceRoot e := by
  constructor
  · intro h
    cases hread : d.readText locationFile with
    | error cause =>
      cases there : d.has locationFile with
      | false => simp [load, there] at h
      | true =>
        simp only [load, there, hread, Bool.not_true, Bool.false_eq_true, if_false] at h
        cases h
        exact .unreadable there hread
    | ok text =>
      cases hl : Location.ofText text with
      | error fault =>
        rw [load_of_readText hread, hl] at h
        cases h
        rcases ofText_eq_error_iff.mp hl with ⟨hnone, rfl⟩ | ⟨v, hv, hroot⟩
        · exact .notYaml hread hnone
        · exact .badRoot hread hv hroot
      | ok l =>
        obtain ⟨cause, hbuild, rfl⟩ := (load_of_ofText hread hl).mp h
        rcases RuleTree.build_eq_error_iff.mp hbuild with ⟨hrule, rfl⟩ | ⟨himport, id, hid, rfl⟩
        · exact .ruleAtRoot hread hl hrule
        · exact .repeatedId hread hl himport hid
  · intro h
    cases h with
    | unreadable there h => simp [load, there, h]
    | notYaml htext h =>
      rw [load_of_readText htext, ofText_eq_error_iff.mpr (Or.inl ⟨h, rfl⟩)]
      rfl
    | badRoot htext hv h =>
      rw [load_of_readText htext, ofText_eq_error_iff.mpr (Or.inr ⟨_, hv, h⟩)]
      rfl
    | ruleAtRoot htext hl h =>
      exact (load_of_ofText htext hl).mpr ⟨_, RuleTree.build_eq_error_iff.mpr (Or.inl ⟨h, rfl⟩), rfl⟩
    | repeatedId htext hl himport h =>
      exact (load_of_ofText htext hl).mpr
        ⟨_, RuleTree.build_eq_error_iff.mpr (Or.inr ⟨himport, _, h, rfl⟩), rfl⟩

end RuleModel

namespace Session

variable {settings : Settings} {d₀ d : Disk} {s : Session}

/-- A rebuild that does not fail counts and is announced, with the model that it finds. -/
theorem rebuild_announced (h : (s.rebuild d).2 = none) :
    (s.rebuild d).1.version = s.version + 1 ∧
      (s.rebuild d).1.announcements =
        s.announcements ++ [⟨s.version + 1, (s.rebuild d).1.model.isSome⟩] ∧
      ((s.rebuild d).1.model.isSome = true ↔ d.has s.locationFile = true) := by
  rcases rebuild_cases s d with ⟨e, -, hr⟩ | ⟨hl, hr⟩ | ⟨m, hl, hr⟩
  · rw [hr] at h
    cases h
  · have hfile := RuleModel.load_eq_none_iff.mp hl
    rw [hr, hfile]
    exact ⟨rfl, rfl, by simp [announce, abandon]⟩
  · have hfile : d.has s.locationFile = true := by
      rw [← Bool.not_eq_false, ← RuleModel.load_eq_none_iff, hl]
      simp
    obtain ⟨m', hmodel, -⟩ := adopt_spec (s := s.remember) (d := d) (RuleModel.load_new hl)
    have hpresent : (s.remember.adopt d m).announce.model = some m' := hmodel
    rw [hr, hfile, hpresent]
    refine ⟨rfl, ?_, by simp⟩
    rw [announce, hmodel]
    rfl

theorem Grounded.remembered_remember (h : s.Grounded settings d₀) :
    s.remember.remembered = s.remembered := by
  cases hm : s.model with
  | none =>
    rw [remembered_of_none (s := s.remember) hm]
    rfl
  | some m =>
    rw [remembered_of_model (s := s.remember) hm, remembered_of_model hm, remember,
      remembered_of_model hm]
    exact retrieve_retrieve_self (h.consistent m hm).wellFormed h.storable.ordered

/-- The announcements have the numbers of the rebuilds. -/
def Numbered (s : Session) : Prop :=
  s.announcements.map Announcement.version = List.range' 1 s.version

theorem rebuild_numbered (h : s.Numbered) (d : Disk) : (s.rebuild d).1.Numbered := by
  cases hr : (s.rebuild d).2 with
  | none =>
    obtain ⟨hversion, hannouncements, -⟩ := rebuild_announced hr
    rw [Numbered, hversion, hannouncements, List.map_append, h, List.range'_concat]
    simp [Nat.add_comm]
  | some e =>
    rcases rebuild_cases s d with ⟨e', -, hr'⟩ | ⟨-, hr'⟩ | ⟨m, -, hr'⟩
    · rw [hr']
      exact h
    · rw [hr'] at hr
      cases hr
    · rw [hr'] at hr
      cases hr

theorem step_numbered (h : s.Numbered) (e : Event) : (s.step e).Numbered := by
  cases e with
  | rebuild d => exact rebuild_numbered h d
  | act a => exact h
  | applySnapshot d name =>
    rw [step]
    rcases applySnapshot_cases s d name with ⟨_, _, _, _, _, _, _, happly⟩ | ⟨hkeep, _⟩
    · rw [happly]
      exact h
    · rwa [hkeep]
  | remember => exact h

theorem Reached.numbered (h : Reached settings d₀ s) : s.Numbered := by
  induction h with
  | started d => rfl
  | stepped _ e ih => exact step_numbered ih e
  | followed _ _ _ ih => exact ih

/-- In any session, a rebuild that finds a location file which gives no model fails for that reason, and
all that it changes is that the memory takes in what is remembered anyway. Any other rebuild succeeds,
has the next number, and is announced once under it, with whether there is a model now. -/
theorem rebuild_keeps_or_announces (h : Reached settings d₀ s) (d : Disk) :
    (∀ e, RuleModel.Unloadable d s.locationFile s.sourceRoot e →
      s.rebuild d = ({ s with memory := s.remembered }, some e) ∧
        (s.rebuild d).1.remembered = s.remembered) ∧
    ((∀ e, ¬ RuleModel.Unloadable d s.locationFile s.sourceRoot e) →
      (s.rebuild d).2 = none ∧ (s.rebuild d).1.version = s.version + 1 ∧
        (s.rebuild d).1.announcements =
          s.announcements ++ [⟨s.version + 1, (s.rebuild d).1.model.isSome⟩] ∧
        ((s.rebuild d).1.model.isSome = true ↔ d.has s.locationFile = true)) ∧
    s.announcements.map Announcement.version = List.range' 1 s.version := by
  refine ⟨fun e he => ?_, fun hnone => ?_, h.numbered⟩
  · have hload := RuleModel.load_eq_error_iff.mpr he
    rcases rebuild_cases s d with ⟨e', hl, hr⟩ | ⟨hl, -⟩ | ⟨m, hl, -⟩
    · cases hl.symm.trans hload
      rw [hr]
      exact ⟨rfl, h.grounded.remembered_remember⟩
    · cases hl.symm.trans hload
    · cases hl.symm.trans hload
  · have hok : (s.rebuild d).2 = none := by
      rcases rebuild_cases s d with ⟨e, hl, -⟩ | ⟨-, hr⟩ | ⟨m, -, hr⟩
      · exact absurd (RuleModel.load_eq_error_iff.mp hl) (hnone e)
      · rw [hr]
      · rw [hr]
    exact ⟨hok, rebuild_announced hok⟩

/-- A session with a chosen rule. -/
def decidedSession : Session :=
  (ofSettings (locationDisk includedText) locationSettings).step (.act (.edit (.setState 2 .ifTrue)))

def repeatedText : String :=
  "label: main\nchildren: [\x7blabel: sub, children: [\x7blabel: bye, id: 2\x7d]\x7d, \x7blabel: hi, id: 2\x7d]"

/-- An id that comes again below leaves the chosen rule, and a compile without rules is announced. -/
theorem rebuild_keeps_or_announces_decided :
    (decidedSession.rebuild (locationDisk repeatedText)).2 =
        some (.build (.duplicateRuleId ⟨2, by decide, by decide⟩)) ∧
      (decidedSession.rebuild (locationDisk repeatedText)).1.remembered = decidedSession.remembered ∧
      ((decidedSession.rebuild (locationDisk repeatedText)).1.model.map fun m => m.state 2) =
        some .ifTrue ∧
      (decidedSession.rebuild (locationDisk excludedText)).1.version = decidedSession.version + 1 ∧
      decidedSession.announcements.map Announcement.version = [1] := by
  have hreached : Reached locationSettings (locationDisk includedText) decidedSession :=
    (reached_ofSettings locationSettings (locationDisk includedText)).stepped
      (.act (.edit (.setState 2 .ifTrue)))
  have hfile := hreached.grounded.locationFile_eq
  have hroot := hreached.grounded.sourceRoot_eq
  obtain ⟨hkeeps, -, hnumbers⟩ := rebuild_keeps_or_announces hreached (locationDisk repeatedText)
  obtain ⟨-, hannounces, -⟩ := rebuild_keeps_or_announces hreached (locationDisk excludedText)
  rw [hfile, hroot] at hkeeps hannounces
  have hfails : RuleModel.load (locationDisk repeatedText) locationSettings.locationPath
      locationSettings.sourceRoot = .error (.build (.duplicateRuleId ⟨2, by decide, by decide⟩)) := by
    have hfault : (match RuleModel.load (locationDisk repeatedText) locationSettings.locationPath
        locationSettings.sourceRoot with
      | .error e => some e
      | .ok _ => none) = some (.build (.duplicateRuleId ⟨2, by decide, by decide⟩)) := by
      decide +kernel
    obtain ⟨r, hr⟩ : ∃ r, RuleModel.load (locationDisk repeatedText) locationSettings.locationPath
      locationSettings.sourceRoot = r := ⟨_, rfl⟩
    rw [hr] at hfault ⊢
    cases r with
    | error e => rw [Option.some.inj hfault]
    | ok loaded => cases hfault
  have hloads : ∀ e, ¬ RuleModel.Unloadable (locationDisk excludedText)
      locationSettings.locationPath locationSettings.sourceRoot e := fun e he => by
    obtain ⟨m, hload, -⟩ := load_locationDisk excludedText (by decide +kernel)
    rw [← RuleModel.load_eq_error_iff, hload] at he
    cases he
  have facts : (decidedSession.model.map fun m => m.state 2) = some .ifTrue ∧
      decidedSession.version = 1 := by
    decide +kernel
  obtain ⟨hfailed, hremembered⟩ := hkeeps _ (RuleModel.load_eq_error_iff.mp hfails)
  obtain ⟨-, hversion, -⟩ := hannounces hloads
  have hmodel : (decidedSession.rebuild (locationDisk repeatedText)).1.model = decidedSession.model := by
    rw [hfailed]
  refine ⟨by rw [hfailed], hremembered, ?_, hversion, ?_⟩
  · rw [hmodel]
    exact facts.1
  · rw [hnumbers, facts.2]
    rfl

end Session

end RuleScope
