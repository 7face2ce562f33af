import RuleScope.Proofs.Session.Tasks
import RuleScope.Proofs.Sources.Flags

namespace RuleScope

open SourceTree

namespace SourceTree

variable {t : SourceTree} {d : Disk}

/-- Every rule source that is newer than the location file is flagged, and puts the sources out of
sync. -/
structure Detects (t : SourceTree) (d : Disk) : Prop where
  flagged : ∀ q b, t.mark? q = some ⟨false, b⟩ → t.Newer d q → b = true
  outOfSync : ∀ q b, t.mark? q = some ⟨false, b⟩ → t.Newer d q → t.status = .outOfSync

theorem Alarmed.detects_iff (h : t.Alarmed) :
    t.Detects d ↔ ∀ q, t.Newer d q → ¬ t.Unflagged q := by
  constructor
  · intro hd q hn hq
    exact Bool.noConfusion (hd.flagged q false hq hn)
  · intro hall
    have flagged : ∀ q b, t.mark? q = some ⟨false, b⟩ → t.Newer d q → b = true := by
      intro q b hq hn
      cases b with
      | true => rfl
      | false => exact absurd hq (hall q hn)
    exact ⟨flagged, fun q b hq hn => h q _ hq (flagged q b hq hn)⟩

theorem not_newer_of_nodes (t : SourceTree) (d : Disk)
    (h : ∀ e ∈ t.nodes, e.2.mark.folder = false → ¬ t.Newer d e.1) (q : AbsPath) (b : Bool)
    (hq : t.mark? q = some ⟨false, b⟩) : ¬ t.Newer d q :=
  forall_mark? (P := fun q k => k.folder = false → ¬ t.Newer d q) h hq rfl

theorem touches_of_nodes (t : SourceTree) (d : Disk) (cs : List SourceChange)
    (h : ∀ e ∈ t.nodes, t.Newer d e.1 → e.2.mark = ⟨false, false⟩ →
      ∃ c ∈ cs, c.Touches d t.root e.1) (q : AbsPath) (hn : t.Newer d q) (hq : t.Unflagged q) :
    ∃ c ∈ cs, c.Touches d t.root q :=
  forall_mark? (P := fun q k => t.Newer d q → k = ⟨false, false⟩ →
    ∃ c ∈ cs, c.Touches d t.root q) h hq hn rfl

end SourceTree

namespace Session

variable {s : Session}

theorem ofSettings_eq_work (d : Disk) (settings : Settings) :
    ofSettings d settings = (start d settings).work (.rebuild d) := rfl

theorem followed_heeds (h : s.sources.Closed) (task : Task) :
    Heeds task.disk s.sources (s.followed task)
      fun q => ∃ c ∈ task.changes, c.Touches task.disk s.sources.root q :=
  foldl_follow_heeds h task.disk task.changes

theorem Relinked.heeds {t t' : SourceTree} (h : Relinked t t') (d : Disk) :
    Heeds d t t' fun _ => False := by
  refine ⟨h.ground, fun q _ => ?_, fun ha q k hk hflag => ?_⟩
  · rw [Unflagged, h.mark_eq, not_false_eq_true, and_true]
    rfl
  · rw [h.mark_eq] at hk
    exact h.status_eq.trans (ha q k hk hflag)

theorem CaughtUp.not_flagged {t t' : SourceTree} {time : Option Int} (h : CaughtUp t t' time)
    {q : AbsPath} {k : Mark} (hk : t'.mark? q = some k) : k.flagged = false := by
  rw [h.mark_eq] at hk
  obtain ⟨_, -, rfl⟩ := Option.map_eq_some_iff.mp hk
  rfl

theorem CaughtUp.alarmed {t t' : SourceTree} {time : Option Int} (h : CaughtUp t t' time) :
    t'.Alarmed := fun _ _ hk hflag => by
  rw [h.not_flagged hk] at hflag
  cases hflag

theorem work_alarmed (hc : s.sources.Closed) (ha : s.sources.Alarmed) (task : Task) :
    (s.work task).sources.Alarmed := by
  rcases work_sources s task with ⟨_, h⟩ | ⟨_, h⟩
  · exact h.alarmed
  · exact (h.heeds task.disk).alarmed ((followed_heeds hc task).alarmed ha)

theorem workAll_alarmed (hc : s.sources.Closed) (ha : s.sources.Alarmed) (tasks : List Task) :
    (s.workAll tasks).sources.Alarmed := by
  induction tasks generalizing s with
  | nil => exact ha
  | cons task rest ih => exact ih (work_closed hc task).1 (work_alarmed hc ha task)

/-- Without a compile to take over, a newer file is missed when it had no flag before and no change
touches it. -/
theorem work_detects_iff_touched (hc : s.sources.Closed) (ha : s.sources.Alarmed) {task : Task}
    (h : ¬ s.TakesOver task) : (s.work task).sources.Detects task.disk ↔
      ∀ q, s.sources.Newer task.disk q → s.sources.Unflagged q →
        ∃ c ∈ task.changes, c.Touches task.disk s.sources.root q := by
  rcases work_sources s task with ⟨hover, _⟩ | ⟨_, hr⟩
  · exact absurd hover h
  · have heeds := (followed_heeds hc task).trans (hr.heeds task.disk)
    rw [(work_alarmed hc ha task).detects_iff]
    refine forall_congr' fun q => ?_
    rw [Newer.congr heeds.ground]
    refine forall_congr' fun hn => ?_
    rw [heeds.unflagged_iff q hn, or_false, not_and_not_right]

/-- At any time, a task that takes a compile over leaves no file flagged and the sources in sync, so
it detects what is newer only if nothing is; any other task misses just the newer files that had no
flag before and that no change touches. Opening a session is the first rebuild of all. -/
theorem workAll_detects_iff (d₀ : Disk) (settings : Settings) (tasks : List Task) (task : Task) :
    let s := (start d₀ settings).workAll tasks
    let t := (s.work task).sources
    (s.TakesOver task →
      (∀ q k, t.mark? q = some k → k.flagged = false) ∧ t.status = .synced ∧
      t.locationTime = task.disk.modified? s.locationFile ∧
      (t.Detects task.disk ↔ ∀ q b, t.mark? q = some ⟨false, b⟩ → ¬ t.Newer task.disk q)) ∧
    (¬ s.TakesOver task →
      (t.Detects task.disk ↔ ∀ q, s.sources.Newer task.disk q → s.sources.Unflagged q →
        ∃ c ∈ task.changes, c.Touches task.disk s.sources.root q)) := by
  intro s t
  have closed := scan_closed d₀ settings.sourceRoot settings.locationPath
  have alarmed := scan_alarmed d₀ settings.sourceRoot settings.locationPath
  have hc : s.sources.Closed := (workAll_closed (s := start d₀ settings) closed tasks).1
  have ha : s.sources.Alarmed := workAll_alarmed (s := start d₀ settings) closed alarmed tasks
  refine ⟨fun hover => ?_, work_detects_iff_touched hc ha⟩
  rcases work_sources s task with ⟨_, h⟩ | ⟨hnot, _⟩
  · have unflagged : ∀ q k, t.mark? q = some k → k.flagged = false := fun q k => h.not_flagged
    refine ⟨unflagged, h.status_eq, h.time_eq, ?_⟩
    rw [h.alarmed.detects_iff]
    constructor
    · intro hall q b hq hn
      obtain rfl : b = false := unflagged q _ hq
      exact hall q hn hq
    · exact fun hall q hn hq => hall q false hq hn
  · exact absurd hover hnot

/-- The rule source is older than the location file. -/
def compiledDisk : Disk := rulesDisk [("main.rudi", 100)]

def editedDisk : Disk := rulesDisk [("main.rudi", 300)]

theorem load_rulesDisk {sources : List (String × Int)} (h : ((RuleModel.load (rulesDisk sources)
    rulesSettings.locationPath rulesSettings.sourceRoot).toOption.bind id).isSome = true) :
    ∃ m, RuleModel.load (rulesDisk sources) rulesSettings.locationPath rulesSettings.sourceRoot =
      .ok (some m) := by
  obtain ⟨m, hm⟩ := Option.isSome_iff_exists.mp h
  obtain ⟨loaded, hl, rfl⟩ := Option.bind_eq_some_iff.mp hm
  exact ⟨m, eq_ok_of_toOption hl⟩

theorem workAll_detects_iff_edited :
    (ofSettings compiledDisk rulesSettings).sources.Detects compiledDisk ∧
    (((start compiledDisk rulesSettings).workAll [.rebuild compiledDisk]).work
      (.batch editedDisk ⟨[.changed "/rules/main.rudi"]⟩)).sources.Detects editedDisk := by
  constructor
  · rw [ofSettings_eq_work]
    have detects := (workAll_detects_iff compiledDisk rulesSettings [] (.rebuild compiledDisk)).1
      ⟨rfl, load_rulesDisk (by decide +kernel)⟩
    exact detects.2.2.2.mpr (not_newer_of_nodes _ _ (by decide +kernel))
  · have detects := (workAll_detects_iff compiledDisk rulesSettings [.rebuild compiledDisk]
      (.batch editedDisk ⟨[.changed "/rules/main.rudi"]⟩)).2 fun h => Bool.noConfusion h.1
    exact detects.mpr (touches_of_nodes _ _ _ (by decide +kernel))

/-- A session that is opened on the edited sources reads a location file that loads, and takes the
edited rule source for one that is compiled. -/
theorem not_detects_ofSettings_edited :
    (∃ m, RuleModel.load editedDisk rulesSettings.locationPath rulesSettings.sourceRoot =
      .ok (some m)) ∧
    (ofSettings editedDisk rulesSettings).sources.Newer editedDisk ⟨["rules", "main.rudi"]⟩ ∧
    (ofSettings editedDisk rulesSettings).sources.Unflagged ⟨["rules", "main.rudi"]⟩ ∧
    (ofSettings editedDisk rulesSettings).sources.status = .synced ∧
    ¬ (ofSettings editedDisk rulesSettings).sources.Detects editedDisk := by
  have facts : (ofSettings editedDisk rulesSettings).sources.Newer editedDisk
        ⟨["rules", "main.rudi"]⟩ ∧
      (ofSettings editedDisk rulesSettings).sources.Unflagged ⟨["rules", "main.rudi"]⟩ ∧
      (ofSettings editedDisk rulesSettings).sources.status = .synced := by
    decide +kernel
  obtain ⟨hnewer, hunflagged, hstatus⟩ := facts
  refine ⟨load_rulesDisk (by decide +kernel), hnewer, hunflagged, hstatus, fun h => ?_⟩
  exact Bool.noConfusion (h.flagged _ _ hunflagged hnewer)

end Session

end RuleScope
