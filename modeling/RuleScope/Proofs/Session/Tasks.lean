import RuleScope.Proofs.Session.Operations
import RuleScope.Proofs.Sources.Paths

namespace RuleScope.Session

open SourceTree

inductive Task where
  | rebuild (d : Disk)
  | batch (d : Disk) (b : SourceBatch)

namespace Task

def disk : Task → Disk
  | .rebuild d => d
  | .batch d _ => d

def changes : Task → List SourceChange
  | .rebuild _ => []
  | .batch _ b => b.changes

def reads : Task → Bool
  | .rebuild _ => true
  | .batch _ b => b.touchesLocation

end Task

def work (s : Session) : Task → Session
  | .rebuild d => (s.rebuild d).1
  | .batch d b => (s.applyBatch d b).1

def workAll (s : Session) (tasks : List Task) : Session := tasks.foldl work s

/-- The task reads a location file that loads. -/
def TakesOver (s : Session) (task : Task) : Prop :=
  task.reads = true ∧ ∃ m, RuleModel.load task.disk s.locationFile s.sourceRoot = .ok (some m)

/-- The sources when the changes of a task are taken in. -/
def followed (s : Session) (task : Task) : SourceTree :=
  task.changes.foldl (follow task.disk) s.sources

variable {s : Session} {t t' : SourceTree}

/-- `t'` has the nodes of `t`, with the same flags, though perhaps other links. -/
structure Relinked (t t' : SourceTree) : Prop where
  ground : t.SameGround t'
  mark_eq : ∀ q, t'.mark? q = t.mark? q
  status_eq : t'.status = t.status

/-- `t'` has the nodes of `t`, none flagged, and compares with the location file on disk. -/
structure CaughtUp (t t' : SourceTree) (time : Option Int) : Prop where
  root_eq : t'.root = t.root
  time_eq : t'.locationTime = time
  mark_eq : ∀ q, t'.mark? q = (t.mark? q).map fun k => { k with flagged := false }
  status_eq : t'.status = .synced

theorem rebuild_sources (s : Session) (d : Disk) :
    (∃ m, RuleModel.load d s.locationFile s.sourceRoot = .ok (some m)) ∧
      CaughtUp s.sources (s.rebuild d).1.sources (d.modified? s.locationFile) ∨
    (¬ ∃ m, RuleModel.load d s.locationFile s.sourceRoot = .ok (some m)) ∧
      Relinked s.sources (s.rebuild d).1.sources := by
  rcases rebuild_cases s d with ⟨e, hl, hr⟩ | ⟨hl, hr⟩ | ⟨m, hl, hr⟩
  · rw [hr, hl]
    exact Or.inr ⟨nofun, ⟨rfl, rfl⟩, fun _ => rfl, rfl⟩
  · rw [hr, hl]
    exact Or.inr ⟨nofun, ⟨rfl, rfl⟩, mark?_unlink s.sources, rfl⟩
  · rw [hr]
    refine Or.inl ⟨⟨m, hl⟩, rfl, rfl, fun q => ?_, rfl⟩
    exact (mark?_compiled _ _ q).trans (congrArg _ (mark?_link s.sources d m.tree s.wrapperFile q))

theorem applyBatch_sources (s : Session) (d : Disk) (b : SourceBatch) :
    (s.applyBatch d b).1.sources =
      if b.touchesLocation = true then
        (rebuild { s with sources := b.changes.foldl (follow d) s.sources } d).1.sources
      else b.changes.foldl (follow d) s.sources := by
  unfold applyBatch
  dsimp only
  split
  next => split <;> simp_all
  next => rfl

/-- A task takes its changes in; then it takes over a compile, or changes links at most. -/
theorem work_sources (s : Session) (task : Task) :
    s.TakesOver task ∧
      CaughtUp (s.followed task) (s.work task).sources (task.disk.modified? s.locationFile) ∨
    ¬ s.TakesOver task ∧ Relinked (s.followed task) (s.work task).sources := by
  cases task with
  | rebuild d =>
    rcases rebuild_sources s d with ⟨h, hc⟩ | ⟨h, hr⟩
    · exact Or.inl ⟨⟨rfl, h⟩, hc⟩
    · exact Or.inr ⟨fun ht => h ht.2, hr⟩
  | batch d b =>
    rw [work, applyBatch_sources]
    split
    next hb =>
      rcases rebuild_sources { s with sources := b.changes.foldl (follow d) s.sources } d with
        ⟨h, hc⟩ | ⟨h, hr⟩
      · exact Or.inl ⟨⟨hb, h⟩, hc⟩
      · exact Or.inr ⟨fun ht => h ht.2, hr⟩
    next hb => exact Or.inr ⟨fun ht => hb ht.1, ⟨rfl, rfl⟩, fun _ => rfl, rfl⟩

/-- Only the changes of a task tell which paths are known. -/
theorem work_knows (s : Session) (task : Task) :
    (s.work task).sources.root = (s.followed task).root ∧
      ∀ q, (s.work task).sources.Knows q ↔ (s.followed task).Knows q := by
  rcases work_sources s task with ⟨_, hc⟩ | ⟨_, hr⟩
  · refine ⟨hc.root_eq, fun q => ?_⟩
    rw [SourceTree.knows_iff, hc.mark_eq, Option.isSome_map, SourceTree.knows_iff]
  · refine ⟨hr.ground.root_eq, fun q => ?_⟩
    rw [SourceTree.knows_iff, hr.mark_eq, SourceTree.knows_iff]

theorem work_closed (h : s.sources.Closed) (task : Task) :
    (s.work task).sources.Closed ∧ (s.work task).sources.root = s.sources.root := by
  obtain ⟨hclosed, hroot, _⟩ := foldl_follow_knows h task.disk task.changes
  obtain ⟨hroot', hknows⟩ := work_knows s task
  have same : (s.followed task).Gains (s.work task).sources [] :=
    ⟨hroot', fun q => by simp [hknows q, reaches]⟩
  exact ⟨hclosed.gains same, hroot'.trans hroot⟩

theorem workAll_closed (h : s.sources.Closed) (tasks : List Task) :
    (s.workAll tasks).sources.Closed ∧ (s.workAll tasks).sources.root = s.sources.root := by
  induction tasks generalizing s with
  | nil => exact ⟨h, rfl⟩
  | cons task rest ih =>
    obtain ⟨hclosed, hroot⟩ := work_closed h task
    exact ⟨(ih hclosed).1, (ih hclosed).2.trans hroot⟩

/-- A project with a location file and some rule sources, with the times of their last change. -/
def rulesDisk (sources : List (String × Int)) : Disk :=
  ⟨(⟨["rules"]⟩, .directory) :: (⟨["rules", "RuleLoc.yml"]⟩, .file "label: main\n" 200) ::
    sources.map fun f => (⟨["rules", f.1]⟩, .file "" f.2), .root, 0⟩

def rulesSettings : Settings := ⟨"/rules", none, none, "", 0, "/saved", 0, 0⟩

end RuleScope.Session
