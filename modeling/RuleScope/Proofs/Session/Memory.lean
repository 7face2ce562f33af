import RuleScope.Proofs.Session.Operations

namespace RuleScope

open RuleTree Snapshot

namespace Session

/-- What can be done with a session; `act` is done to its model, if there is one. -/
inductive Event where
  | rebuild (d : Disk)
  | act (a : Action)
  | applySnapshot (d : Disk) (name : String)
  | remember

def step (s : Session) : Event → Session
  | .rebuild d => (s.rebuild d).1
  | .act a => { s with model := s.model.map fun m => m.act a }
  | .applySnapshot d name => (s.applySnapshot d name).1
  | .remember => s.remember

/-- The snapshot that an event restores on the model, if it does. -/
def applied? (s : Session) : Event → Option Snapshot
  | .applySnapshot d name =>
    if (s.applySnapshot d name).2.toOption = some true then (s.store.load d name).toOption else none
  | _ => none

/-- What is known after an event: an applied snapshot goes before what was known, and the model that
is there now goes before both. -/
def learn (s : Session) (k : Knowledge) (e : Event) : Knowledge :=
  let told := (s.applied? e).elim k fun snapshot => k.followedBy snapshot.knowledge
  (s.step e).model.elim told fun m => told.followedBy m.knowledge

def run (s : Session) (events : List Event) : Session := events.foldl step s

theorem step_act_of_none {s : Session} (h : s.model = none) (a : Action) : s.step (.act a) = s := by
  obtain ⟨⟩ := s
  simp_all [step]

theorem step_act_of_model {s : Session} {m : RuleModel} (h : s.model = some m) (a : Action) :
    s.step (.act a) = { s with model := some (m.act a) } := by
  simp [step, h]

/-- The last known value of every label path after a run, when `k` was known before it. -/
def lastKnown (s : Session) (k : Knowledge) : List Event → Knowledge
  | [] => k
  | e :: rest => (s.step e).lastKnown (s.learn k e) rest

variable {s : Session} {k : Knowledge}

/-- The memory and the model of a session know what is known. -/
structure Remembers (s : Session) (k : Knowledge) : Prop where
  knowledge_eq : s.remembered.knowledge = k
  consistent : ∀ m ∈ s.model, m.Consistent
  distinct : ∀ m ∈ s.model, m.tree.DistinctLabels

/-- A session knows what it did when its memory takes the model over. -/
theorem Remembers.observe (h : s.Remembers k) {t : Session} (hmodel : t.model = s.model)
    (hmemory : t.memory = s.memory ∨ t.memory = s.remembered) :
    t.Remembers (t.model.elim k fun m => k.followedBy m.knowledge) := by
  refine ⟨?_, hmodel ▸ h.consistent, hmodel ▸ h.distinct⟩
  cases hm : s.model with
  | none =>
    have hk := h.knowledge_eq
    rw [remembered_of_none hm] at hk hmemory
    rw [hm] at hmodel
    rw [remembered_of_none hmodel, hmodel]
    exact (congrArg knowledge (hmemory.elim id id)).trans hk
  | some m =>
    have wf := (h.consistent m hm).wellFormed
    have hd := h.distinct m hm
    have hk := h.knowledge_eq
    rw [hm] at hmodel
    rw [remembered_of_model hmodel, hmodel, retrieve_knowledge wf hd]
    rcases hmemory with hmem | hmem
    · rw [remembered_of_model hm, retrieve_knowledge wf hd] at hk
      rw [hmem, ← hk]
      exact (Knowledge.followedBy_followedBy rfl fun _ h => h).symm
    · rw [hmem, hk]
      rfl

/-- A rebuild that puts a model in place restores on it what is known, and learns it. -/
theorem rebuild_of_load (h : s.Remembers k) {d : Disk} {m : RuleModel}
    (hl : RuleModel.load d s.locationFile s.sourceRoot = .ok (some m)) :
    ∃ m', (s.remember.adopt d m).announce.model = some m' ∧ k.RestoredOn m' ∧
      (m.tree.DistinctLabels →
        (s.remember.adopt d m).announce.Remembers (k.followedBy m'.knowledge)) := by
  obtain ⟨m', hmodel, hmemory, hc', htree, _, hres⟩ :=
    adopt_spec (s := s.remember) (d := d) (RuleModel.load_new hl)
  have hk : s.remember.memory.knowledge = k := h.knowledge_eq
  refine ⟨m', hmodel, hk ▸ hres, fun hd => ?_⟩
  have hd' : m'.tree.DistinctLabels := htree ▸ hd
  have only : ∀ m'' ∈ (s.remember.adopt d m).announce.model, m'' = m' := fun m'' hm'' =>
    Option.some.inj (hm''.symm.trans hmodel)
  refine ⟨?_, fun m'' hm'' => only m'' hm'' ▸ hc', fun m'' hm'' => only m'' hm'' ▸ hd'⟩
  have hnow : (s.remember.adopt d m).announce.remembered =
      (s.remember.memory.retrieve m').retrieve m' := by
    rw [remembered_of_model (s := (s.remember.adopt d m).announce) hmodel, ← hmemory]
    rfl
  rw [hnow, retrieve_knowledge hc'.wellFormed hd', retrieve_knowledge hc'.wellFormed hd', hk]
  exact Knowledge.followedBy_followedBy rfl fun _ h => h

theorem learn_of_applied?_eq_none {e : Event} (h : s.applied? e = none) :
    s.learn k e = (s.step e).model.elim k fun m => k.followedBy m.knowledge := by
  unfold learn
  rw [h]
  rfl

theorem act_remembers (h : s.Remembers k) (a : Action) :
    (s.step (.act a)).Remembers (s.learn k (.act a)) := by
  cases hm : s.model with
  | none =>
    rw [learn_of_applied?_eq_none rfl, step_act_of_none hm]
    exact h.observe rfl (Or.inl rfl)
  | some m =>
    obtain ⟨hc, htree⟩ := RuleModel.act_consistent (h.consistent m hm) a
    have hmodel : (s.step (.act a)).model = some (m.act a) := by rw [step_act_of_model hm]
    have hd : (m.act a).tree.DistinctLabels := htree ▸ h.distinct m hm
    have hlearn : s.learn k (.act a) = k.followedBy (m.act a).knowledge := by
      rw [learn_of_applied?_eq_none rfl, hmodel]
      rfl
    have hk := h.knowledge_eq
    rw [remembered_of_model hm,
      retrieve_knowledge (h.consistent m hm).wellFormed (h.distinct m hm)] at hk
    refine ⟨?_, ?_, ?_⟩
    · rw [remembered_of_model hmodel, retrieve_knowledge hc.wellFormed hd, hlearn, ← hk]
      have hroot : m.knowledge.rootLabel = (m.act a).knowledge.rootLabel := by
        simp [RuleModel.knowledge, htree]
      exact (Knowledge.followedBy_followedBy hroot fun labels =>
        RuleModel.knowledge_isSome_congr htree labels).symm
    · intro m' hm'
      obtain rfl : m.act a = m' := Option.some.inj (hmodel.symm.trans hm')
      exact hc
    · intro m' hm'
      obtain rfl : m.act a = m' := Option.some.inj (hmodel.symm.trans hm')
      exact hd

theorem rebuild_remembers (h : s.Remembers k) (d : Disk)
    (distinct : ∀ m, RuleModel.load d s.locationFile s.sourceRoot = .ok (some m) →
      m.tree.DistinctLabels) :
    (s.step (.rebuild d)).Remembers (s.learn k (.rebuild d)) := by
  rw [learn_of_applied?_eq_none rfl, step]
  rcases rebuild_cases s d with ⟨e, _, hr⟩ | ⟨_, hr⟩ | ⟨m, hl, hr⟩
  · rw [hr]
    exact h.observe rfl (Or.inr rfl)
  · rw [hr]
    exact ⟨h.knowledge_eq, fun m hm => (nomatch hm), fun m hm => (nomatch hm)⟩
  · obtain ⟨m', hmodel, _, hremembers⟩ := rebuild_of_load h hl
    rw [hr, hmodel]
    exact hremembers (distinct m hl)

theorem applySnapshot_remembers (h : s.Remembers k) (d : Disk) (name : String) :
    (s.step (.applySnapshot d name)).Remembers (s.learn k (.applySnapshot d name)) := by
  rcases applySnapshot_cases s d name with
    ⟨snapshot, m, snapshot', u, hload, hm, hr, happly⟩ | ⟨hkeep, hnot⟩
  · obtain ⟨hroot, _, rfl, hu, _⟩ := restore?_spec (h.consistent m hm) hr
    have happlied : s.applied? (.applySnapshot d name) = some snapshot := by
      rw [applied?, happly, hload]
      rfl
    have hlearn : s.learn k (.applySnapshot d name) =
        (k.followedBy snapshot.knowledge).followedBy u.model.knowledge := by
      rw [learn, happlied, step, happly]
      rfl
    have hd : u.model.tree.DistinctLabels := hu.tree_eq ▸ h.distinct m hm
    have hwf := hu.consistent.wellFormed
    have hk := h.knowledge_eq
    rw [remembered_of_model hm,
      retrieve_knowledge (h.consistent m hm).wellFormed (h.distinct m hm)] at hk
    rw [step, happly, hlearn]
    refine ⟨?_, ?_, ?_⟩
    · have hordered := retrieve_ordered (SnapshotStore.load_ordered hload) u.model
      rw [remembered_of_model rfl, retrieve_knowledge hwf hd, merge_knowledge hordered rfl,
        retrieve_knowledge hwf hd, ← hk]
      refine Knowledge.followedBy_told ?_ ?_ fun labels =>
        RuleModel.knowledge_isSome_congr hu.tree_eq labels
      · simp [RuleModel.knowledge, hu.tree_eq]
      · simp [RuleModel.knowledge, knowledge, hroot, hu.tree_eq]
    · intro m' hm'
      cases hm'
      exact hu.consistent
    · intro m' hm'
      cases hm'
      exact hd
  · have hnone : s.applied? (.applySnapshot d name) = none := by
      rw [applied?, if_neg hnot]
    rw [learn_of_applied?_eq_none hnone, step, hkeep]
    exact h.observe rfl (Or.inl rfl)

/-- Whatever is done, the session knows what it did and what it learned. -/
theorem step_remembers (h : s.Remembers k) (e : Event)
    (distinct : ∀ d m, e = .rebuild d → RuleModel.load d s.locationFile s.sourceRoot = .ok (some m) →
      m.tree.DistinctLabels) : (s.step e).Remembers (s.learn k e) := by
  cases e with
  | rebuild d => exact rebuild_remembers h d fun m => distinct d m rfl
  | act a => exact act_remembers h a
  | applySnapshot d name => exact applySnapshot_remembers h d name
  | remember => exact h.observe (t := s.remember) rfl (Or.inr rfl)

theorem step_files (s : Session) (e : Event) :
    (s.step e).locationFile = s.locationFile ∧ (s.step e).sourceRoot = s.sourceRoot := by
  cases e with
  | rebuild d =>
    rw [step]
    rcases rebuild_cases s d with ⟨_, _, h⟩ | ⟨_, h⟩ | ⟨_, _, h⟩
    · rw [h]
      exact ⟨rfl, rfl⟩
    · rw [h]
      exact ⟨rfl, rfl⟩
    · rw [h]
      exact ⟨rfl, rfl⟩
  | act a => exact ⟨rfl, rfl⟩
  | applySnapshot d name =>
    rw [step]
    rcases applySnapshot_cases s d name with ⟨_, _, _, _, _, _, _, h⟩ | ⟨h, _⟩
    · rw [h]
      exact ⟨rfl, rfl⟩
    · rw [h]
      exact ⟨rfl, rfl⟩
  | remember => exact ⟨rfl, rfl⟩

theorem run_files (s : Session) (events : List Event) :
    (s.run events).locationFile = s.locationFile ∧ (s.run events).sourceRoot = s.sourceRoot := by
  induction events generalizing s with
  | nil => exact ⟨rfl, rfl⟩
  | cons e rest ih =>
    obtain ⟨hfile, hsource⟩ := step_files s e
    exact ⟨(ih (s.step e)).1.trans hfile, (ih (s.step e)).2.trans hsource⟩

theorem run_remembers (h : s.Remembers k) (events : List Event)
    (distinct : ∀ d m, Event.rebuild d ∈ events →
      RuleModel.load d s.locationFile s.sourceRoot = .ok (some m) → m.tree.DistinctLabels) :
    (s.run events).Remembers (s.lastKnown k events) := by
  induction events generalizing s k with
  | nil => exact h
  | cons e rest ih =>
    have hstep := step_remembers h e fun d m he => distinct d m (he ▸ List.mem_cons_self)
    obtain ⟨hfile, hsource⟩ := step_files s e
    exact ih hstep fun d m hd hl =>
      distinct d m (List.mem_cons_of_mem _ hd) (by rwa [hfile, hsource] at hl)

/-- At any time the memory holds the last known value of every label path, and nothing else; and a
rebuild that gives a model gives one on which these values are restored. -/
theorem run_restores_lastKnown (d : Disk) (settings : Settings) (events : List Event)
    (distinct : ∀ d' m, Event.rebuild d' ∈ events →
      RuleModel.load d' settings.locationPath settings.sourceRoot = .ok (some m) →
      m.tree.DistinctLabels) :
    ((start d settings).run events).remembered.knowledge =
        (start d settings).lastKnown (start d settings).memory.knowledge events ∧
      ∀ d' m, (((start d settings).run events).rebuild d').2 = none →
        (((start d settings).run events).rebuild d').1.model = some m →
        ((start d settings).lastKnown (start d settings).memory.knowledge events).RestoredOn m := by
  have hstart : (start d settings).Remembers (start d settings).memory.knowledge :=
    ⟨rfl, fun m hm => (nomatch hm), fun m hm => (nomatch hm)⟩
  have h := run_remembers hstart events distinct
  refine ⟨h.knowledge_eq, fun d' m hok hm => ?_⟩
  rcases rebuild_cases ((start d settings).run events) d' with ⟨e, _, hr⟩ | ⟨_, hr⟩ | ⟨m', hl, hr⟩
  · rw [hr] at hok
    cases hok
  · rw [hr] at hm
    cases hm
  · rw [hr] at hm
    obtain ⟨m'', hmodel, hres, _⟩ := rebuild_of_load h hl
    obtain rfl : m'' = m := Option.some.inj (hmodel.symm.trans hm)
    exact hres

def locationDisk (text : String) : Disk := ⟨[(⟨["RuleLoc.yml"]⟩, .file text 0)], .root, 0⟩

def locationSettings : Settings := ⟨"/src", some "/RuleLoc.yml", none, "", 0, "/saved", 0, 0⟩

/-- The model of a location file on such a disk, if its siblings have different labels. -/
theorem load_locationDisk (text : String) (h : ((RuleModel.load (locationDisk text)
    locationSettings.locationPath locationSettings.sourceRoot).toOption.bind id).map
      (fun m => decide m.tree.DistinctLabels) = some true) :
    ∃ m, RuleModel.load (locationDisk text) locationSettings.locationPath
      locationSettings.sourceRoot = .ok (some m) ∧ m.tree.DistinctLabels := by
  obtain ⟨m, hm, hd⟩ := Option.map_eq_some_iff.mp h
  obtain ⟨loaded, hl, he⟩ := Option.bind_eq_some_iff.mp hm
  obtain rfl : loaded = some m := he
  exact ⟨m, eq_ok_of_toOption hl, of_decide_eq_true hd⟩

def includedText : String := "label: main\nchildren: [\x7blabel: sub, children: [\x7blabel: bye, id: 2\x7d]\x7d]"

def excludedText : String := "label: main\n"

/-- An import with a chosen rule is excluded from a compile and comes back. -/
def exclusion : List Event :=
  [.rebuild (locationDisk includedText), .act (.edit (.setState 2 .ifTrue)),
    .act (.setExpanded 1 true), .rebuild (locationDisk excludedText), .remember]

theorem run_restores_lastKnown_exclusion :
    ∃ m, (((start (locationDisk includedText) locationSettings).run exclusion).rebuild
        (locationDisk includedText)).1.model = some m ∧
      (m.state 2 = .ifTrue ∧ m.isExpanded 1 = true) ∧
      ((start (locationDisk includedText) locationSettings).lastKnown
        (start (locationDisk includedText) locationSettings).memory.knowledge
        exclusion).RestoredOn m ∧
      ((start (locationDisk includedText) locationSettings).run exclusion).remembered.knowledge =
        (start (locationDisk includedText) locationSettings).lastKnown
          (start (locationDisk includedText) locationSettings).memory.knowledge exclusion := by
  obtain ⟨m₁, hl₁, hd₁⟩ := load_locationDisk includedText (by decide +kernel)
  obtain ⟨m₂, hl₂, hd₂⟩ := load_locationDisk excludedText (by decide +kernel)
  obtain ⟨hknown, hrestored⟩ :=
    run_restores_lastKnown (locationDisk includedText) locationSettings exclusion (by
      intro d' m hd hl
      simp only [exclusion, List.mem_cons, Event.rebuild.injEq, reduceCtorEq, false_or, or_false,
        List.not_mem_nil] at hd
      rcases hd with rfl | rfl
      · cases hl₁.symm.trans hl
        exact hd₁
      · cases hl₂.symm.trans hl
        exact hd₂)
  obtain ⟨hfile, hsource⟩ :=
    run_files (start (locationDisk includedText) locationSettings) exclusion
  have hl := hl₁
  rw [show locationSettings.locationPath = _ from hfile.symm,
    show locationSettings.sourceRoot = _ from hsource.symm] at hl
  obtain ⟨m, hok, hm⟩ := rebuild_model_of_load hl
  have seen : ((((start (locationDisk includedText) locationSettings).run exclusion).rebuild
      (locationDisk includedText)).1.model.map fun m =>
        decide (m.state 2 = .ifTrue ∧ m.isExpanded 1 = true)) = some true := by
    decide +kernel
  rw [hm] at seen
  exact ⟨m, hm, of_decide_eq_true (Option.some.inj seen), hrestored _ m hok hm, hknown⟩

end Session

end RuleScope
