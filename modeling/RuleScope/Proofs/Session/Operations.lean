import RuleScope.Proofs.Disk.Growth
import RuleScope.Proofs.RuleTree.Outline
import RuleScope.Proofs.Snapshot.Restoring
import RuleScope.Session

namespace RuleScope

open RuleTree Snapshot

namespace RuleModel

/-- A model that nothing was done to: no rule is logged, no node expanded, and nobody observes. -/
structure New (m : RuleModel) : Prop where
  consistent : m.Consistent
  state_never : ∀ n, m.tree.isRule n = true → m.state n = .never
  collapsed : ∀ n, m.isExpanded n = false
  unobserved : m.observers = ⟨[], [], 0⟩

/-- A location file that is there and can be read, converted and built gives a model. -/
theorem load_eq_some_iff {d : Disk} {locationFile sourceRoot : String} {m : RuleModel} :
    load d locationFile sourceRoot = .ok (some m) ↔ ∃ text l, d.readText locationFile = .ok text ∧
      Location.ofText text = .ok l ∧ build d.place sourceRoot l = .ok m := by
  constructor
  · intro h
    unfold load at h
    split at h
    next => cases h
    next =>
      split at h
      next => cases h
      next text htext =>
        split at h
        next => cases h
        next l hl =>
          split at h
          next => cases h
          next hb =>
            cases h
            exact ⟨text, l, htext, hl, hb⟩
  · rintro ⟨text, l, htext, hl, hb⟩
    simp [load, Disk.has_of_readText htext, htext, hl, hb]

theorem load_new {d : Disk} {locationFile sourceRoot : String} {m : RuleModel}
    (h : load d locationFile sourceRoot = .ok (some m)) : m.New := by
  obtain ⟨_, _, _, _, hl⟩ := load_eq_some_iff.mp h
  have hc := build_consistent hl
  obtain ⟨t, ht, rfl⟩ := build_eq_ofTree hl
  refine ⟨hc, fun n hn => initialStates_rule hc.wellFormed hn, fun n => ?_, rfl⟩
  simp only [isExpanded, ofTree, Array.getD_eq_getD_getElem?, Array.getElem?_replicate]
  split <;> rfl

/-- The same location file gives the same tree on any disk, up to where its sources lie. -/
theorem load_outline {d d' : Disk} {locationFile sourceRoot : String} {m : RuleModel}
    (h : load d locationFile sourceRoot = .ok (some m))
    (same : d'.readText locationFile = d.readText locationFile) :
    ∃ m', load d' locationFile sourceRoot = .ok (some m') ∧ m.tree.SameOutline m'.tree := by
  obtain ⟨text, l, htext, hl, hb⟩ := load_eq_some_iff.mp h
  obtain ⟨t, ht, rfl⟩ := build_eq_ofTree hb
  obtain ⟨t', ht', outline⟩ : ∃ t', RuleTree.build d'.place sourceRoot l = .ok t' ∧
    t.SameOutline t' := build_outline ht
  have hb' : build d'.place sourceRoot l = .ok (ofTree t') := by
    rw [build, ht']
    rfl
  exact ⟨ofTree t', load_eq_some_iff.mpr ⟨text, l, same.trans htext, hl, hb'⟩, outline⟩

end RuleModel

namespace Session

variable {s : Session}

theorem remembered_of_model {m : RuleModel} (h : s.model = some m) :
    s.remembered = s.memory.retrieve m := by simp [remembered, h]

theorem remembered_of_none (h : s.model = none) : s.remembered = s.memory := by
  simp [remembered, h]

/-- A new model gets what is remembered of it, and the memory takes it over. -/
theorem adopt_spec {d : Disk} {m : RuleModel} (h : m.New) :
    ∃ m', (s.adopt d m).model = some m' ∧ (s.adopt d m).memory = s.memory.retrieve m' ∧
      m'.Consistent ∧ m'.tree = m.tree ∧ m'.observers = m.observers ∧
      s.memory.knowledge.RestoredOn m' := by
  cases hr : s.memory.restore? m with
  | none =>
    refine ⟨m, by simp [adopt, hr], by simp [adopt, hr], h.consistent, rfl, rfl, ?_⟩
    have hnone := restore?_eq_none hr
    exact .of_eq (fun n hn => by rw [hnone, h.state_never n hn]; rfl)
      fun n _ => by rw [hnone, h.collapsed n]; rfl
  | some r =>
    obtain ⟨memory, u⟩ := r
    obtain ⟨hroot, hsome, rfl, hu, hat⟩ := restore?_spec h.consistent hr
    obtain ⟨e, he⟩ := Option.isSome_iff_exists.mp hsome
    refine ⟨u.model, by simp [adopt, hr], by simp [adopt, hr], hu.consistent, hu.tree_eq,
      hu.observers_eq, ?_⟩
    have hknown : ∀ n, s.memory.knowledge.below? (some u.model.tree.rootLabel)
        (u.model.labelsBelow n) = e.known? (m.labelsBelow n) := by
      intro n
      have hentry : s.memory.known? (m.labelsBelow n) = e.known? (m.labelsBelow n) := by
        rw [known?_eq, he, Option.bind_some]
      rw [hu.tree_eq, labelsBelow_congr hu.tree_eq]
      simpa [Knowledge.below?, knowledge, hroot] using hentry
    refine .of_eq (fun n hn => ?_) fun n hn => ?_
    · rw [hu.tree_eq] at hn
      rw [hknown, (hat e he n (lt_size_of_isRule hn)).state hn, h.state_never n hn]
    · rw [hu.tree_eq] at hn
      rw [hknown, (hat e he n hn).expanded, h.collapsed]

/-- A rebuild fails, finds no location file, or puts a new model in place. -/
theorem rebuild_cases (s : Session) (d : Disk) :
    (∃ e, RuleModel.load d s.locationFile s.sourceRoot = .error e ∧
      s.rebuild d = (s.remember, some e)) ∨
    (RuleModel.load d s.locationFile s.sourceRoot = .ok none ∧
      s.rebuild d = (s.remember.abandon.announce, none)) ∨
    ∃ m, RuleModel.load d s.locationFile s.sourceRoot = .ok (some m) ∧
      s.rebuild d = ((s.remember.adopt d m).announce, none) := by
  have hload : RuleModel.load d s.remember.locationFile s.remember.sourceRoot =
      RuleModel.load d s.locationFile s.sourceRoot := rfl
  simp only [rebuild, hload]
  cases RuleModel.load d s.locationFile s.sourceRoot with
  | error e => exact Or.inl ⟨e, rfl, rfl⟩
  | ok loaded =>
    cases loaded with
    | none => exact Or.inr (Or.inl ⟨rfl, rfl⟩)
    | some m => exact Or.inr (Or.inr ⟨m, rfl, rfl⟩)

theorem rebuild_model_of_load {d : Disk} {m : RuleModel}
    (hl : RuleModel.load d s.locationFile s.sourceRoot = .ok (some m)) :
    ∃ m', (s.rebuild d).2 = none ∧ (s.rebuild d).1.model = some m' := by
  rcases rebuild_cases s d with ⟨e, he, _⟩ | ⟨he, _⟩ | ⟨m', _, hr⟩
  · cases he.symm.trans hl
  · cases he.symm.trans hl
  · rw [hr]
    exact ⟨_, rfl, rfl⟩

/-- A rebuild changes nothing that is announced, or leaves a new model that nobody observes, if any. -/
theorem rebuild_model (s : Session) (d : Disk) :
    ((s.rebuild d).1.model = s.model ∧ (s.rebuild d).1.announcements = s.announcements) ∨
    ∀ m, (s.rebuild d).1.model = some m → m.Consistent ∧ m.observers = ⟨[], [], 0⟩ := by
  rcases rebuild_cases s d with ⟨e, _, hr⟩ | ⟨_, hr⟩ | ⟨m₀, hl, hr⟩
  · rw [hr]
    exact Or.inl ⟨rfl, rfl⟩
  · rw [hr]
    exact Or.inr fun m hm => nomatch hm
  · rw [hr]
    refine Or.inr fun m hm => ?_
    have hnew := RuleModel.load_new hl
    obtain ⟨m', hmodel, _, hc, _, hobservers, _⟩ := adopt_spec (s := s.remember) (d := d) hnew
    obtain rfl : m' = m := Option.some.inj (hmodel.symm.trans hm)
    exact ⟨hc, hobservers.trans hnew.unobserved⟩

/-- So does a batch of changes. -/
theorem applyBatch_model (s : Session) (d : Disk) (b : SourceBatch) :
    ((s.applyBatch d b).1.model = s.model ∧
      (s.applyBatch d b).1.announcements = s.announcements) ∨
    ∀ m, (s.applyBatch d b).1.model = some m → m.Consistent ∧ m.observers = ⟨[], [], 0⟩ := by
  have rebuilt := rebuild_model { s with sources := b.changes.foldl (follow d) s.sources } d
  unfold applyBatch
  dsimp only
  split
  next =>
    split
    next h =>
      rw [h] at rebuilt
      exact rebuilt
    next h =>
      rw [h] at rebuilt
      exact rebuilt
  next => exact Or.inl ⟨rfl, rfl⟩

/-- A snapshot is restored and merged into the memory, or nothing happens. -/
theorem applySnapshot_cases (s : Session) (d : Disk) (name : String) :
    (∃ snapshot m snapshot' u, s.store.load d name = .ok snapshot ∧ s.model = some m ∧
      snapshot.restore? m = some (snapshot', u) ∧ s.applySnapshot d name =
        ({ s with model := some u.model, memory := s.memory.merge snapshot' }, .ok true)) ∨
    ((s.applySnapshot d name).1 = s ∧ (s.applySnapshot d name).2.toOption ≠ some true) := by
  unfold applySnapshot
  split
  next => exact Or.inr ⟨rfl, nofun⟩
  next snapshot hload =>
    split
    next => exact Or.inr ⟨rfl, by simp [Except.toOption]⟩
    next snapshot' u hr =>
      obtain ⟨m, hm, hr⟩ := Option.bind_eq_some_iff.mp hr
      exact Or.inl ⟨snapshot, m, snapshot', u, hload, hm, hr, rfl⟩

end Session

end RuleScope
