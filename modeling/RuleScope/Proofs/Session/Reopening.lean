import RuleScope.Command.Program
import RuleScope.Proofs.Session.Reached
import RuleScope.Proofs.Snapshot.Alike
import RuleScope.Proofs.Snapshot.Autosave

namespace RuleScope

open RuleTree Snapshot

namespace Session

/-- The session with another model. -/
def withModel (s : Session) (m : RuleModel) : Session := { s with model := some m }

variable {settings : Settings} {d₀ d' : Disk} {s : Session} {m : RuleModel}

/-- Opening a session over these settings shows the model. -/
def OpensAs (d : Disk) (settings : Settings) (m : RuleModel) : Prop :=
  ∃ m', (ofSettings d settings).model = some m' ∧ m'.ShowsAs m

/-- A new session starts with what the old one remembered. -/
theorem Grounded.memory_start (h : s.Grounded settings d₀) (low : s.remembered.height ≤ 63)
    {path : String} (hpath : s.store.pathOf (sessionName s.sourceRoot) = .ok path)
    (hsaved : d'.readText path = .ok s.remembered.toText) :
    (start d' settings).memory = s.remembered := by
  have hload := SnapshotStore.loadSession?_of_readText hpath hsaved h.remembered_storable
  rw [if_pos low, h.store_eq, h.sourceRoot_eq] at hload
  simp only [start, hload, Option.getD_some]

/-- A session that starts with what another one remembered opens as that one's model. -/
theorem Grounded.opensAs (h : s.Grounded settings d₀) (hm : s.model = some m)
    (distinct : m.tree.DistinctLabels)
    (hmemory : (start d' settings).memory = s.remembered)
    (hlocation : d'.readText settings.locationPath = d₀.readText settings.locationPath) :
    OpensAs d' settings m := by
  have hc := h.consistent m hm
  obtain ⟨m₀, hload, htree⟩ := h.loaded m hm
  obtain ⟨m₁, hload', outline⟩ := RuleModel.load_outline hload hlocation
  obtain ⟨m', hmodel, _, hc', htree', _, hrestored⟩ :=
    adopt_spec (s := (start d' settings).remember) (d := d') (RuleModel.load_new hload')
  have hopen : (ofSettings d' settings).model = some m' := by
    rcases rebuild_cases (start d' settings) d' with ⟨e, he, _⟩ | ⟨he, _⟩ | ⟨m₂, he, hr⟩
    · cases he.symm.trans hload'
    · cases he.symm.trans hload'
    · cases he.symm.trans hload'
      rw [ofSettings, hr]
      exact hmodel
  have hknown : (start d' settings).remember.memory.knowledge =
      s.memory.knowledge.followedBy m.knowledge := by
    have hstart : (start d' settings).remember.memory = (start d' settings).memory := rfl
    rw [hstart, hmemory, remembered_of_model hm, retrieve_knowledge hc.wellFormed distinct]
  rw [hknown] at hrestored
  refine ⟨m', hopen, (Knowledge.followedBy_restoredOn hc distinct _).showsAs hrestored hc hc' ?_⟩
  rwa [htree, htree']

theorem save_eq (s : Session) (d : Disk) :
    s.save d = (s.remember, s.store.saveSession d s.sourceRoot s.remembered) := by
  have hstore : s.remember.store.saveSession d s.remember.sourceRoot s.remember.memory =
      s.store.saveSession d s.sourceRoot s.remembered := by simp only [remember]
  simp only [save, hstore]

theorem save_ok {d : Disk} {path : String} {t : Session} (h : s.save d = (t, d', .ok path)) :
    s.store.pathOf (sessionName s.sourceRoot) = .ok path ∧
      d'.readText path = .ok s.remembered.toText := by
  rw [save_eq] at h
  exact SnapshotStore.saveSession_ok (congrArg Prod.snd h)

/-- A session that was saved opens as its model, as long as nothing changes the two files. -/
theorem Grounded.opensAs_of_save (h : s.Grounded settings d₀) (hm : s.model = some m)
    (distinct : m.tree.DistinctLabels) (low : s.remembered.height ≤ 63) {d d'' : Disk}
    {path : String} {t : Session} (hsave : s.save d = (t, d', .ok path))
    (hsaved : d''.readText path = d'.readText path)
    (hlocation : d''.readText settings.locationPath = d₀.readText settings.locationPath) :
    OpensAs d'' settings m := by
  obtain ⟨hpath, hwritten⟩ := save_ok hsave
  exact h.opensAs hm distinct (h.memory_start low hpath (hsaved.trans hwritten)) hlocation

end Session

namespace Command

/-- What setting a state makes of the model of a session: nothing without a model, for an unknown
target, and for a state that cannot be chosen. -/
def change? (s : Session) (target : String) (state : LoggingState) : Option Update := do
  let m ← s.model
  let n ← (m.tree.target target).toOption
  (m.setState n state).toOption

/-- Setting a state fails with nothing done, or the session is saved with the changed model. -/
theorem set_cases (s : Session) (d : Disk) (target : String) (state : LoggingState) :
    (change? s target state = none ∧ ∃ e, set s d target state = ⟨s, d, .error e⟩) ∨
    ∃ m n u d', s.model = some m ∧ m.setState n state = .ok u ∧ change? s target state = some u ∧
      ((∃ path line,
        (s.withModel u.model).save d = ((s.withModel u.model).remember, d', .ok path) ∧
        set s d target state = ⟨(s.withModel u.model).remember, d', .ok [line]⟩) ∨
      ∃ e, (s.withModel u.model).save d = ((s.withModel u.model).remember, d', .error e) ∧
        set s d target state = ⟨(s.withModel u.model).remember, d', .error (.store e)⟩) := by
  cases hm : s.model with
  | none => exact Or.inl ⟨by simp [change?, hm], .noModel, by simp [set, hm]⟩
  | some m =>
    cases ht : m.tree.target target with
    | error e =>
      exact Or.inl ⟨by simp [change?, hm, ht, Except.toOption], .target e, by simp [set, hm, ht]⟩
    | ok n =>
      cases hu : m.setState n state with
      | error e =>
        exact Or.inl ⟨by simp [change?, hm, ht, hu, Except.toOption], .change e,
          by simp [set, hm, ht, hu]⟩
      | ok u =>
        obtain ⟨d', saved, hsave⟩ : ∃ d' saved,
            (s.withModel u.model).save d = ((s.withModel u.model).remember, d', saved) :=
          ⟨_, _, rfl⟩
        refine Or.inr ⟨m, n, u, d', rfl, hu, by simp [change?, hm, ht, hu, Except.toOption], ?_⟩
        unfold Session.withModel at hsave ⊢
        cases saved with
        | ok path =>
          refine Or.inl ⟨path, ?_⟩
          simp only [set, hm, ht, hu, hsave]
          exact ⟨_, trivial, rfl⟩
        | error e => exact Or.inr ⟨e, hsave, by simp only [set, hm, ht, hu, hsave]⟩

end Command

namespace Session

/-- A changed model is that of a session that can be reached. -/
theorem Reached.withState {settings : Settings} {d₀ : Disk} {s : Session}
    (h : Reached settings d₀ s) {m : RuleModel} (hm : s.model = some m) {n : Nat}
    {state : LoggingState} {u : Update} (hu : m.setState n state = .ok u) :
    Reached settings d₀ (s.withModel u.model) := by
  have hact : m.act (.edit (.setState n state)) = u.model := by
    simp [RuleModel.act, RuleModel.edit?, hu, Except.toOption]
  have hstep := h.stepped (.act (.edit (.setState n state)))
  rwa [step_act_of_model hm, hact] at hstep

/-- Saving a session, however it was reached, and opening one over the same settings again shows the
model as it was: all of its nodes with their states and flags. So it is when the command to set a
state succeeds, and what opens then has that change. When the state cannot be set, the command fails
and the disk is as before; when the session cannot be saved, it fails and no file has changed. -/
theorem reached_opensAs (settings : Settings) :
    (∀ d₀ s m, Reached settings d₀ s → s.model = some m → m.tree.DistinctLabels →
      s.remembered.height ≤ 63 → ∀ d t d' path, s.save d = (t, d', .ok path) →
      ∀ d'' : Disk, d''.readText path = d'.readText path →
        d''.readText settings.locationPath = d₀.readText settings.locationPath →
        OpensAs d'' settings m) ∧
    ∀ d projectDir target state d' out,
      Command.runIn d projectDir settings (.set target state) = (d', out) →
      (Command.change? (ofSettings d settings) target state = none ∧
        (∃ e, out = .failure [] e) ∧ d' = d) ∨
      ∃ u, Command.change? (ofSettings d settings) target state = some u ∧
        ((∃ line path, out = .success [line] ∧
          (SnapshotStore.mk settings.snapshotDir).pathOf (sessionName settings.sourceRoot) =
            .ok path ∧
          (u.model.tree.DistinctLabels →
            ((ofSettings d settings).withModel u.model).remembered.height ≤ 63 →
            ∀ d'' : Disk, d''.readText path = d'.readText path →
              d''.readText settings.locationPath = d.readText settings.locationPath →
              OpensAs d'' settings u.model)) ∨
          (∃ cause, out = .failure [] (.store cause)) ∧
            ∀ path text, d.readText path = .ok text → d'.readText path = .ok text) := by
  refine ⟨fun d₀ s m h hm distinct low d t d' path hsave d'' hsaved hlocation =>
    h.grounded.opensAs_of_save hm distinct low hsave hsaved hlocation,
    fun d projectDir target state d' out hrun => ?_⟩
  simp only [Command.runIn] at hrun
  rcases Command.set_cases (ofSettings d settings) d target state with
    ⟨hnone, e, hset⟩ | ⟨m, n, u, d₁, hm, hu, hsome, ⟨path, line, hsave, hset⟩ | ⟨e, hsave, hset⟩⟩
  · rw [hset] at hrun
    cases hrun
    exact Or.inl ⟨hnone, ⟨e, rfl⟩, rfl⟩
  · rw [hset] at hrun
    cases hrun
    have h := ((reached_ofSettings settings d).withState hm hu).grounded
    have hpath := (save_ok hsave).1
    rw [h.store_eq, h.sourceRoot_eq] at hpath
    exact Or.inr ⟨u, hsome, Or.inl ⟨line, path, rfl, hpath, fun distinct low d'' hsaved hlocation =>
      h.opensAs_of_save rfl distinct low hsave hsaved hlocation⟩⟩
  · rw [hset] at hrun
    cases hrun
    refine Or.inr ⟨u, hsome, Or.inr ⟨⟨e, rfl⟩, fun path text htext => ?_⟩⟩
    rw [save_eq] at hsave
    exact (SnapshotStore.saveSession_error (congrArg Prod.snd hsave)).readText htext

/-- A session with a chosen rule and an open import. -/
def chosenSession : Session :=
  ((ofSettings (locationDisk includedText) locationSettings).step
    (.act (.edit (.setState 2 .ifTrue)))).step (.act (.setExpanded 1 true))

theorem readText_locationDisk (text : String) :
    (locationDisk text).readText locationSettings.locationPath = .ok text := rfl

/-- Both are there in the next session, and so is what the command sets. -/
theorem reached_opensAs_chosen :
    (∃ t d' path m, chosenSession.save (locationDisk includedText) = (t, d', .ok path) ∧
      (ofSettings d' locationSettings).model = some m ∧ m.state 2 = .ifTrue ∧
      m.isExpanded 1 = true) ∧
    ∃ d' line m, Command.runIn (locationDisk includedText) "/" locationSettings
        (.set "sub/bye" .always) = (d', .success [line]) ∧
      (ofSettings d' locationSettings).model = some m ∧ m.state 2 = .always := by
  obtain ⟨hsaves, hsets⟩ := reached_opensAs locationSettings
  constructor
  · have hreached : Reached locationSettings (locationDisk includedText) chosenSession :=
      ((reached_ofSettings locationSettings (locationDisk includedText)).stepped
        (.act (.edit (.setState 2 .ifTrue)))).stepped (.act (.setExpanded 1 true))
    have facts : (chosenSession.model.bind fun m =>
        let saved := chosenSession.save (locationDisk includedText)
        saved.2.2.toOption.map fun _ => decide (m.tree.DistinctLabels ∧
          (m.state 2 = .ifTrue ∧ m.isExpanded 1 = true) ∧ chosenSession.remembered.height ≤ 63 ∧
          (saved.2.1.readText locationSettings.locationPath).toOption = some includedText)) =
        some true := by
      decide +kernel
    obtain ⟨m, hm, facts⟩ := Option.bind_eq_some_iff.mp facts
    obtain ⟨t, d', saved, hsave⟩ : ∃ t d' saved,
        chosenSession.save (locationDisk includedText) = (t, d', saved) := ⟨_, _, _, rfl⟩
    rw [hsave] at facts
    obtain ⟨path, hpath, facts⟩ := Option.map_eq_some_iff.mp facts
    obtain rfl : saved = .ok path := eq_ok_of_toOption hpath
    obtain ⟨distinct, ⟨hstate, hexpanded⟩, low, hlocation⟩ := of_decide_eq_true facts
    obtain ⟨m', hopen, hshows⟩ := hsaves _ _ m hreached hm distinct low _ t d' path hsave d' rfl
      ((eq_ok_of_toOption hlocation).trans (readText_locationDisk includedText).symm)
    exact ⟨t, d', path, m', hsave, hopen, (hshows.state_eq 2).trans hstate,
      (hshows.isExpanded_eq 1).trans hexpanded⟩
  · obtain ⟨d', out, hrun⟩ : ∃ d' out, Command.runIn (locationDisk includedText) "/"
        locationSettings (.set "sub/bye" .always) = (d', out) := ⟨_, _, rfl⟩
    have facts : (Command.change? (ofSettings (locationDisk includedText) locationSettings)
        "sub/bye" .always).map (fun u => decide (u.model.tree.DistinctLabels ∧
          u.model.state 2 = .always ∧
          ((ofSettings (locationDisk includedText) locationSettings).withModel
            u.model).remembered.height ≤ 63)) = some true := by
      decide +kernel
    have ended : (match (Command.runIn (locationDisk includedText) "/" locationSettings
          (.set "sub/bye" .always)).2 with
        | .ended e => e.fault.isNone
        | .watching _ _ => false) = true ∧
        ((Command.runIn (locationDisk includedText) "/" locationSettings
          (.set "sub/bye" .always)).1.readText locationSettings.locationPath).toOption =
            some includedText := by
      decide +kernel
    rw [hrun] at ended
    rcases hsets _ "/" "sub/bye" .always d' out hrun with
      ⟨hnone, -, -⟩ | ⟨u, hu, ⟨line, path, rfl, -, hopens⟩ | ⟨⟨cause, rfl⟩, -⟩⟩
    · rw [hnone] at facts
      cases facts
    · rw [hu, Option.map_some, Option.some.injEq] at facts
      obtain ⟨distinct, hstate, low⟩ := of_decide_eq_true facts
      obtain ⟨m, hopen, hshows⟩ := hopens distinct low d' rfl
        ((eq_ok_of_toOption ended.2).trans (readText_locationDisk includedText).symm)
      exact ⟨d', line, m, hrun, hopen, (hshows.state_eq 2).trans hstate⟩
    · cases ended.1

end Session

end RuleScope
