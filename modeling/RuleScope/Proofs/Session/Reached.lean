import RuleScope.Proofs.Session.Memory

namespace RuleScope

open RuleTree Snapshot

namespace Session

/-- The disk that the model comes from after an event, if it came from `d₀` before. -/
def builtFrom (s : Session) (d₀ : Disk) : Event → Disk
  | .rebuild d => if (s.rebuild d).2 = none then d else d₀
  | _ => d₀

/-- The sessions over these settings, with the disks that their models come from. -/
inductive Reached (settings : Settings) : Disk → Session → Prop
  | started (d : Disk) : Reached settings d (start d settings)
  | stepped {d₀ : Disk} {s : Session} (h : Reached settings d₀ s) (e : Event) :
    Reached settings (s.builtFrom d₀ e) (s.step e)
  | followed {d₀ : Disk} {s : Session} (h : Reached settings d₀ s) (d : Disk)
    (changes : List SourceChange) :
    Reached settings d₀ { s with sources := changes.foldl (follow d) s.sources }

variable {settings : Settings} {d₀ : Disk} {s : Session}

theorem reached_ofSettings (settings : Settings) (d : Disk) :
    Reached settings d (ofSettings d settings) := by
  have hstart : Reached settings d (start d settings) := .started d
  have h := hstart.stepped (.rebuild d)
  rwa [builtFrom, ite_self] at h

/-- A batch of changes is followed, and its disk is the one of the model if that was rebuilt. -/
theorem Reached.applyBatch (h : Reached settings d₀ s) (d : Disk) (b : SourceBatch) :
    Reached settings (if (s.applyBatch d b).2 = .ok true then d else d₀) (s.applyBatch d b).1 := by
  have hfollowed := h.followed d b.changes
  have hrebuilt := hfollowed.stepped (.rebuild d)
  simp only [builtFrom, step] at hrebuilt
  unfold Session.applyBatch
  dsimp only
  split
  next =>
    split
    next hr =>
      rw [hr] at hrebuilt
      exact hrebuilt
    next hr =>
      rw [hr] at hrebuilt
      exact hrebuilt
  next => exact hfollowed

/-- The session works on the files of the settings, its model is that of the location file on `d₀`,
and its memory can be saved. -/
structure Grounded (settings : Settings) (d₀ : Disk) (s : Session) : Prop where
  sourceRoot_eq : s.sourceRoot = settings.sourceRoot
  locationFile_eq : s.locationFile = settings.locationPath
  store_eq : s.store = ⟨settings.snapshotDir⟩
  storable : s.memory.Storable
  consistent : ∀ m ∈ s.model, m.Consistent
  loaded : ∀ m ∈ s.model, ∃ m₀,
    RuleModel.load d₀ settings.locationPath settings.sourceRoot = .ok (some m₀) ∧ m.tree = m₀.tree

theorem Grounded.remembered_storable (h : s.Grounded settings d₀) : s.remembered.Storable := by
  cases hm : s.model with
  | none =>
    rw [remembered_of_none hm]
    exact h.storable
  | some m =>
    rw [remembered_of_model hm]
    exact retrieve_storable h.storable m

theorem start_grounded (d : Disk) (settings : Settings) : (start d settings).Grounded settings d := by
  refine ⟨rfl, rfl, rfl, ?_, nofun, nofun⟩
  have hmemory : (start d settings).memory =
      ((SnapshotStore.mk settings.snapshotDir).loadSession? d settings.sourceRoot).getD .empty := rfl
  rw [hmemory]
  cases hload : (SnapshotStore.mk settings.snapshotDir).loadSession? d settings.sourceRoot with
  | none => exact empty_storable
  | some snapshot => exact SnapshotStore.load_storable (eq_ok_of_toOption hload)

theorem remember_grounded (h : s.Grounded settings d₀) : s.remember.Grounded settings d₀ :=
  ⟨h.sourceRoot_eq, h.locationFile_eq, h.store_eq, h.remembered_storable, h.consistent, h.loaded⟩

theorem rebuild_grounded (h : s.Grounded settings d₀) (d : Disk) :
    (s.rebuild d).1.Grounded settings (s.builtFrom d₀ (.rebuild d)) := by
  have hremember := remember_grounded h
  simp only [builtFrom]
  rcases rebuild_cases s d with ⟨e, _, hr⟩ | ⟨_, hr⟩ | ⟨m, hl, hr⟩
  · rw [hr]
    exact hremember
  · rw [hr]
    exact ⟨h.sourceRoot_eq, h.locationFile_eq, h.store_eq, hremember.storable, nofun, nofun⟩
  · rw [hr, if_pos rfl]
    obtain ⟨m', hmodel, hmemory, hc, htree, _⟩ :=
      adopt_spec (s := s.remember) (d := d) (RuleModel.load_new hl)
    have only : ∀ m'' ∈ (s.remember.adopt d m).announce.model, m'' = m' := fun m'' hm'' =>
      Option.some.inj (hm''.symm.trans hmodel)
    rw [h.locationFile_eq, h.sourceRoot_eq] at hl
    refine ⟨h.sourceRoot_eq, h.locationFile_eq, h.store_eq, ?_, fun m'' hm'' => only m'' hm'' ▸ hc,
      fun m'' hm'' => ⟨m, hl, only m'' hm'' ▸ htree⟩⟩
    show (s.remember.adopt d m).memory.Storable
    rw [hmemory]
    exact retrieve_storable hremember.storable m'

/-- A model of the same tree can take the place of the one that is there. -/
theorem Grounded.withModel (h : s.Grounded settings d₀) {m m' : RuleModel} (hm : s.model = some m)
    (hc : m'.Consistent) (htree : m'.tree = m.tree) {memory : Snapshot} (hs : memory.Storable) :
    ({ s with model := some m', memory } : Session).Grounded settings d₀ := by
  refine ⟨h.sourceRoot_eq, h.locationFile_eq, h.store_eq, hs, fun m'' hm'' => ?_, fun m'' hm'' => ?_⟩
  · cases hm''
    exact hc
  · cases hm''
    rw [htree]
    exact h.loaded m hm

theorem act_grounded (h : s.Grounded settings d₀) (a : Action) :
    (s.step (.act a)).Grounded settings d₀ := by
  cases hm : s.model with
  | none =>
    rwa [step_act_of_none hm]
  | some m =>
    obtain ⟨hc, htree⟩ := RuleModel.act_consistent (h.consistent m hm) a
    rw [step_act_of_model hm]
    exact h.withModel hm hc htree h.storable

theorem applySnapshot_grounded (h : s.Grounded settings d₀) (d : Disk) (name : String) :
    (s.applySnapshot d name).1.Grounded settings d₀ := by
  rcases applySnapshot_cases s d name with
    ⟨snapshot, m, snapshot', u, hload, hm, hr, happly⟩ | ⟨hkeep, _⟩
  · obtain ⟨_, _, rfl, hu, _⟩ := restore?_spec (h.consistent m hm) hr
    rw [happly]
    have hs := retrieve_storable (SnapshotStore.load_storable hload) u.model
    exact h.withModel hm hu.consistent hu.tree_eq (merge_storable h.storable hs)
  · rwa [hkeep]

theorem step_grounded (h : s.Grounded settings d₀) (e : Event) :
    (s.step e).Grounded settings (s.builtFrom d₀ e) := by
  cases e with
  | rebuild d => exact rebuild_grounded h d
  | act a => exact act_grounded h a
  | applySnapshot d name => exact applySnapshot_grounded h d name
  | remember => exact remember_grounded h

theorem Reached.grounded (h : Reached settings d₀ s) : s.Grounded settings d₀ := by
  induction h with
  | started d => exact start_grounded d settings
  | stepped _ e ih => exact step_grounded ih e
  | followed _ _ _ ih =>
    exact ⟨ih.sourceRoot_eq, ih.locationFile_eq, ih.store_eq, ih.storable, ih.consistent, ih.loaded⟩

end Session

end RuleScope
