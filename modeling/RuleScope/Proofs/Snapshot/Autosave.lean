import RuleScope.Proofs.Disk.Growth
import RuleScope.Proofs.Location.Towers
import RuleScope.Proofs.Snapshot.Height
import RuleScope.Snapshot.Store

namespace RuleScope

open Snapshot

namespace SnapshotStore

variable {store : SnapshotStore} {d d' : Disk} {sourceRoot path : String} {s : Snapshot}

/-- What writing a file does: it makes directories, and then it puts the file where its path leads or
gives up. -/
theorem writeFile_cases (d : Disk) (path text : String) : ∃ made, d.AddsDirectories made ∧
    ((∃ e, writeFile d path text = (made, some e)) ∨
      ∃ d', made.write path text = .ok d' ∧ writeFile d path text = (d', none)) := by
  unfold writeFile
  split
  next made fault hmade =>
    have adds : d.AddsDirectories made := by
      split at hmade
      next dir _ =>
        have := d.makeDirectories_adds dir
        rwa [hmade] at this
      next =>
        cases hmade
        exact .refl
    refine ⟨made, adds, ?_⟩
    cases fault with
    | some e => exact .inl ⟨e, rfl⟩
    | none =>
      cases hwrite : made.write path text with
      | error e => exact .inl ⟨e, rfl⟩
      | ok d' => exact .inr ⟨d', rfl, rfl⟩

/-- A file that could be written is read back; otherwise no more than directories were made. -/
theorem writeFile_spec (d : Disk) (path text : String) :
    ((writeFile d path text).2 = none → (writeFile d path text).1.readText path = .ok text) ∧
      ((writeFile d path text).2.isSome → d.Extends (writeFile d path text).1) := by
  obtain ⟨made, adds, ⟨e, h⟩ | ⟨d', hwrite, h⟩⟩ := writeFile_cases d path text
  · rw [h]
    exact ⟨nofun, fun _ => adds.toExtends⟩
  · rw [h]
    exact ⟨fun _ => Disk.readText_of_write hwrite, nofun⟩

/-- So is a snapshot that could be saved. -/
theorem save_ok {name : String} (h : store.save d name s = (d', .ok path)) :
    store.pathOf name = .ok path ∧ d'.readText path = .ok s.toText := by
  unfold save at h
  split at h
  next => cases h
  next p hp =>
    have hwritten := writeFile_spec d p s.toText
    split at h
    next hw =>
      cases h
      rw [hw] at hwritten
      exact ⟨hp, hwritten.1 rfl⟩
    next => cases h

theorem saveSession_ok (h : store.saveSession d sourceRoot s = (d', .ok path)) :
    store.pathOf (sessionName sourceRoot) = .ok path ∧ d'.readText path = .ok s.toText :=
  save_ok h

theorem saveSession_error {e : StoreFault} (h : store.saveSession d sourceRoot s = (d', .error e)) :
    d.Extends d' := by
  unfold saveSession save at h
  split at h
  next =>
    cases h
    exact .refl d
  next p hp =>
    have hwritten := writeFile_spec d p s.toText
    split at h
    next => cases h
    next hw =>
      cases h
      rw [hw] at hwritten
      exact hwritten.2 rfl

/-- What is read from a file is what its text says. -/
theorem read_of_readText {text : String} (h : d.readText path = .ok text) :
    read d path = (ofText text).mapError (.corrupt path) := by
  unfold read
  rw [Disk.has_of_readText h, h]
  rfl

theorem toOption_read {text : String} (h : d.readText path = .ok text) :
    (read d path).toOption = (ofText text).toOption := by
  rw [read_of_readText h]
  cases ofText text <;> rfl

/-- A snapshot is loaded from a file that holds its text, if it is not too high. -/
theorem load_of_readText {name : String} (hp : store.pathOf name = .ok path)
    (hd : d.readText path = .ok s.toText) (hs : s.Storable) :
    (store.load d name).toOption = if s.height ≤ 63 then some s else none := by
  have hload : store.load d name = read d path := by
    rw [load, hp]
    rfl
  rw [hload, toOption_read hd, ofText_toText hs.ordered hs.version_le]

theorem loadSession?_of_readText (hp : store.pathOf (sessionName sourceRoot) = .ok path)
    (hd : d.readText path = .ok s.toText) (hs : s.Storable) :
    store.loadSession? d sourceRoot = if s.height ≤ 63 then some s else none :=
  load_of_readText hp hd hs

/-- A saved session is read back exactly if the disk gives back its text and it is not too high. -/
theorem loadSession?_saveSession (hs : store.saveSession d sourceRoot s = (d', .ok path))
    (hd : d'.readText path = .ok s.toText) (ho : s.Ordered) (hv : s.version ≤ Text.maxNat32) :
    store.loadSession? d' sourceRoot = if s.height ≤ 63 then some s else none :=
  loadSession?_of_readText (saveSession_ok hs).1 hd ⟨ho, hv⟩

end SnapshotStore

namespace Snapshot

/-- Of a location tree from a text, after any run, the saved session is read back unless the tree is
as high as the text allows. -/
theorem build_run_loadSession? {text : String} {l : Location} (hl : Location.ofText text = .ok l)
    {resolve : String → AbsPath} {sourceRoot : String} {m₀ : RuleModel}
    (hb : RuleModel.build resolve sourceRoot l = .ok m₀) (actions : List Action)
    {store : SnapshotStore} {d d' : Disk} {path : String}
    (hs : store.saveSession d sourceRoot (capture (m₀.run actions)) = (d', .ok path))
    (hd : d'.readText path = .ok (capture (m₀.run actions)).toText) :
    l.height ≤ 64 ∧ store.loadSession? d' sourceRoot =
      if l.height = 64 then none else some (capture (m₀.run actions)) := by
  obtain ⟨hc, htree⟩ := RuleModel.run_consistent (RuleModel.build_consistent hb) actions
  have hlimit := Location.height_le_of_ofText hl
  have hheight : (capture (m₀.run actions)).height = l.height := by
    obtain ⟨t, ht, rfl⟩ := RuleModel.build_eq_ofTree hb
    obtain ⟨hle, hmax⟩ := RuleTree.build_depth ht
    apply height_capture hc.wellFormed
    · rw [htree]
      exact hle
    · rw [htree]
      exact hmax
  have hversion : (capture (m₀.run actions)).version ≤ Text.maxNat32 := by
    have hformat : (capture (m₀.run actions)).version = formatVersion := by rw [capture_eq]
    rw [hformat]
    decide
  have hload := SnapshotStore.loadSession?_saveSession hs hd (capture_ordered _) hversion
  refine ⟨hlimit, ?_⟩
  rw [hload, hheight]
  split_ifs <;> first | rfl | omega

def ruleText : String := "label: main\nchildren: [\x7blabel: rate, id: 1\x7d]"

/-- The choices on a tree of two levels are there again. -/
theorem build_rule_loadSession? : ∃ l m₀ d' path,
    Location.ofText ruleText = .ok l ∧
    RuleModel.build (AbsPath.lexical AbsPath.root) "/src" l = .ok m₀ ∧
    SnapshotStore.saveSession ⟨"/saved"⟩ ⟨[], .root, 0⟩ "/src"
      (capture (m₀.run [.edit (.setState 1 .ifTrue), .setExpanded 0 true])) = (d', .ok path) ∧
    SnapshotStore.loadSession? ⟨"/saved"⟩ d' "/src" =
      some (capture (m₀.run [.edit (.setState 1 .ifTrue), .setExpanded 0 true])) := by
  have facts : ((Location.ofText ruleText).toOption.bind fun l =>
      (RuleModel.build (AbsPath.lexical AbsPath.root) "/src" l).toOption.bind fun m₀ =>
        let s := capture (m₀.run [.edit (.setState 1 .ifTrue), .setExpanded 0 true])
        let saved := SnapshotStore.saveSession ⟨"/saved"⟩ ⟨[], .root, 0⟩ "/src" s
        saved.2.toOption.map fun path =>
          decide (l.height ≠ 64 ∧ (saved.1.readText path).toOption = some s.toText)) = some true := by
    decide +kernel
  obtain ⟨l, hl, facts⟩ := Option.bind_eq_some_iff.mp facts
  obtain ⟨m₀, hb, facts⟩ := Option.bind_eq_some_iff.mp facts
  obtain ⟨path, hpath, facts⟩ := Option.map_eq_some_iff.mp facts
  obtain ⟨hlow, hd⟩ := of_decide_eq_true facts
  obtain ⟨d', saved, hs⟩ : ∃ d' saved, SnapshotStore.saveSession ⟨"/saved"⟩ ⟨[], .root, 0⟩ "/src"
      (capture (m₀.run [.edit (.setState 1 .ifTrue), .setExpanded 0 true])) = (d', saved) :=
    ⟨_, _, rfl⟩
  rw [hs] at hpath hd
  obtain rfl : saved = .ok path := eq_ok_of_toOption hpath
  obtain ⟨-, hload⟩ := build_run_loadSession? (eq_ok_of_toOption hl) (eq_ok_of_toOption hb) _ hs
    (eq_ok_of_toOption hd)
  rw [if_neg hlow] at hload
  exact ⟨l, m₀, _, path, eq_ok_of_toOption hl, eq_ok_of_toOption hb, hs, hload⟩

/-- The choices on a tree of 64 levels are gone. -/
theorem build_tower_loadSession? : ∃ l m₀ d' path,
    Location.ofText (Location.towerFlow 63).text = .ok l ∧
    RuleModel.build (AbsPath.lexical AbsPath.root) "/src" l = .ok m₀ ∧
    SnapshotStore.saveSession ⟨"/saved"⟩ ⟨[], .root, 0⟩ "/src"
      (capture (m₀.run [.edit (.setRuleState Location.towerRule .always)])) = (d', .ok path) ∧
    d'.readText path =
      .ok (capture (m₀.run [.edit (.setRuleState Location.towerRule .always)])).toText ∧
    SnapshotStore.loadSession? ⟨"/saved"⟩ d' "/src" = none := by
  have facts : ((RuleModel.build (AbsPath.lexical AbsPath.root) "/src"
      (Location.tower 63)).toOption.bind fun m₀ =>
        let s := capture (m₀.run [.edit (.setRuleState Location.towerRule .always)])
        (SnapshotStore.saveSession ⟨"/saved"⟩ ⟨[], .root, 0⟩ "/src" s).2.toOption.map fun _ =>
          decide (s.height = 64 ∧ s.version ≤ Text.maxNat32)) = some true := by
    decide +kernel
  obtain ⟨m₀, hb, facts⟩ := Option.bind_eq_some_iff.mp facts
  obtain ⟨path, hpath, facts⟩ := Option.map_eq_some_iff.mp facts
  obtain ⟨hheight, hversion⟩ := of_decide_eq_true facts
  obtain ⟨d', saved, hs⟩ : ∃ d' saved, SnapshotStore.saveSession ⟨"/saved"⟩ ⟨[], .root, 0⟩ "/src"
      (capture (m₀.run [.edit (.setRuleState Location.towerRule .always)])) = (d', saved) :=
    ⟨_, _, rfl⟩
  rw [hs] at hpath
  obtain rfl : saved = .ok path := eq_ok_of_toOption hpath
  have hd := (SnapshotStore.saveSession_ok hs).2
  have hload := SnapshotStore.loadSession?_saveSession hs hd (capture_ordered _) hversion
  rw [hheight, if_neg (by decide)] at hload
  exact ⟨_, m₀, d', path, Location.ofText_towerFlow (by decide), eq_ok_of_toOption hb, hs, hd,
    hload⟩

end Snapshot

end RuleScope
