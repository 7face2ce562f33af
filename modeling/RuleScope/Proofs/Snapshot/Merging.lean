import RuleScope.Proofs.Snapshot.Height

namespace RuleScope

open RuleTree

namespace Snapshot

/-- Entries take a model over by merging what is captured of it. -/
theorem Entry.merge_rootEntry {m : RuleModel} (wf : m.tree.WellFormed) {e : Entry}
    (h : e.Ordered) : e.merge (rootEntry m) = m.record e := by
  have hnew : (rootEntry m).Ordered := RuleModel.record_ordered (Entry.leaf_ordered _ _) m
  refine Entry.eq_of_known? (Entry.merge_ordered h hnew) (RuleModel.record_ordered h m)
    fun labels => ?_
  have hrecord : (m.record e).known? labels = _ :=
    RuleModel.known?_recordNodes wf e (Nat.le_refl _) labels
  rw [Entry.known?_merge hnew, known?_rootEntry wf, hrecord]

/-- To take a model over a second time adds nothing. -/
theorem Entry.record_record {m : RuleModel} (wf : m.tree.WellFormed) {e : Entry} (h : e.Ordered) :
    m.record (m.record e) = m.record e := by
  have hrecord := RuleModel.record_ordered h m
  refine Entry.eq_of_known? (RuleModel.record_ordered hrecord m) hrecord fun labels => ?_
  have hknown : ∀ e : Entry, (m.record e).known? labels =
      ((m.lastWith? m.tree.size labels).map m.known).or (e.known? labels) := fun e =>
    RuleModel.known?_recordNodes wf e (Nat.le_refl _) labels
  rw [hknown (m.record e), hknown e, ← Option.or_assoc, Option.or_self]

variable {m : RuleModel} {s a b c : Snapshot}

theorem retrieve_retrieve_self (wf : m.tree.WellFormed) (hs : s.Ordered) :
    (s.retrieve m).retrieve m = s.retrieve m := by
  have hleaf := Entry.leaf_ordered (m.state RuleTree.root) (m.tree.isImport RuleTree.root)
  have hstart : (((if s.rootLabel = some m.tree.rootLabel then s.root else none)).getD
      (.leaf (m.state RuleTree.root) (m.tree.isImport RuleTree.root))).Ordered := by
    split
    · cases hroot : s.root with
      | none => exact hleaf
      | some e => exact hs e hroot
    · exact hleaf
  have hrecord := Entry.record_record wf hstart
  simp only [retrieve, if_pos, Option.getD_some]
  rw [hrecord]

/-- Taking a model over is merging a capture of it, but for the version. -/
theorem retrieve_eq_merge (wf : m.tree.WellFormed) (hs : s.Ordered) :
    (s.retrieve m).rootLabel = (s.merge (capture m)).rootLabel ∧
      (s.retrieve m).root = (s.merge (capture m)).root := by
  by_cases hlabel : s.rootLabel = some m.tree.rootLabel
  · cases hroot : s.root with
    | none => simp [retrieve, merge, capture_eq, rootEntry, hlabel, hroot]
    | some e =>
      have hmerge := Entry.merge_rootEntry wf (hs e hroot)
      simp [retrieve, merge, capture_eq, hlabel, hroot, hmerge]
  · -- Another project: both forget what was known before.
    simp [retrieve, merge, capture_eq, rootEntry, hlabel]

theorem merge_of_root_eq_none (hb : b.root = none) : a.merge b = a := by simp [merge, hb]

theorem merge_fields (same : a.rootLabel = b.rootLabel) :
    (a.merge b).version = a.version ∧ (a.merge b).rootLabel = a.rootLabel := by
  cases hb : b.root with
  | none => simp [merge, hb]
  | some e => cases ha : a.root <;> simp [merge, hb, ha, same]

theorem known?_merge (hb : b.Ordered) (same : a.rootLabel = b.rootLabel) (labels : List String) :
    (a.merge b).known? labels = (b.known? labels).or (a.known? labels) := by
  cases hroot : b.root with
  | none => simp [merge_of_root_eq_none hroot, known?_eq b, hroot]
  | some e =>
    have hknowledge : (a.merge b).knowledge = a.knowledge.followedBy b.knowledge :=
      merge_knowledge hb (by simp [hroot])
    have hat := congrFun (congrArg Knowledge.at? hknowledge) labels
    simpa [knowledge, Knowledge.followedBy, Knowledge.below?, same] using hat

/-- Snapshots in order are the same when they say the same of every label path. -/
theorem eq_of_known? (ha : a.Ordered) (hb : b.Ordered) (version : a.version = b.version)
    (label : a.rootLabel = b.rootLabel) (same : ∀ labels, a.known? labels = b.known? labels) :
    a = b := by
  obtain ⟨version, label, root⟩ := a
  obtain ⟨version', label', root'⟩ := b
  have hroot : root = root' := by
    simp only [known?_eq] at same
    cases root with
    | none =>
      cases root' with
      | none => rfl
      | some e' =>
        have := same []
        simp at this
    | some e =>
      cases root' with
      | none =>
        have := same []
        simp at this
      | some e' => exact congrArg some (Entry.eq_of_known? (ha e rfl) (hb e' rfl) same)
  cases version
  cases label
  rw [hroot]

/-- A second merge of the same snapshot finds nothing new. -/
theorem merge_merge_self (ha : a.Ordered) (hb : b.Ordered) (same : a.rootLabel = b.rootLabel) :
    (a.merge b).merge b = a.merge b := by
  obtain ⟨hversion, hlabel⟩ := merge_fields same
  have hab := merge_ordered ha hb
  have same' : (a.merge b).rootLabel = b.rootLabel := hlabel.trans same
  obtain ⟨hversion', hlabel'⟩ := merge_fields same'
  refine eq_of_known? (merge_ordered hab hb) hab hversion' hlabel' fun labels => ?_
  rw [known?_merge hb same', known?_merge hb same]
  cases b.known? labels <;> rfl

/-- Newer values win over older ones, whichever are merged first. -/
theorem merge_assoc (ha : a.Ordered) (hb : b.Ordered) (hc : c.Ordered)
    (hab : a.rootLabel = b.rootLabel) (hbc : b.rootLabel = c.rootLabel) :
    (a.merge b).merge c = a.merge (b.merge c) := by
  have left : (a.merge b).rootLabel = c.rootLabel := (merge_fields hab).2.trans (hab.trans hbc)
  have right : a.rootLabel = (b.merge c).rootLabel := hab.trans (merge_fields hbc).2.symm
  have hbc' := merge_ordered hb hc
  refine eq_of_known? (merge_ordered (merge_ordered ha hb) hc) (merge_ordered ha hbc') ?_ ?_
    fun labels => ?_
  · rw [(merge_fields left).1, (merge_fields hab).1, (merge_fields right).1]
  · rw [(merge_fields left).2, (merge_fields hab).2, (merge_fields right).2]
  · rw [known?_merge hc left, known?_merge hb hab, known?_merge hbc' right, known?_merge hc hbc,
      Option.or_assoc]

/-- Of any model in any state, a snapshot learns the same by taking it over as by merging a capture
of it. Merging snapshots of one root keeps exactly the label paths of both, with the newer values
where the newer one has the path; merging again changes nothing, and merges can be bracketed either
way. -/
theorem merging_keeps_and_renews {resolve : String → AbsPath} {sourceRoot : String} {l : Location}
    {m₀ : RuleModel} (h : RuleModel.build resolve sourceRoot l = .ok m₀) (actions : List Action)
    (hs : s.Ordered) (ha : a.Ordered) (hb : b.Ordered) (hc : c.Ordered)
    (hab : a.rootLabel = b.rootLabel) (hbc : b.rootLabel = c.rootLabel) :
    ((s.retrieve (m₀.run actions)).rootLabel = (s.merge (capture (m₀.run actions))).rootLabel ∧
      (s.retrieve (m₀.run actions)).root = (s.merge (capture (m₀.run actions))).root) ∧
    (∀ labels, ((a.merge b).known? labels).isSome = true ↔
      (a.known? labels).isSome = true ∨ (b.known? labels).isSome = true) ∧
    (∀ labels, (a.merge b).known? labels = (b.known? labels).or (a.known? labels)) ∧
    (a.merge b).merge b = a.merge b ∧
    (a.merge b).merge c = a.merge (b.merge c) := by
  obtain ⟨hm, -⟩ := RuleModel.run_consistent (RuleModel.build_consistent h) actions
  have known := known?_merge hb hab
  refine ⟨retrieve_eq_merge hm.wellFormed hs, fun labels => ?_, known, merge_merge_self ha hb hab,
    merge_assoc ha hb hc hab hbc⟩
  rw [known, Option.isSome_or, Bool.or_eq_true, or_comm]

/-- The older project has none of the rules of the newer one, in which two rules share a label. -/
theorem merging_keeps_and_renews_twins : ∃ m₀ m₁,
    RuleModel.build (AbsPath.lexical AbsPath.root) "/src" twinLocation = .ok m₀ ∧
    RuleModel.build (AbsPath.lexical AbsPath.root) "/src" RuleModel.nestedLocation = .ok m₁ ∧
    ((capture m₁).retrieve (m₀.run [.edit (.setState 2 .ifTrue)])).root =
      ((capture m₁).merge (capture (m₀.run [.edit (.setState 2 .ifTrue)]))).root ∧
    ((capture m₁).merge (capture (m₀.run [.edit (.setState 2 .ifTrue)]))).known? ["rate"] =
      some ⟨false, .ifTrue, false⟩ ∧
    ((capture m₁).merge (capture m₀)).merge (capture m₁) =
      (capture m₁).merge ((capture m₀).merge (capture m₁)) := by
  obtain ⟨m₀, h₀⟩ := exists_build_twinLocation
  obtain ⟨m₁, h₁⟩ := RuleModel.exists_build_nestedLocation
  have facts : ((RuleModel.build (AbsPath.lexical AbsPath.root) "/src" twinLocation).toOption.bind
      fun m₀ : RuleModel =>
        (RuleModel.build (AbsPath.lexical AbsPath.root) "/src" RuleModel.nestedLocation).toOption.map
          fun m₁ : RuleModel => decide (
            (capture m₁).rootLabel = (capture m₀).rootLabel ∧
            (capture m₁).rootLabel = (capture (m₀.run [.edit (.setState 2 .ifTrue)])).rootLabel ∧
            (capture (m₀.run [.edit (.setState 2 .ifTrue)])).known? ["rate"] =
              some ⟨false, .ifTrue, false⟩)) = some true := by
    decide +kernel
  rw [h₀, h₁] at facts
  obtain ⟨hfirst, hlater, hrate⟩ := of_decide_eq_true (Option.some.inj facts)
  have old := capture_ordered m₁
  obtain ⟨-, -, -, -, hassoc⟩ := merging_keeps_and_renews h₀ [] old old (capture_ordered m₀) old
    hfirst hfirst.symm
  obtain ⟨⟨-, hroot⟩, -, hknown, -⟩ := merging_keeps_and_renews h₀ [.edit (.setState 2 .ifTrue)]
    old old (capture_ordered _) old hlater hlater.symm
  refine ⟨m₀, m₁, h₀, h₁, hroot, ?_, hassoc⟩
  rw [hknown, hrate, Option.some_or]

end Snapshot

end RuleScope
