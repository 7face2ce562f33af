import RuleScope.Proofs.Sources.Removal

namespace RuleScope

/-- What is done to a source tree. An operation that looks at the disk has the disk as it is by then. -/
inductive SourceAction where
  | added (d : Disk) (path : String)
  | changed (d : Disk) (path : String)
  | removed (d : Disk) (path : String)
  | compiled (time : Option Int)
  | caughtUp
  | linked (d : Disk) (rules : RuleTree) (wrapper : Option String)
  | unlinked

namespace SourceTree

variable {t : SourceTree} {d : Disk}

def apply (t : SourceTree) : SourceAction → SourceTree
  | .added d path => t.addDirectory d path
  | .changed d path => t.changed d path
  | .removed d path => t.remove d path
  | .compiled time => t.compiled time
  | .caughtUp => t.markUpToDate
  | .linked d rules wrapper => t.link d rules wrapper
  | .unlinked => t.unlink

theorem markUpToDate_eq (t : SourceTree) : t.markUpToDate = t.compiled t.locationTime := rfl

theorem Tied.apply (h : t.Tied) (a : SourceAction) : (t.apply a).Tied := by
  cases a with
  | added d path => exact h.addPlace d _
  | changed d path => exact h.changed d path
  | removed d path => exact h.remove d path
  | compiled time => exact h.compiled time
  | caughtUp =>
    rw [SourceTree.apply, markUpToDate_eq]
    exact h.compiled _
  | linked d rules wrapper => exact h.link d rules wrapper
  | unlinked => exact h.unlink

theorem compiled_alarmed (t : SourceTree) (time : Option Int) : (t.compiled time).Alarmed := by
  intro q k hk hflag
  rw [mark?_compiled] at hk
  obtain ⟨k, -, rfl⟩ := Option.map_eq_some_iff.mp hk
  cases hflag

theorem Alarmed.apply (h : t.Alarmed) (htied : t.Tied) (a : SourceAction) :
    (t.apply a).Alarmed := by
  cases a with
  | added d path => exact (addPlace_heeds t d _).alarmed h
  | changed d path =>
    rw [SourceTree.apply, SourceTree.changed]
    split
    next => exact (addPlace_heeds t d _).alarmed h
    next => exact (touchFile_heeds t d _).alarmed h
  | removed d path => exact (remove_heeds htied.closed d path).alarmed h
  | compiled time => exact compiled_alarmed t time
  | caughtUp =>
    rw [SourceTree.apply, markUpToDate_eq]
    exact compiled_alarmed t _
  | linked d rules wrapper =>
    intro q k hk hflag
    rw [SourceTree.apply, mark?_link] at hk
    exact h q k hk hflag
  | unlinked =>
    intro q k hk hflag
    rw [SourceTree.apply, mark?_unlink] at hk
    exact h q k hk hflag

theorem apply_root (t : SourceTree) (a : SourceAction) : (t.apply a).root = t.root := by
  cases a with
  | added d path => exact (addPlace_heeds t d _).ground.root_eq
  | changed d path =>
    rw [apply, changed]
    split
    next => exact (addPlace_heeds t d _).ground.root_eq
    next => exact (touchFile_heeds t d _).ground.root_eq
  | removed d path => exact (remove_ground t d path).1.root_eq
  | compiled | caughtUp | linked | unlinked => rfl

theorem foldl_apply_spec (htied : t.Tied) (halarmed : t.Alarmed) (actions : List SourceAction) :
    (actions.foldl apply t).Tied ∧ (actions.foldl apply t).Alarmed ∧
      (actions.foldl apply t).root = t.root := by
  induction actions generalizing t with
  | nil => exact ⟨htied, halarmed, rfl⟩
  | cons a rest ih =>
    obtain ⟨h, h', hroot⟩ := ih (htied.apply a) (halarmed.apply htied a)
    exact ⟨h, h', hroot.trans (apply_root t a)⟩

/-- Whatever is done to a source tree: the root is there and has no parent; any other node stands at
its own path inside the root, below the directory it lies in, which lists it; all that is listed is
there; and what is flagged puts the sources out of sync. Folders may be entered from below, up to the
first that is known. A removal drops what is at and below a known path that is not the root, by
following the children that are listed, and changes nothing else but the children of the directory
above. -/
theorem source_tree_stays_tied (d₀ : Disk) (root locationFile : String)
    (actions : List SourceAction) :
    let t := actions.foldl apply (new d₀ root locationFile)
    (t.nodes.map Prod.fst).Nodup ∧
    (t.root = d₀.place root ∧
      ∃ top, t.node? t.root = some top ∧ top.path = t.root ∧ top.parent = none) ∧
    (∀ p n, t.node? p = some n → p ≠ t.root → n.path = p ∧ p.isWithin t.root = true ∧
      ∃ dir above, p.parent? = some dir ∧ n.parent = some dir ∧ t.node? dir = some above ∧
        p ∈ above.children) ∧
    (∀ p n, t.node? p = some n → ∀ c ∈ n.children,
      ∃ below, t.node? c = some below ∧ below.parent = some p) ∧
    ((∃ p n, t.node? p = some n ∧ n.modified = true) → t.status = .outOfSync) ∧
    (∀ p, t.ensureFolder p = t.ensureUpward p) ∧
    ∀ d path,
      (t.canRemove d path = true ↔
        (∃ n, t.node? (d.place path) = some n) ∧ d.place path ≠ t.root) ∧
      t.detach? d path = (if t.canRemove d path = true then some (t.remove d path) else none) ∧
      { t.remove d path with nodes := t.nodes } = t ∧
      (t.canRemove d path = true → ∀ q, (t.remove d path).node? q =
        if q.isWithin (d.place path) = true then none
        else (t.node? q).map fun n =>
          if (d.place path).parent? = some q then n.withoutChild (d.place path) else n) ∧
      (t.canRemove d path = false → t.remove d path = t) := by
  intro t
  obtain ⟨htied, halarmed, hroot⟩ := foldl_apply_spec (new_tied d₀ root locationFile)
    (new_alarmed d₀ root locationFile) actions
  have halarm : (∃ p n, t.node? p = some n ∧ n.modified = true) → t.status = .outOfSync := by
    rintro ⟨p, n, hn, hflag⟩
    exact halarmed p n.mark (by rw [mark?, hn, Option.map_some]) hflag
  refine ⟨htied.keys, ⟨hroot, ?_⟩, fun p n => htied.exists_above,
    fun p n hn c => htied.exists_below hn, halarm, htied.ensureFolder_eq, fun d path =>
      ⟨?_, htied.detach?_eq d path, remove_frame t d path, node?_remove, remove_of_not_canRemove⟩⟩
  · obtain ⟨children, hs⟩ := htied.root
    obtain ⟨top, htop, hties⟩ := ties?_eq_some_iff.mp hs
    exact ⟨top, htop, congrArg Ties.path hties, congrArg Ties.parent hties⟩
  · rw [canRemove, Bool.and_eq_true, decide_eq_true_eq, Option.isSome_iff_exists]
    exact And.comm

end SourceTree

end RuleScope
