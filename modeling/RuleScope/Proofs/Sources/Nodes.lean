import Mathlib.Data.List.Infix
import RuleScope.Sources.Tree

namespace RuleScope

namespace AbsPath

variable {p q r top : AbsPath}

theorem isWithin_iff : p.isWithin top = true ↔ top.names <+: p.names := List.isPrefixOf_iff_prefix

theorem isWithin_refl (p : AbsPath) : p.isWithin p = true := isWithin_iff.mpr List.prefix_rfl

theorem isWithin_trans (h : p.isWithin q = true) (h' : q.isWithin r = true) :
    p.isWithin r = true :=
  isWithin_iff.mpr ((isWithin_iff.mp h').trans (isWithin_iff.mp h))

theorem eq_of_isWithin (h : p.isWithin q = true) (h' : q.isWithin p = true) : p = q := by
  have hp := isWithin_iff.mp h
  have hq := isWithin_iff.mp h'
  cases p
  cases q
  exact congrArg AbsPath.mk (hq.eq_of_length (Nat.le_antisymm hq.length_le hp.length_le))

theorem child_isWithin (p : AbsPath) (name : String) : (p.child name).isWithin p = true :=
  isWithin_iff.mpr (List.prefix_append _ _)

theorem child_ne_self (p : AbsPath) (name : String) : p.child name ≠ p := by
  intro h
  simpa [child] using congrArg (fun p => p.names.length) h

/-- Above a place below `top` lie the first place on the way down and what is below that, and
besides these only `top` and what is above it. -/
theorem isWithin_child_iff {name : String} {rest : List String}
    (h : AbsPath.isWithin ⟨top.names ++ name :: rest⟩ q = true) :
    q.isWithin (top.child name) = true ↔ q.isWithin top = true ∧ q ≠ top := by
  constructor
  · intro hq
    refine ⟨isWithin_trans hq (child_isWithin top name), ?_⟩
    rintro rfl
    exact child_ne_self q name (eq_of_isWithin (child_isWithin q name) hq)
  · rintro ⟨hq, hne⟩
    have hchild : (top.child name).names <+: top.names ++ name :: rest := by
      simp [child]
    refine isWithin_iff.mpr (List.prefix_of_prefix_length_le hchild (isWithin_iff.mp h) ?_)
    have hle := (isWithin_iff.mp hq).length_le
    have hlt : top.names.length ≠ q.names.length := fun he => hne <| by
      have := (isWithin_iff.mp hq).eq_of_length he
      cases q
      cases top
      exact congrArg AbsPath.mk this.symm
    simp only [child, List.length_append, List.length_singleton]
    omega

theorem isWithin_of_child {name : String} :
    (p.child name).isWithin q = true ↔ q = p.child name ∨ p.isWithin q = true := by
  rw [isWithin_iff, isWithin_iff, child, List.prefix_concat_iff]
  cases q
  simp

theorem exists_parent_of_isRuleSource (h : p.isRuleSource = true) :
    ∃ dir name, p.parent? = some dir ∧ p = dir.child name := by
  obtain ⟨names⟩ := p
  have hne : names ≠ [] := by
    rintro rfl
    simp [isRuleSource, fileName?] at h
  refine ⟨⟨names.dropLast⟩, names.getLast hne, ?_, ?_⟩
  · simp [parent?, hne]
  · simp [child, List.dropLast_append_getLast]

end AbsPath

/-- What matters of a node here. -/
structure Mark where
  folder : Bool
  flagged : Bool
  deriving DecidableEq, Repr

def SourceNode.mark (n : SourceNode) : Mark := ⟨n.isFolder, n.modified⟩

namespace SourceTree

variable {t : SourceTree} {d : Disk}

def mark? (t : SourceTree) (p : AbsPath) : Option Mark := (t.node? p).map SourceNode.mark

theorem forall_mark? {P : AbsPath → Mark → Prop} (h : ∀ e ∈ t.nodes, P e.1 e.2.mark) {q : AbsPath}
    {k : Mark} (hk : t.mark? q = some k) : P q k := by
  obtain ⟨n, hn, rfl⟩ := Option.map_eq_some_iff.mp hk
  exact h _ (Table.mem_of_get? hn)

/-- Whether `q` is one of the folders below the root on the way to `p`, `p` included. -/
def onWay (t : SourceTree) (p q : AbsPath) : Bool :=
  p.isWithin t.root && q.isWithin t.root && q ≠ t.root && p.isWithin q

theorem mark?_of_map {t' : SourceTree} {f : AbsPath × SourceNode → SourceNode}
    (h : t'.nodes = t.nodes.map fun e => (e.1, f e)) (q : AbsPath) :
    t'.mark? q = (t.node? q).map fun n => (f (q, n)).mark := by
  rw [mark?, node?, h, Table.get?_map_value, Option.map_map]
  rfl

theorem modify_nodes (t : SourceTree) (p : AbsPath) (f : SourceNode → SourceNode) :
    (t.modify p f).nodes = t.nodes.map fun e => (e.1, if e.1 = p then f e.2 else e.2) :=
  List.map_congr_left fun e _ => by
    split
    next h => rw [h]
    next => rfl

theorem mark?_modify (t : SourceTree) (p : AbsPath) {f : SourceNode → SourceNode}
    (hf : ∀ n, (f n).mark = n.mark) (q : AbsPath) : (t.modify p f).mark? q = t.mark? q := by
  rw [mark?_of_map (modify_nodes t p f), mark?]
  refine congrArg (Option.map · _) (funext fun n => ?_)
  dsimp only
  split
  next => exact hf n
  next => rfl

theorem mark?_modify_modified (t : SourceTree) (p q : AbsPath) :
    (t.modify p fun n => { n with modified := true }).mark? q =
      if q = p then (t.mark? q).map fun k => { k with flagged := true } else t.mark? q := by
  rw [mark?_of_map (modify_nodes t p _), mark?]
  split
  next => rw [Option.map_map]; rfl
  next => rfl

theorem mark?_link (t : SourceTree) (d : Disk) (rules : RuleTree) (wrapper : Option String)
    (q : AbsPath) : (t.link d rules wrapper).mark? q = t.mark? q := by
  let linkedTo (e : AbsPath × SourceNode) : SourceNode :=
    { e.2 with
      linked := rules.importAt? (d.place e.2.path.text)
      usage := usageOf ((rules.node? RuleTree.root).bind Node.path?) (wrapper.map d.place) e.2.path
        (rules.importAt? (d.place e.2.path.text)) }
  -- A linked file stays a file, because no usage it can get is that of a folder.
  have file : ∀ e : AbsPath × SourceNode, (linkedTo e).isFolder = false := fun e => by
    have usage : ∀ main wrapper p linked, usageOf main wrapper p linked ≠ .isFolder := by
      intro main wrapper p linked
      unfold usageOf
      split
      next => nofun
      next =>
        split
        next => nofun
        next => split <;> nofun
    simp [linkedTo, SourceNode.isFolder, usage]
  have nodes : (t.link d rules wrapper).nodes =
      t.nodes.map fun e => (e.1, if e.2.isFolder then e.2 else linkedTo e) :=
    List.map_congr_left fun e _ => by split <;> rfl
  rw [mark?_of_map nodes, mark?]
  refine congrArg (Option.map · _) (funext fun n => ?_)
  dsimp only
  split
  next => rfl
  next h =>
    have h : n.isFolder = false := by simpa using h
    rw [SourceNode.mark, file, SourceNode.mark, h]

theorem mark?_unlink (t : SourceTree) (q : AbsPath) : t.unlink.mark? q = t.mark? q := by
  have nodes : t.unlink.nodes = t.nodes.map fun e =>
      (e.1, if e.2.isFolder then e.2 else { e.2 with linked := none, usage := .notUsed }) :=
    List.map_congr_left fun e _ => by split <;> rfl
  rw [mark?_of_map nodes, mark?]
  refine congrArg (Option.map · _) (funext fun n => ?_)
  dsimp only
  split
  next => rfl
  next h =>
    have h : n.isFolder = false := by simpa using h
    rw [SourceNode.mark, SourceNode.mark, h]
    rfl

theorem mark?_compiled (t : SourceTree) (time : Option Int) (q : AbsPath) :
    (t.compiled time).mark? q = (t.mark? q).map fun k => { k with flagged := false } := by
  have nodes : (t.compiled time).nodes =
      t.nodes.map fun e => (e.1, { e.2 with modified := false }) := rfl
  rw [mark?_of_map nodes, mark?, Option.map_map]
  rfl

theorem mark?_insert (t : SourceTree) (parent : AbsPath) (n : SourceNode) (q : AbsPath) :
    (t.insert parent n).mark? q = if q = n.path then some n.mark else t.mark? q := by
  rw [insert, mark?_modify _ _ (f := .withChild n.path) fun _ => rfl, mark?, node?]
  split
  next h =>
    subst h
    rw [Table.get?_put_self]
    rfl
  next h =>
    rw [Table.get?_put_of_ne h]
    rfl

/-- What stays as it is when files and folders are entered, flagged and removed. -/
structure SameGround (t t' : SourceTree) : Prop where
  root_eq : t'.root = t.root
  time_eq : t'.locationTime = t.locationTime

theorem SameGround.refl (t : SourceTree) : t.SameGround t := ⟨rfl, rfl⟩

theorem SameGround.trans {t t' t'' : SourceTree} (h : t.SameGround t') (h' : t'.SameGround t'') :
    t.SameGround t'' := ⟨h'.1.trans h.1, h'.2.trans h.2⟩

theorem ensureNames_cons (t : SourceTree) (top : AbsPath) (name : String) (rest : List String) :
    ∃ t', t.ensureNames top (name :: rest) = t'.ensureNames (top.child name) rest ∧
      t.SameGround t' ∧ t'.status = t.status ∧ ∀ q, t'.mark? q =
        (t.mark? q).or (if q = top.child name then some ⟨true, false⟩ else none) := by
  rw [ensureNames]
  cases hn : t.node? (top.child name) with
  | some n =>
    refine ⟨t, rfl, .refl t, rfl, fun q => ?_⟩
    split
    next h => simp [h, mark?, hn]
    next => rw [Option.or_none]
  | none =>
    refine ⟨_, rfl, ⟨rfl, rfl⟩, rfl, fun q => ?_⟩
    rw [mark?_insert]
    by_cases h : q = top.child name
    · simp [h, mark?, hn, SourceNode.fresh, SourceNode.mark, SourceNode.isFolder]
    · simp [h, SourceNode.fresh]

theorem ensureNames_ground (t : SourceTree) (top : AbsPath) (names : List String) :
    t.SameGround (t.ensureNames top names) ∧ (t.ensureNames top names).status = t.status := by
  induction names generalizing t top with
  | nil => exact ⟨.refl t, rfl⟩
  | cons name rest ih =>
    obtain ⟨t', he, hground, hstatus, _⟩ := ensureNames_cons t top name rest
    obtain ⟨hrest, hstatus'⟩ := ih t' (top.child name)
    rw [he]
    exact ⟨hground.trans hrest, hstatus'.trans hstatus⟩

theorem mark?_ensureNames (t : SourceTree) (top : AbsPath) (names : List String) (q : AbsPath) :
    (t.ensureNames top names).mark? q = (t.mark? q).or
      (if q.isWithin top = true ∧ q ≠ top ∧ AbsPath.isWithin ⟨top.names ++ names⟩ q = true then
        some ⟨true, false⟩ else none) := by
  induction names generalizing t top with
  | nil =>
    have none : ¬ (q.isWithin top = true ∧ q ≠ top ∧ AbsPath.isWithin ⟨top.names ++ []⟩ q = true) :=
      fun ⟨hq, hne, hp⟩ => hne (AbsPath.eq_of_isWithin hq (by simpa using hp))
    rw [if_neg none, Option.or_none]
    rfl
  | cons name rest ih =>
    -- The folder that was entered is the top of the rest of the way.
    obtain ⟨t', he, -, -, hfirst⟩ := ensureNames_cons t top name rest
    have bottom : (top.child name).names ++ rest = top.names ++ name :: rest := by
      simp [AbsPath.child]
    rw [he, ih, hfirst, Option.or_assoc, bottom]
    refine congrArg (Option.or _) ?_
    by_cases hp : AbsPath.isWithin ⟨top.names ++ name :: rest⟩ q = true
    · have hiff := AbsPath.isWithin_child_iff hp
      by_cases he : q = top.child name
      · have hin := AbsPath.isWithin_refl (top.child name)
        rw [← he] at hin hiff
        obtain ⟨h₁, h₂⟩ := hiff.mp hin
        have passed : q.isWithin top = true ∧ q ≠ top ∧
            AbsPath.isWithin ⟨top.names ++ name :: rest⟩ q = true := ⟨h₁, h₂, hp⟩
        rw [if_pos he, if_neg fun h => h.2.1 he, if_pos passed]
        rfl
      · simp [he, hp, hiff]
    · have hne : q ≠ top.child name := by
        rintro rfl
        exact hp (AbsPath.isWithin_iff.mpr ⟨rest, bottom⟩)
      simp [hp, hne]

theorem mark?_ensureFolder (t : SourceTree) (p q : AbsPath) :
    (t.ensureFolder p).mark? q =
      (t.mark? q).or (if t.onWay p q then some ⟨true, false⟩ else none) := by
  unfold ensureFolder
  split
  next h =>
    obtain ⟨names, hnames⟩ := AbsPath.isWithin_iff.mp h
    have hp : (⟨t.root.names ++ p.names.drop t.root.names.length⟩ : AbsPath) = p := by
      rw [← hnames, List.drop_left]
      exact congrArg AbsPath.mk hnames
    rw [mark?_ensureNames, hp]
    simp [onWay, h, and_assoc]
  next h => simp [onWay, h]

theorem ensureFolder_ground (t : SourceTree) (p : AbsPath) :
    t.SameGround (t.ensureFolder p) ∧ (t.ensureFolder p).status = t.status := by
  unfold ensureFolder
  split
  next => exact ensureNames_ground t _ _
  next => exact ⟨.refl t, rfl⟩

/-- On the way to a place lie the place itself and what is on the way to its directory. -/
theorem onWay_child {dir q : AbsPath} {name : String} (hne : q ≠ dir.child name) :
    t.onWay (dir.child name) q = t.onWay dir q := by
  have below : (dir.child name).isWithin q = true ↔ dir.isWithin q = true := by
    rw [AbsPath.isWithin_of_child]
    exact or_iff_right hne
  rw [Bool.eq_iff_iff]
  simp only [onWay, Bool.and_eq_true, decide_eq_true_eq, below]
  constructor
  · rintro ⟨⟨⟨_, hq⟩, hr⟩, hd⟩
    exact ⟨⟨⟨AbsPath.isWithin_trans hd hq, hq⟩, hr⟩, hd⟩
  · rintro ⟨⟨⟨hdir, hq⟩, hr⟩, hd⟩
    exact ⟨⟨⟨AbsPath.isWithin_trans (AbsPath.child_isWithin dir name) hdir, hq⟩, hr⟩, hd⟩

/-- A rule source is met that is not known. -/
structure Enters (t t' : SourceTree) (d : Disk) (p : AbsPath) : Prop where
  unknown : t.mark? p = none
  ground : t.SameGround t'
  mark_eq : ∀ q, t'.mark? q =
    if q = p then some ⟨false, isNewer (d.modified? p.text) t.locationTime⟩
    else (t.mark? q).or (if t.onWay p q then some ⟨true, false⟩ else none)
  status_eq : t'.status =
    if isNewer (d.modified? p.text) t.locationTime = true then .outOfSync else t.status

/-- A rule source is met again. -/
structure Flags (t t' : SourceTree) (p : AbsPath) : Prop where
  known : (t.mark? p).isSome = true
  ground : t.SameGround t'
  mark_eq : ∀ q, t'.mark? q =
    if q = p then (t.mark? q).map fun k => { k with flagged := true } else t.mark? q
  status_eq : t'.status = .outOfSync

theorem flag_ground (t : SourceTree) (modified : Bool) :
    t.SameGround (t.flag modified) ∧ (t.flag modified).nodes = t.nodes ∧
      (t.flag modified).status = if modified = true then .outOfSync else t.status := by
  cases modified <;> exact ⟨⟨rfl, rfl⟩, rfl, rfl⟩

/-- Only rule sources inside the root matter; one that is known is flagged, any other is entered. -/
theorem touchFile_cases (t : SourceTree) (d : Disk) (p : AbsPath) :
    ¬ (p.isRuleSource = true ∧ p.isWithin t.root = true) ∧ t.touchFile d p = t ∨
    (p.isRuleSource = true ∧ p.isWithin t.root = true) ∧
      (t.Enters (t.touchFile d p) d p ∨ t.Flags (t.touchFile d p) p) := by
  by_cases hp : p.isRuleSource = true ∧ p.isWithin t.root = true
  · refine Or.inr ⟨hp, ?_⟩
    have hrel : (!p.isRuleSource || !p.isWithin t.root) = false := by simp [hp]
    cases hn : t.node? p with
    | some n =>
      have htouch : t.touchFile d p = (t.modify p fun n => { n with modified := true }).flag true := by
        simp [touchFile, hrel, hn]
      rw [htouch]
      exact Or.inr ⟨by simp [mark?, hn], ⟨rfl, rfl⟩, mark?_modify_modified t p, rfl⟩
    | none =>
      obtain ⟨dir, name, hparent, hchild⟩ := AbsPath.exists_parent_of_isRuleSource hp.1
      let modified := isNewer (d.modified? p.text) t.locationTime
      let n : SourceNode := { SourceNode.fresh p .notUsed (some dir) with modified }
      have htouch : t.touchFile d p = ((t.ensureFolder dir).insert dir n).flag modified := by
        simp [touchFile, hrel, hn, hparent, n, modified]
      obtain ⟨hground, hstatus⟩ := ensureFolder_ground t dir
      obtain ⟨hflag, hnodes, hstatus'⟩ :=
        flag_ground ((t.ensureFolder dir).insert dir n) modified
      rw [htouch]
      refine Or.inl ⟨by simp [mark?, hn], hground.trans ⟨hflag.1, hflag.2⟩, fun q => ?_, ?_⟩
      · have unflagged : (((t.ensureFolder dir).insert dir n).flag modified).mark? q =
            ((t.ensureFolder dir).insert dir n).mark? q := by rw [mark?, node?, hnodes]; rfl
        rw [unflagged, mark?_insert, mark?_ensureFolder, show n.path = p from rfl]
        by_cases hq : q = p
        · rw [if_pos hq, if_pos hq]
          rfl
        · rw [if_neg hq, if_neg hq, hchild, onWay_child (hchild ▸ hq)]
      · rw [hstatus']
        split
        next => rfl
        next => exact hstatus
  · refine Or.inl ⟨hp, ?_⟩
    have hrel : (!p.isRuleSource || !p.isWithin t.root) = true := by
      rw [not_and_or] at hp
      rcases hp with hp | hp <;> simp [hp]
    simp [touchFile, hrel]

theorem mark?_remove (t : SourceTree) (d : Disk) (path : String) (q : AbsPath) :
    (t.remove d path).mark? q =
      if t.canRemove d path = true ∧ q.isWithin (d.place path) = true then none else t.mark? q := by
  unfold remove
  split
  next h =>
    have gone : ({ t with nodes := t.nodes.filter fun e => !e.1.isWithin (d.place path) } :
        SourceTree).mark? q = if q.isWithin (d.place path) = true then none else t.mark? q := by
      rw [mark?, node?, Table.get?_filter_key fun p : AbsPath => !p.isWithin (d.place path)]
      cases q.isWithin (d.place path) <;> rfl
    simp only [h, true_and]
    split
    next dir _ => rw [mark?_modify _ dir (f := .withoutChild (d.place path)) fun _ => rfl, gone]
    next => exact gone
  next h => simp [h]

theorem remove_ground (t : SourceTree) (d : Disk) (path : String) :
    t.SameGround (t.remove d path) ∧ (t.remove d path).status = t.status := by
  unfold remove
  split
  next =>
    dsimp only
    split
    next => exact ⟨⟨rfl, rfl⟩, rfl⟩
    next => exact ⟨⟨rfl, rfl⟩, rfl⟩
  next => exact ⟨.refl t, rfl⟩

end SourceTree

end RuleScope
