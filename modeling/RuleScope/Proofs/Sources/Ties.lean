import RuleScope.Proofs.Sources.Flags

namespace RuleScope

namespace AbsPath

variable {p q dir : AbsPath}

theorem parent?_child (p : AbsPath) (name : String) : (p.child name).parent? = some p := by
  simp [parent?, child]

theorem parent?_eq_some_iff : p.parent? = some dir ↔ ∃ name, p = dir.child name := by
  constructor
  · intro h
    obtain ⟨names⟩ := p
    unfold parent? at h
    split at h
    next => cases h
    next hne =>
      cases h
      have hne : names ≠ [] := by simpa using hne
      exact ⟨names.getLast hne, by simp [child, List.dropLast_append_getLast]⟩
  · rintro ⟨name, rfl⟩
    exact parent?_child dir name

theorem isWithin_iff_of_parent? (h : p.parent? = some dir) :
    p.isWithin q = true ↔ q = p ∨ dir.isWithin q = true := by
  obtain ⟨name, rfl⟩ := parent?_eq_some_iff.mp h
  exact isWithin_of_child

theorem isWithin_of_parent? (h : p.parent? = some dir) : p.isWithin dir = true :=
  (isWithin_iff_of_parent? h).mpr (.inr (isWithin_refl dir))

theorem ne_of_parent? (h : p.parent? = some dir) : dir ≠ p := by
  obtain ⟨name, rfl⟩ := parent?_eq_some_iff.mp h
  exact (child_ne_self dir name).symm

theorem ne_root_of_parent? (h : p.parent? = some dir) : p ≠ root := by
  rintro rfl
  cases h

theorem length_of_parent? (h : p.parent? = some dir) : p.names.length = dir.names.length + 1 := by
  obtain ⟨name, rfl⟩ := parent?_eq_some_iff.mp h
  simp [child]

end AbsPath

/-- How a node hangs together with others. -/
structure Ties where
  path : AbsPath
  parent : Option AbsPath
  children : List AbsPath

def SourceNode.ties (n : SourceNode) : Ties := ⟨n.path, n.parent, n.children⟩

theorem SourceNode.mem_insertChild {p c : AbsPath} {cs : List AbsPath} :
    c ∈ insertChild p cs ↔ c = p ∨ c ∈ cs := by
  induction cs with
  | nil => simp [insertChild]
  | cons q rest ih =>
    rw [insertChild]
    split
    next h => simp [h]
    next =>
      split
      next => exact List.mem_cons
      next =>
        rw [List.mem_cons, ih, List.mem_cons]
        exact or_left_comm

namespace SourceTree

variable {t t' : SourceTree} {d : Disk}

def ties? (t : SourceTree) (p : AbsPath) : Option Ties := (t.node? p).map SourceNode.ties

/-- Every path is there once. The root has no parent. Any other node stands at its own path inside the
root, its parent is the directory it lies in, and the parent lists it. What a node lists is there and
names it as its parent. -/
structure Tied (t : SourceTree) : Prop where
  keys : (t.nodes.map Prod.fst).Nodup
  root : ∃ children, t.ties? t.root = some ⟨t.root, none, children⟩
  parent : ∀ p s, t.ties? p = some s → p ≠ t.root → s.path = p ∧ p.isWithin t.root = true ∧
    ∃ dir above, p.parent? = some dir ∧ s.parent = some dir ∧ t.ties? dir = some above ∧
      p ∈ above.children
  child : ∀ p s c, t.ties? p = some s → c ∈ s.children →
    ∃ below, t.ties? c = some below ∧ below.parent = some p

theorem knows_iff_ties? {p : AbsPath} : t.Knows p ↔ ∃ s, t.ties? p = some s := by
  rw [Knows, ties?, ← Option.isSome_iff_exists, Option.isSome_map]

theorem Tied.root_knows (h : t.Tied) : t.Knows t.root :=
  knows_iff_ties?.mpr (h.root.imp' _ fun _ => id)

/-- Who lists a path is the directory it lies in. -/
theorem Tied.parent?_of_mem (h : t.Tied) {p c : AbsPath} {s : Ties} (hs : t.ties? p = some s)
    (hc : c ∈ s.children) : c.parent? = some p := by
  obtain ⟨below, hbelow, hparent⟩ := h.child p s c hs hc
  have hne : c ≠ t.root := by
    rintro rfl
    obtain ⟨children, hroot⟩ := h.root
    rw [hbelow] at hroot
    cases hroot
    cases hparent
  obtain ⟨-, -, dir, -, hdir, hparent', -⟩ := h.parent c below hbelow hne
  rw [hparent] at hparent'
  cases hparent'
  exact hdir

theorem Tied.closed (h : t.Tied) : t.Closed := by
  refine ⟨h.root_knows, fun q hq => ?_, fun p q hp hpq hq => ?_⟩
  · obtain ⟨s, hs⟩ := knows_iff_ties?.mp hq
    by_cases hne : q = t.root
    · rw [hne]
      exact AbsPath.isWithin_refl _
    · exact (h.parent q s hs hne).2.1
  · -- Upwards from `p`, directory by directory.
    induction hn : p.names.length generalizing p with
    | zero =>
      have hempty : q.names <+: [] := List.length_eq_zero_iff.mp hn ▸ AbsPath.isWithin_iff.mp hpq
      have heq : q = p := by
        cases q
        cases p
        simp_all
      exact heq ▸ hp
    | succ n ih =>
      by_cases heq : q = p
      · exact heq ▸ hp
      · obtain ⟨s, hs⟩ := knows_iff_ties?.mp hp
        have hne : p ≠ t.root := by
          rintro rfl
          exact heq (AbsPath.eq_of_isWithin hq hpq)
        obtain ⟨-, -, dir, above, hdir, -, habove, -⟩ := h.parent p s hs hne
        have hlength := AbsPath.length_of_parent? hdir
        have hdq := ((AbsPath.isWithin_iff_of_parent? hdir).mp hpq).resolve_left heq
        exact ih dir (knows_iff_ties?.mpr ⟨above, habove⟩) hdq (by omega)

theorem Tied.congr (h : t.Tied) (hroot : t'.root = t.root)
    (hkeys : t'.nodes.map Prod.fst = t.nodes.map Prod.fst)
    (hties : ∀ q, t'.ties? q = t.ties? q) : t'.Tied := by
  refine ⟨hkeys ▸ h.keys, ?_, fun p s hs hne => ?_, fun p s c hs hc => ?_⟩
  · simpa only [hties, hroot] using h.root
  · simp only [hties, hroot] at hs hne ⊢
    exact h.parent p s hs hne
  · simp only [hties] at hs ⊢
    exact h.child p s c hs hc

/-- Values change in place, and no tie with them. -/
theorem Tied.of_map (h : t.Tied) {f : AbsPath × SourceNode → SourceNode} (hroot : t'.root = t.root)
    (hnodes : t'.nodes = t.nodes.map fun e => (e.1, f e)) (hf : ∀ e, (f e).ties = e.2.ties) :
    t'.Tied := by
  refine h.congr hroot (by simp [hnodes]) fun q => ?_
  rw [ties?, ties?, node?, node?, hnodes, Table.get?_map_value, Option.map_map]
  exact congrArg (Option.map · _) (funext fun n => hf (q, n))

theorem ties?_modify (t : SourceTree) (p : AbsPath) (f : SourceNode → SourceNode) (q : AbsPath) :
    (t.modify p f).ties? q = (t.node? q).map fun n => (if q = p then f n else n).ties := by
  rw [ties?, node?, modify_nodes, Table.get?_map_value, Option.map_map]
  rfl

theorem ties?_insert {dir : AbsPath} {n : SourceNode} (hne : dir ≠ n.path) (q : AbsPath) :
    (t.insert dir n).ties? q =
      if q = n.path then some n.ties
      else if q = dir then
        (t.ties? q).map fun s => { s with children := SourceNode.insertChild n.path s.children }
      else t.ties? q := by
  rw [insert, ties?_modify, ties?, node?]
  by_cases hq : q = n.path
  · rw [if_pos hq, hq, Table.get?_put_self]
    simp [hne.symm]
  · rw [if_neg hq, Table.get?_put_of_ne hq]
    by_cases hd : q = dir
    · simp only [if_pos hd, Option.map_map]
      rfl
    · simp only [if_neg hd]
      rfl

/-- What a path had before a node is entered it still has. -/
theorem ties?_insert_of_some {dir q : AbsPath} {n : SourceNode} {s : Ties} (hne : dir ≠ n.path)
    (hnew : ¬ t.Knows n.path) (hs : t.ties? q = some s) : ∃ s', (t.insert dir n).ties? q = some s' ∧
      s'.path = s.path ∧ s'.parent = s.parent ∧ ∀ c ∈ s.children, c ∈ s'.children := by
  have hq : q ≠ n.path := by
    rintro rfl
    exact hnew (knows_iff_ties?.mpr ⟨s, hs⟩)
  rw [ties?_insert hne, if_neg hq, hs]
  split
  next => exact ⟨_, rfl, rfl, rfl, fun c hc => SourceNode.mem_insertChild.mpr (.inr hc)⟩
  next => exact ⟨s, rfl, rfl, rfl, fun c hc => hc⟩

/-- What a path has when a node has been entered it had before; only the directory lists one more. -/
theorem ties?_of_insert {dir q : AbsPath} {n : SourceNode} {s : Ties} (hne : dir ≠ n.path)
    (hq : q ≠ n.path) (hs : (t.insert dir n).ties? q = some s) : ∃ s₀, t.ties? q = some s₀ ∧
      s₀.path = s.path ∧ s₀.parent = s.parent ∧
      ∀ c ∈ s.children, c = n.path ∧ q = dir ∨ c ∈ s₀.children := by
  rw [ties?_insert hne, if_neg hq] at hs
  split at hs
  next hd =>
    obtain ⟨s₀, hs₀, rfl⟩ := Option.map_eq_some_iff.mp hs
    exact ⟨s₀, hs₀, rfl, rfl, fun c hc =>
      (SourceNode.mem_insertChild.mp hc).imp_left fun he => ⟨he, hd⟩⟩
  next => exact ⟨s, hs, rfl, rfl, fun c hc => .inr hc⟩

/-- A new node comes into the directory it lies in. -/
theorem Tied.insert (h : t.Tied) {dir : AbsPath} {n : SourceNode} (hdir : t.Knows dir)
    (hnew : ¬ t.Knows n.path) (hpath : n.path.parent? = some dir) (hparent : n.parent = some dir)
    (hchildren : n.children = []) : (t.insert dir n).Tied := by
  have hne : dir ≠ n.path := AbsPath.ne_of_parent? hpath
  have hself : (t.insert dir n).ties? n.path = some n.ties := by rw [ties?_insert hne, if_pos rfl]
  have hroot : (t.insert dir n).root = t.root := rfl
  refine ⟨?_, ?_, fun p s hs hp => ?_, fun p s c hs hc => ?_⟩
  · have hkeys := Table.nodup_put (k := n.path) h.keys n
    rwa [SourceTree.insert, modify_nodes, List.map_map]
  · obtain ⟨children, hs⟩ := h.root
    obtain ⟨⟨path, parent, children'⟩, hs', rfl, rfl, -⟩ := ties?_insert_of_some hne hnew hs
    exact ⟨children', hs'⟩
  · rw [hroot] at hp ⊢
    by_cases hpn : p = n.path
    · obtain ⟨above, habove⟩ := knows_iff_ties?.mp hdir
      have hin : n.path.isWithin t.root = true :=
        (AbsPath.isWithin_iff_of_parent? hpath).mpr (.inr (h.closed.inside dir hdir))
      rw [hpn, hself] at hs
      cases hs
      rw [hpn]
      refine ⟨rfl, hin, dir, { above with children := SourceNode.insertChild n.path above.children },
        hpath, hparent, ?_, SourceNode.mem_insertChild.mpr (.inl rfl)⟩
      rw [ties?_insert hne, if_neg hne, if_pos rfl, habove]
      rfl
    · obtain ⟨s₀, hs₀, hspath, hsparent, -⟩ := ties?_of_insert hne hpn hs
      obtain ⟨hown, hin, up, above, hup, hparent', habove, hmem⟩ := h.parent p s₀ hs₀ hp
      obtain ⟨above', habove', -, -, hkept⟩ := ties?_insert_of_some hne hnew habove
      exact ⟨hspath ▸ hown, hin, up, above', hup, hsparent ▸ hparent', habove', hkept p hmem⟩
  · by_cases hpn : p = n.path
    · rw [hpn, hself] at hs
      cases hs
      simp [SourceNode.ties, hchildren] at hc
    · obtain ⟨s₀, hs₀, -, -, hlisted⟩ := ties?_of_insert hne hpn hs
      rcases hlisted c hc with ⟨rfl, rfl⟩ | hc
      · exact ⟨n.ties, hself, hparent⟩
      · obtain ⟨below, hbelow, hparent'⟩ := h.child p s₀ c hs₀ hc
        obtain ⟨below', hbelow', -, hsame, -⟩ := ties?_insert_of_some hne hnew hbelow
        exact ⟨below', hbelow', hsame.trans hparent'⟩

theorem Tied.ensureNames (h : t.Tied) {top : AbsPath} (htop : t.Knows top) (names : List String) :
    (t.ensureNames top names).Tied := by
  induction names generalizing t top with
  | nil => exact h
  | cons name rest ih =>
    rw [SourceTree.ensureNames]
    cases hn : t.node? (top.child name) with
    | some n => exact ih h (by simp [Knows, hn])
    | none =>
      have hnew : ¬ t.Knows (top.child name) := by simp [Knows, hn]
      refine ih (h.insert htop hnew (AbsPath.parent?_child top name) rfl rfl) ?_
      rw [knows_iff_ties?, ties?_insert (AbsPath.child_ne_self top name).symm]
      exact ⟨_, if_pos rfl⟩

theorem Tied.ensureFolder (h : t.Tied) (p : AbsPath) : (t.ensureFolder p).Tied := by
  unfold SourceTree.ensureFolder
  split
  next => exact h.ensureNames h.root_knows _
  next => exact h

/-- A folder inside the root is there once it was entered. -/
theorem Tied.ensureFolder_knows (h : t.Tied) {p : AbsPath} (hp : p.isWithin t.root = true) :
    (t.ensureFolder p).Knows p := by
  refine ((ensureFolder_gains h.closed p).knows_iff p).mpr (.inr (reaches_iff.mpr ?_))
  exact ⟨hp, p, List.mem_singleton_self p, hp, AbsPath.isWithin_refl p⟩

/-- The folders on the way to a place do not bring the place in. -/
theorem Tied.not_knows_ensureFolder (h : t.Tied) {p dir : AbsPath} (hparent : p.parent? = some dir)
    (hp : ¬ t.Knows p) : ¬ (t.ensureFolder dir).Knows p := by
  rw [(ensureFolder_gains h.closed dir).knows_iff, not_or]
  refine ⟨hp, fun hr => ?_⟩
  obtain ⟨-, q, hq, -, hqp⟩ := reaches_iff.mp hr
  obtain rfl := List.mem_singleton.mp hq
  exact AbsPath.ne_of_parent? hparent
    (AbsPath.eq_of_isWithin hqp (AbsPath.isWithin_of_parent? hparent))

/-- The directory of what is new inside the root lies inside the root too. -/
theorem Tied.dir_isWithin (h : t.Tied) {p dir : AbsPath} (hparent : p.parent? = some dir)
    (hin : p.isWithin t.root = true) (hp : ¬ t.Knows p) : dir.isWithin t.root = true := by
  refine ((AbsPath.isWithin_iff_of_parent? hparent).mp hin).resolve_left ?_
  rintro rfl
  exact hp h.root_knows

theorem Tied.flag (h : t.Tied) (modified : Bool) : (t.flag modified).Tied := by
  obtain ⟨hground, hnodes, -⟩ := flag_ground t modified
  exact h.congr hground.root_eq (by rw [hnodes]) fun q => by rw [ties?, node?, hnodes]; rfl

theorem Tied.touchFile (h : t.Tied) (d : Disk) (p : AbsPath) : (t.touchFile d p).Tied := by
  unfold SourceTree.touchFile
  split
  next => exact h
  next hrel =>
    have hsource : p.isRuleSource = true ∧ p.isWithin t.root = true := by simpa using hrel
    cases hn : t.node? p with
    | some n =>
      have hmodify : (t.modify p fun n => { n with modified := true }).Tied := by
        refine h.of_map rfl (modify_nodes t p _) fun e => ?_
        split <;> rfl
      exact hmodify.flag true
    | none =>
      dsimp only
      obtain ⟨dir, name, hparent, -⟩ := AbsPath.exists_parent_of_isRuleSource hsource.1
      rw [hparent]
      have hunknown : ¬ t.Knows p := by simp [Knows, hn]
      have hdir := h.dir_isWithin hparent hsource.2 hunknown
      have hnew := h.not_knows_ensureFolder hparent hunknown
      exact ((h.ensureFolder dir).insert (h.ensureFolder_knows hdir) hnew hparent rfl rfl).flag _

theorem Tied.meet (h : t.Tied) (d : Disk) (e : AbsPath × DiskEntry) : (meet d t e).Tied := by
  obtain ⟨p, entry⟩ := e
  cases entry with
  | directory => exact h.ensureFolder p
  | link => exact h
  | file text time =>
    simp only [SourceTree.meet]
    split
    next => exact h.touchFile d p
    next => exact h

theorem Tied.addPlace (h : t.Tied) (d : Disk) (p : AbsPath) : (t.addPlace d p).Tied := by
  have walked : ∀ (entries : List (AbsPath × DiskEntry)) (t : SourceTree), t.Tied →
      (entries.foldl (SourceTree.meet d) t).Tied := by
    intro entries
    induction entries with
    | nil => exact fun _ => id
    | cons e rest ih => exact fun t h => ih _ (h.meet d e)
  unfold SourceTree.addPlace
  split
  next => exact walked _ t h
  next => exact h

theorem Tied.changed (h : t.Tied) (d : Disk) (path : String) : (t.changed d path).Tied := by
  unfold SourceTree.changed
  dsimp only
  split
  next => exact h.addPlace d _
  next => exact h.touchFile d _

theorem Tied.compiled (h : t.Tied) (time : Option Int) : (t.compiled time).Tied :=
  h.of_map rfl rfl fun _ => rfl

theorem Tied.link (h : t.Tied) (d : Disk) (rules : RuleTree) (wrapper : Option String) :
    (t.link d rules wrapper).Tied := by
  let linkedTo (e : AbsPath × SourceNode) : SourceNode :=
    { e.2 with
      linked := rules.importAt? (d.place e.2.path.text)
      usage := usageOf ((rules.node? RuleTree.root).bind Node.path?) (wrapper.map d.place) e.2.path
        (rules.importAt? (d.place e.2.path.text)) }
  have nodes : (t.link d rules wrapper).nodes =
      t.nodes.map fun e => (e.1, if e.2.isFolder then e.2 else linkedTo e) :=
    List.map_congr_left fun e _ => by split <;> rfl
  refine h.of_map rfl nodes fun e => ?_
  split <;> rfl

theorem Tied.unlink (h : t.Tied) : t.unlink.Tied := by
  have nodes : t.unlink.nodes = t.nodes.map fun e =>
      (e.1, if e.2.isFolder then e.2 else { e.2 with linked := none, usage := .notUsed }) :=
    List.map_congr_left fun e _ => by split <;> rfl
  refine h.of_map rfl nodes fun e => ?_
  split <;> rfl

theorem new_tied (d : Disk) (root locationFile : String) : (new d root locationFile).Tied := by
  have only : ∀ q s, (new d root locationFile).ties? q = some s →
      q = d.place root ∧ s = ⟨d.place root, none, []⟩ := by
    intro q s hs
    by_cases h : d.place root = q
    · simp only [ties?, node?, new, Table.get?, h, if_true] at hs
      cases hs
      exact ⟨h.symm, by rw [h]; rfl⟩
    · simp [ties?, node?, new, Table.get?, h] at hs
  refine ⟨List.pairwise_singleton _ _, ⟨[], ?_⟩, fun p s hs hne => absurd (only p s hs).1 hne,
    fun p s c hs hc => ?_⟩
  · simp [ties?, node?, new, Table.get?, SourceNode.fresh, SourceNode.ties]
  · rw [(only p s hs).2] at hc
    cases hc

end SourceTree

end RuleScope
