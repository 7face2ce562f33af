import RuleScope.Proofs.Sources.Ties

namespace RuleScope

theorem Table.get?_isSome_of_mem {α β : Type} [DecidableEq α] {e : α × β} {t : List (α × β)}
    (h : e ∈ t) : ∃ b, get? e.1 t = some b := by
  refine Option.isSome_iff_exists.mp (Option.isSome_iff_ne_none.mpr fun hnone => ?_)
  exact get?_eq_none_iff.mp hnone (List.mem_map_of_mem h)

theorem Table.length_erase_lt {α β : Type} [DecidableEq α] {k : α} {b : β} {t : List (α × β)}
    (h : get? k t = some b) : (erase k t).length < t.length :=
  List.length_filter_lt_length_iff_exists.mpr ⟨(k, b), mem_of_get? h, by simp⟩

theorem Table.get?_erase {α β : Type} [DecidableEq α] (k l : α) (t : List (α × β)) :
    get? l (erase k t) = if l = k then none else get? l t := by
  split
  next h => rw [h, get?_erase_self]
  next h => rw [get?_erase_of_ne h]

theorem Table.get?_erase_eq_some_iff {α β : Type} [DecidableEq α] {k l : α} {b : β}
    {t : List (α × β)} : get? l (erase k t) = some b ↔ l ≠ k ∧ get? l t = some b := by
  rw [get?_erase]
  split <;> simp_all

namespace SourceTree

variable {t t' : SourceTree} {d : Disk}

/-- Forgets what is pending, and after each node what it lists. -/
def forget (pending : List AbsPath) (nodes : List (AbsPath × SourceNode)) :
    List (AbsPath × SourceNode) :=
  match pending with
  | [] => nodes
  | p :: rest =>
    match h : Table.get? p nodes with
    | some n =>
      have := Table.length_erase_lt h
      forget (n.children.reverse ++ rest) (Table.erase p nodes)
    | none => forget rest nodes
termination_by (nodes.length, pending.length)

/-- Removal along the ties: the node itself, its entry at the parent it names, and all it lists. -/
def detach? (t : SourceTree) (d : Disk) (path : String) : Option SourceTree :=
  let p := d.place path
  if p = t.root then none
  else
    match t.node? p with
    | none => none
    | some n =>
      let t := { t with nodes := Table.erase p t.nodes }
      let t := match n.parent with
        | some dir => t.modify dir (.withoutChild p)
        | none => t
      some { t with nodes := forget n.children.reverse t.nodes }

theorem forget_of_some {p : AbsPath} {rest : List AbsPath} {nodes : List (AbsPath × SourceNode)}
    {n : SourceNode} (h : Table.get? p nodes = some n) :
    forget (p :: rest) nodes = forget (n.children.reverse ++ rest) (Table.erase p nodes) := by
  rw [forget.eq_def]
  dsimp only
  split
  next n' hn =>
    rw [h] at hn
    cases hn
    rfl
  next hn =>
    rw [h] at hn
    cases hn

theorem forget_of_none {p : AbsPath} {rest : List AbsPath} {nodes : List (AbsPath × SourceNode)}
    (h : Table.get? p nodes = none) : forget (p :: rest) nodes = forget rest nodes := by
  rw [forget.eq_def]
  dsimp only
  split
  next n hn =>
    rw [h] at hn
    cases hn
  next => rfl

/-- All that is there hangs on the root, on what is pending, or on a node that lists it. -/
def Covered (root : AbsPath) (pending : List AbsPath) (nodes : List (AbsPath × SourceNode)) : Prop :=
  ∀ q n, Table.get? q nodes = some n → q = root ∨ q ∈ pending ∨
    ∃ dir m, q.parent? = some dir ∧ Table.get? dir nodes = some m ∧ q ∈ m.children

/-- What hung on a node that is forgotten is pending then. -/
theorem Covered.forgotten {root p : AbsPath} {rest : List AbsPath}
    {nodes : List (AbsPath × SourceNode)} {n : SourceNode} (h : Covered root (p :: rest) nodes)
    (hp : Table.get? p nodes = some n) :
    Covered root (n.children.reverse ++ rest) (Table.erase p nodes) := by
  intro q m hq
  obtain ⟨hne, hq⟩ := Table.get?_erase_eq_some_iff.mp hq
  rcases h q m hq with hroot | hpending | ⟨dir, above, hdir, habove, hmem⟩
  · exact .inl hroot
  · exact .inr (.inl (List.mem_append_right _ (List.mem_of_ne_of_mem hne hpending)))
  · by_cases hd : dir = p
    · -- The parent is the node just forgotten, so its children are pending now.
      rw [hd, hp] at habove
      cases habove
      exact .inr (.inl (List.mem_append_left _ (List.mem_reverse.mpr hmem)))
    · exact .inr (.inr ⟨dir, above, hdir, Table.get?_erase_eq_some_iff.mpr ⟨hd, habove⟩, hmem⟩)

theorem Covered.passed {root p : AbsPath} {rest : List AbsPath}
    {nodes : List (AbsPath × SourceNode)} (h : Covered root (p :: rest) nodes)
    (hp : Table.get? p nodes = none) : Covered root rest nodes := by
  intro q m hq
  have hne : q ≠ p := by
    rintro rfl
    rw [hp] at hq
    cases hq
  exact (h q m hq).imp_right (Or.imp_left fun hpending => List.mem_of_ne_of_mem hne hpending)

/-- What is left after following the pending paths. What was forgotten lies in one of them; what was
kept hangs on something that was kept, all the way up. -/
theorem forget_spec {root : AbsPath} {pending : List AbsPath} {nodes : List (AbsPath × SourceNode)}
    (inside : ∀ q n, Table.get? q nodes = some n → ∀ c ∈ n.children, c.isWithin q = true)
    (covered : Covered root pending nodes) :
    ∃ keep : AbsPath → Bool, forget pending nodes = nodes.filter (fun e => keep e.1) ∧
      (∀ q, keep q = false → ∃ p ∈ pending, q.isWithin p = true) ∧
      ∀ q n, Table.get? q nodes = some n → keep q = true → q = root ∨
        ∃ dir m, q.parent? = some dir ∧ Table.get? dir nodes = some m ∧ keep dir = true := by
  induction pending, nodes using forget.induct with
  | case1 nodes =>
    refine ⟨fun _ => true, by simp [forget], fun _ h => (by cases h), fun q n hq _ => ?_⟩
    rcases covered q n hq with hroot | hnone | ⟨dir, m, hdir, hm, -⟩
    · exact .inl hroot
    · cases hnone
    · exact .inr ⟨dir, m, hdir, hm, rfl⟩
  | case2 nodes p rest n hp _ ih =>
    obtain ⟨keep, hforget, hlost, hkept⟩ := ih
      (fun q m hq => inside q m (Table.get?_erase_eq_some_iff.mp hq).2) (covered.forgotten hp)
    refine ⟨fun q => q ≠ p && keep q, ?_, fun q hq => ?_, fun q m hq hk => ?_⟩
    · rw [forget_of_some hp, hforget, Table.erase, List.filter_filter]
      exact List.filter_congr fun e _ => Bool.and_comm _ _
    · by_cases hqp : q = p
      · exact ⟨p, List.mem_cons_self, hqp ▸ AbsPath.isWithin_refl q⟩
      · obtain ⟨c, hc, hqc⟩ := hlost q (by simpa [hqp] using hq)
        rcases List.mem_append.mp hc with hc | hc
        · exact ⟨p, List.mem_cons_self,
            AbsPath.isWithin_trans hqc (inside p n hp c (List.mem_reverse.mp hc))⟩
        · exact ⟨c, List.mem_cons_of_mem p hc, hqc⟩
    · obtain ⟨hqp, hk⟩ : q ≠ p ∧ keep q = true := by simpa using hk
      rcases hkept q m (Table.get?_erase_eq_some_iff.mpr ⟨hqp, hq⟩) hk with
        hroot | ⟨dir, above, hdir, habove, hkdir⟩
      · exact .inl hroot
      · obtain ⟨hne, habove⟩ := Table.get?_erase_eq_some_iff.mp habove
        exact .inr ⟨dir, above, hdir, habove, by simp [hne, hkdir]⟩
  | case3 nodes p rest hp ih =>
    obtain ⟨keep, hforget, hlost, hkept⟩ := ih inside (covered.passed hp)
    refine ⟨keep, (forget_of_none hp).trans hforget, fun q hq => ?_, hkept⟩
    obtain ⟨c, hc, hqc⟩ := hlost q hq
    exact ⟨c, List.mem_cons_of_mem p hc, hqc⟩

theorem ties?_eq_some_iff {p : AbsPath} {s : Ties} :
    t.ties? p = some s ↔ ∃ n, t.node? p = some n ∧ n.ties = s := Option.map_eq_some_iff

theorem Tied.exists_above (h : t.Tied) {p : AbsPath} {n : SourceNode} (hn : t.node? p = some n)
    (hne : p ≠ t.root) : n.path = p ∧ p.isWithin t.root = true ∧ ∃ dir above,
      p.parent? = some dir ∧ n.parent = some dir ∧ t.node? dir = some above ∧ p ∈ above.children := by
  obtain ⟨hpath, hin, dir, s, hdir, hparent, hs, hmem⟩ :=
    h.parent p n.ties (ties?_eq_some_iff.mpr ⟨n, hn, rfl⟩) hne
  obtain ⟨above, habove, rfl⟩ := ties?_eq_some_iff.mp hs
  exact ⟨hpath, hin, dir, above, hdir, hparent, habove, hmem⟩

theorem Tied.exists_below (h : t.Tied) {p c : AbsPath} {n : SourceNode} (hn : t.node? p = some n)
    (hc : c ∈ n.children) : ∃ below, t.node? c = some below ∧ below.parent = some p := by
  obtain ⟨s, hs, hparent⟩ := h.child p n.ties c (ties?_eq_some_iff.mpr ⟨n, hn, rfl⟩) hc
  obtain ⟨below, hbelow, rfl⟩ := ties?_eq_some_iff.mp hs
  exact ⟨below, hbelow, hparent⟩

theorem Tied.listed_isWithin (h : t.Tied) {p c : AbsPath} {n : SourceNode}
    (hn : t.node? p = some n) (hc : c ∈ n.children) : c.isWithin p = true :=
  AbsPath.isWithin_of_parent? (h.parent?_of_mem (ties?_eq_some_iff.mpr ⟨n, hn, rfl⟩) hc)

/-- A tree without one of its nodes, and without its entry at the parent. -/
def cut (t : SourceTree) (dir p : AbsPath) : SourceTree :=
  ({ t with nodes := Table.erase p t.nodes } : SourceTree).modify dir (.withoutChild p)

theorem node?_cut (t : SourceTree) (dir p q : AbsPath) : (t.cut dir p).node? q =
    if q = p then none
    else (t.node? q).map fun n => if q = dir then n.withoutChild p else n := by
  rw [cut, node?, modify_nodes, Table.get?_map_value, Table.get?_erase]
  split <;> rfl

/-- Every node but one is still there, with what it listed but that one. -/
theorem node?_cut_eq_some {dir p q : AbsPath} {m : SourceNode} (h : (t.cut dir p).node? q = some m) :
    q ≠ p ∧ ∃ n, t.node? q = some n ∧ ∀ c, c ∈ m.children ↔ c ∈ n.children ∧ (q = dir → c ≠ p) := by
  rw [node?_cut] at h
  split at h
  next => cases h
  next hne =>
    obtain ⟨n, hn, rfl⟩ := Option.map_eq_some_iff.mp h
    refine ⟨hne, n, hn, fun c => ?_⟩
    by_cases hd : q = dir <;> simp [hd, SourceNode.withoutChild]

/-- After a cut each node hangs on another, or on the one that was cut. -/
theorem Tied.cut_covered (h : t.Tied) {p : AbsPath} {n : SourceNode} (hn : t.node? p = some n)
    (dir : AbsPath) : Covered t.root n.children.reverse (t.cut dir p).nodes := by
  intro q m hm
  obtain ⟨hqp, m₀, hm₀, -⟩ := node?_cut_eq_some hm
  by_cases hroot : q = t.root
  · exact .inl hroot
  · obtain ⟨-, -, up, above, hup, -, habove, hmem⟩ := h.exists_above hm₀ hroot
    by_cases hupp : up = p
    · rw [hupp, hn] at habove
      cases habove
      exact .inr (.inl (List.mem_reverse.mpr hmem))
    · have hcut := node?_cut t dir p up
      rw [if_neg hupp, habove, Option.map_some] at hcut
      obtain ⟨-, above', habove', hchildren⟩ := node?_cut_eq_some hcut
      rw [habove] at habove'
      cases habove'
      exact .inr (.inr ⟨up, _, hup, hcut, (hchildren q).mpr ⟨hmem, fun _ => hqp⟩⟩)

/-- Where all that is kept has kept its parent, up to the root, nothing is kept below a path that is
gone. -/
theorem not_isWithin_of_kept {root p : AbsPath} {nodes : List (AbsPath × SourceNode)}
    {keep : AbsPath → Bool} (hgone : Table.get? p nodes = none) (hroot : ¬ root.isWithin p = true)
    (hkept : ∀ q n, Table.get? q nodes = some n → keep q = true → q = root ∨
      ∃ dir m, q.parent? = some dir ∧ Table.get? dir nodes = some m ∧ keep dir = true)
    {q : AbsPath} {n : SourceNode} (hq : Table.get? q nodes = some n) (hk : keep q = true) :
    ¬ q.isWithin p = true := by
  -- Upwards from `q`: the way would have to pass through `p`.
  induction hlen : q.names.length generalizing q n with
  | zero =>
    intro hw
    rcases hkept q n hq hk with rfl | ⟨dir, m, hdir, -, -⟩
    · exact hroot hw
    · have := AbsPath.length_of_parent? hdir
      omega
  | succ k ih =>
    intro hw
    rcases hkept q n hq hk with rfl | ⟨dir, m, hdir, hm, hkdir⟩
    · exact hroot hw
    · have hlength := AbsPath.length_of_parent? hdir
      have hne : p ≠ q := by
        rintro rfl
        rw [hgone] at hq
        cases hq
      exact ih hm hkdir (by omega) (((AbsPath.isWithin_iff_of_parent? hdir).mp hw).resolve_left hne)

theorem Tied.forget_cut (h : t.Tied) {dir p : AbsPath} {n : SourceNode} (hn : t.node? p = some n)
    (hroot : p ≠ t.root) : forget n.children.reverse (t.cut dir p).nodes =
      (t.cut dir p).nodes.filter fun e => !e.1.isWithin p := by
  have hgone : (t.cut dir p).node? p = none := by rw [node?_cut, if_pos rfl]
  obtain ⟨-, hin, -⟩ := h.exists_above hn hroot
  have inside : ∀ q m, Table.get? q (t.cut dir p).nodes = some m →
      ∀ c ∈ m.children, c.isWithin q = true := by
    intro q m hm c hc
    obtain ⟨-, m₀, hm₀, hchildren⟩ := node?_cut_eq_some hm
    exact h.listed_isWithin hm₀ ((hchildren c).mp hc).1
  obtain ⟨keep, hforget, hlost, hkept⟩ := forget_spec inside (h.cut_covered hn dir)
  rw [hforget]
  refine List.filter_congr fun e he => ?_
  obtain ⟨m, hm⟩ := Table.get?_isSome_of_mem he
  cases hk : keep e.1 with
  | true =>
    have hw := not_isWithin_of_kept hgone
      (fun hw => hroot (AbsPath.eq_of_isWithin hin hw)) hkept hm hk
    simpa using hw
  | false =>
    obtain ⟨c, hc, hec⟩ := hlost e.1 hk
    have hcp := h.listed_isWithin hn (List.mem_reverse.mp hc)
    simp [AbsPath.isWithin_trans hec hcp]

/-- A removal drops what lies at and below the path, and takes the path from the children of the
directory it lies in. -/
theorem node?_remove {path : String} (h : t.canRemove d path = true) (q : AbsPath) :
    (t.remove d path).node? q =
      if q.isWithin (d.place path) = true then none
      else (t.node? q).map fun n =>
        if (d.place path).parent? = some q then n.withoutChild (d.place path) else n := by
  have gone : ({ t with nodes := t.nodes.filter fun e => !e.1.isWithin (d.place path) } :
      SourceTree).node? q = if q.isWithin (d.place path) = true then none else t.node? q := by
    rw [node?, Table.get?_filter_key fun p : AbsPath => !p.isWithin (d.place path)]
    cases q.isWithin (d.place path) <;> rfl
  unfold remove
  rw [if_pos h]
  cases hdir : (d.place path).parent? with
  | none =>
    dsimp only
    rw [gone]
    simp
  | some dir =>
    dsimp only
    rw [node?, modify_nodes, Table.get?_map_value]
    refine (congrArg (Option.map _) gone).trans ?_
    split
    next => rfl
    next => simp only [Option.some.injEq, eq_comm]

theorem remove_frame (t : SourceTree) (d : Disk) (path : String) :
    { t.remove d path with nodes := t.nodes } = t := by
  unfold remove
  split
  next =>
    dsimp only
    split <;> rfl
  next => rfl

theorem remove_of_not_canRemove {path : String} (h : t.canRemove d path = false) :
    t.remove d path = t := by
  rw [remove, h]
  rfl

theorem nodup_keys_remove (h : (t.nodes.map Prod.fst).Nodup) (d : Disk) (path : String) :
    ((t.remove d path).nodes.map Prod.fst).Nodup := by
  have hsub : ∀ p : AbsPath, ((t.nodes.filter fun e => !e.1.isWithin p).map Prod.fst).Nodup :=
    fun p => h.sublist (List.filter_sublist.map Prod.fst)
  unfold remove
  split
  next =>
    dsimp only
    split
    next =>
      rw [modify_nodes, List.map_map]
      exact hsub _
    next => exact hsub _
  next => exact h

/-- What is not removed keeps its ties, but the one to the path. -/
theorem node?_remove_of_some {path : String} (h : t.canRemove d path = true) {q : AbsPath}
    {n : SourceNode} (hq : ¬ q.isWithin (d.place path) = true) (hn : t.node? q = some n) :
    ∃ m, (t.remove d path).node? q = some m ∧ m.path = n.path ∧ m.parent = n.parent ∧
      ∀ c, c ∈ m.children ↔ c ∈ n.children ∧ ((d.place path).parent? = some q → c ≠ d.place path) := by
  rw [node?_remove h, if_neg hq, hn]
  refine ⟨_, rfl, ?_⟩
  dsimp only
  split
  next hp => exact ⟨rfl, rfl, fun c => by simp [hp, SourceNode.withoutChild]⟩
  next hp => exact ⟨rfl, rfl, fun c => by simp [hp]⟩

/-- What is there after a removal was there before it, outside the path. -/
theorem node?_of_remove {path : String} (h : t.canRemove d path = true) {q : AbsPath}
    {m : SourceNode} (hm : (t.remove d path).node? q = some m) :
    ¬ q.isWithin (d.place path) = true ∧ ∃ n, t.node? q = some n ∧ m.path = n.path ∧
      m.parent = n.parent ∧
      ∀ c, c ∈ m.children ↔ c ∈ n.children ∧ ((d.place path).parent? = some q → c ≠ d.place path) := by
  have hcases := node?_remove h q
  rw [hm] at hcases
  split at hcases
  next => cases hcases
  next hq =>
    obtain ⟨n, hn, -⟩ := Option.map_eq_some_iff.mp hcases.symm
    obtain ⟨m', hm', hties⟩ := node?_remove_of_some h hq hn
    rw [hm] at hm'
    cases hm'
    exact ⟨hq, n, hn, hties⟩

theorem Tied.remove (h : t.Tied) (d : Disk) (path : String) : (t.remove d path).Tied := by
  cases hcan : t.canRemove d path with
  | false =>
    rw [remove_of_not_canRemove hcan]
    exact h
  | true =>
    have hroot := (remove_ground t d path).1.root_eq
    have hne : d.place path ≠ t.root ∧ (t.node? (d.place path)).isSome = true := by
      simpa [canRemove] using hcan
    obtain ⟨gone, hgone⟩ := Option.isSome_iff_exists.mp hne.2
    have hin := (h.exists_above hgone hne.1).2.1
    refine ⟨nodup_keys_remove h.keys d path, ?_, fun q s hs hq => ?_, fun q s c hs hc => ?_⟩
    · obtain ⟨children, hs⟩ := h.root
      obtain ⟨n, hn, hties⟩ := ties?_eq_some_iff.mp hs
      obtain ⟨m, hm, hpath, hparent, -⟩ := node?_remove_of_some hcan
        (fun hw => hne.1 (AbsPath.eq_of_isWithin hin hw)) hn
      rw [hroot]
      refine ⟨m.children, ties?_eq_some_iff.mpr ⟨m, hm, ?_⟩⟩
      have hself : n.path = t.root := congrArg Ties.path hties
      have htop : n.parent = none := congrArg Ties.parent hties
      rw [SourceNode.ties, hpath, hparent, hself, htop]
    · rw [hroot] at hq ⊢
      obtain ⟨m, hm, rfl⟩ := ties?_eq_some_iff.mp hs
      obtain ⟨hout, n, hn, hpath, hparent, -⟩ := node?_of_remove hcan hm
      obtain ⟨hself, hinside, dir, above, hdir, hup, habove, hmem⟩ := h.exists_above hn hq
      -- The parent stays too, for what is below it would have gone with it.
      have hdirout : ¬ dir.isWithin (d.place path) = true := fun hw =>
        hout ((AbsPath.isWithin_iff_of_parent? hdir).mpr (.inr hw))
      obtain ⟨above', habove', -, -, hchildren⟩ := node?_remove_of_some hcan hdirout habove
      refine ⟨hpath.trans hself, hinside, dir, above'.ties, hdir, hparent.trans hup,
        ties?_eq_some_iff.mpr ⟨above', habove', rfl⟩, (hchildren q).mpr ⟨hmem, fun _ => ?_⟩⟩
      rintro rfl
      exact hout (AbsPath.isWithin_refl _)
    · obtain ⟨m, hm, rfl⟩ := ties?_eq_some_iff.mp hs
      obtain ⟨hout, n, hn, -, -, hchildren⟩ := node?_of_remove hcan hm
      obtain ⟨hmem, hnot⟩ := (hchildren c).mp hc
      obtain ⟨below, hbelow, hup⟩ := h.exists_below hn hmem
      have hdir := h.parent?_of_mem (ties?_eq_some_iff.mpr ⟨n, hn, rfl⟩) hmem
      have hcout : ¬ c.isWithin (d.place path) = true := by
        intro hw
        rcases (AbsPath.isWithin_iff_of_parent? hdir).mp hw with he | hw
        · rw [he] at hnot
          exact hnot hdir rfl
        · exact hout hw
      obtain ⟨below', hbelow', -, hparent, -⟩ := node?_remove_of_some hcan hcout hbelow
      exact ⟨below'.ties, ties?_eq_some_iff.mpr ⟨below', hbelow', rfl⟩, hparent.trans hup⟩

/-- In a tied tree no node is overlooked by a removal along the ties. -/
theorem Tied.detach?_eq (h : t.Tied) (d : Disk) (path : String) :
    t.detach? d path = if t.canRemove d path = true then some (t.remove d path) else none := by
  unfold detach? SourceTree.remove canRemove
  generalize d.place path = p
  by_cases hroot : p = t.root
  · simp [hroot]
  cases hn : t.node? p with
  | none => simp [hn]
  | some n =>
    obtain ⟨-, -, dir, -, hdir, hparent, -⟩ := h.exists_above hn hroot
    have hnodes : forget n.children.reverse (t.cut dir p).nodes =
        (({ t with nodes := t.nodes.filter fun e => !e.1.isWithin p } : SourceTree).modify dir
          (.withoutChild p)).nodes := by
      have hkeep : ∀ e ∈ t.nodes, (!e.1.isWithin p && decide (e.1 ≠ p)) = !e.1.isWithin p := by
        intro e _
        by_cases hep : e.1 = p
        · simp [hep, AbsPath.isWithin_refl]
        · simp [hep]
      rw [h.forget_cut hn hroot, cut, modify_nodes, modify_nodes, List.filter_map, Table.erase,
        ← List.filter_congr hkeep, ← List.filter_filter]
      rfl
    simp only [hroot, hn, hparent, hdir, if_false, ne_eq, not_false_eq_true, decide_true,
      Option.isSome_some, Bool.and_self, if_true]
    exact congrArg (fun nodes => some { t with nodes }) hnodes

/-- Enters a folder from below: first the one it lies in, if that is not known either. -/
def ensureUpward (t : SourceTree) (p : AbsPath) : SourceTree :=
  if (t.node? p).isSome || !p.isWithin t.root then t
  else
    match h : p.parent? with
    | some dir =>
      have := AbsPath.length_of_parent? h
      (t.ensureUpward dir).insert dir (.fresh p .isFolder (some dir))
    | none => { t with nodes := Table.put p (.fresh p .isFolder none) t.nodes }
termination_by p.names.length

theorem ensureNames_append (t : SourceTree) (top : AbsPath) (names more : List String) :
    t.ensureNames top (names ++ more) =
      (t.ensureNames top names).ensureNames ⟨top.names ++ names⟩ more := by
  induction names generalizing t top with
  | nil => simp [ensureNames]
  | cons name rest ih =>
    have hbottom : (top.child name).names ++ rest = top.names ++ name :: rest := by
      simp [AbsPath.child]
    rw [List.cons_append, ensureNames, ensureNames, ih, hbottom]

/-- Where every folder on the way is known there is nothing to enter. -/
theorem ensureNames_of_knows {top : AbsPath} {names : List String}
    (h : ∀ q : AbsPath, q.isWithin top = true → q ≠ top →
      AbsPath.isWithin ⟨top.names ++ names⟩ q = true → t.Knows q) : t.ensureNames top names = t := by
  induction names generalizing top with
  | nil => rfl
  | cons name rest ih =>
    have hbottom : (top.child name).names ++ rest = top.names ++ name :: rest := by
      simp [AbsPath.child]
    have hchild : AbsPath.isWithin ⟨top.names ++ name :: rest⟩ (top.child name) = true :=
      AbsPath.isWithin_iff.mpr ⟨rest, hbottom⟩
    obtain ⟨n, hn⟩ := Option.isSome_iff_exists.mp
      (h (top.child name) (AbsPath.child_isWithin top name) (AbsPath.child_ne_self top name) hchild)
    rw [ensureNames]
    simp only [hn]
    refine ih fun q hq _ hw => ?_
    rw [hbottom] at hw
    obtain ⟨hqtop, hne⟩ := (AbsPath.isWithin_child_iff hw).mp hq
    exact h q hqtop hne hw

/-- The folders on the way to a place inside the root are those on the way to its directory, and the
place. -/
theorem ensureFolder_child {dir : AbsPath} (hdir : dir.isWithin t.root = true) (name : String) :
    t.ensureFolder (dir.child name) = (t.ensureFolder dir).ensureNames dir [name] := by
  obtain ⟨names, hnames⟩ := AbsPath.isWithin_iff.mp hdir
  have hin : (dir.child name).isWithin t.root = true :=
    AbsPath.isWithin_trans (AbsPath.child_isWithin dir name) hdir
  have hself : (⟨t.root.names ++ names⟩ : AbsPath) = dir := congrArg AbsPath.mk hnames
  have hdrop : (dir.child name).names.drop t.root.names.length = names ++ [name] := by
    rw [AbsPath.child, ← hnames, List.append_assoc, List.drop_left]
  unfold ensureFolder
  rw [if_pos hin, if_pos hdir, hdrop, ensureNames_append, hself, ← hnames, List.drop_left]

/-- In a tied tree the first known folder has all above it, so entering may stop there. -/
theorem Tied.ensureFolder_eq (h : t.Tied) (p : AbsPath) : t.ensureFolder p = t.ensureUpward p := by
  induction p using ensureUpward.induct t with
  | case1 p hp =>
    rw [ensureUpward, if_pos hp]
    unfold SourceTree.ensureFolder
    split
    next hin =>
      have hknown : t.Knows p := by simpa [Knows, hin] using hp
      obtain ⟨names, hnames⟩ := AbsPath.isWithin_iff.mp hin
      have hself : (⟨t.root.names ++ names⟩ : AbsPath) = p := congrArg AbsPath.mk hnames
      rw [← hnames, List.drop_left]
      refine ensureNames_of_knows fun q hq _ hw => ?_
      rw [hself] at hw
      exact h.closed.upward p q hknown hw hq
    next => rfl
  | case2 p hp dir hparent _ ih =>
    have hnew : ¬ t.Knows p ∧ p.isWithin t.root = true := by simpa [Knows] using hp
    obtain ⟨name, rfl⟩ := AbsPath.parent?_eq_some_iff.mp hparent
    have hdir := h.dir_isWithin hparent hnew.2 hnew.1
    have hunknown : (t.ensureFolder dir).node? (dir.child name) = none := by
      simpa [Knows] using h.not_knows_ensureFolder hparent hnew.1
    rw [ensureFolder_child hdir, SourceTree.ensureNames, ensureUpward, if_neg hp]
    simp only [hunknown, SourceTree.ensureNames]
    split
    next dir' hdir' =>
      rw [hparent] at hdir'
      cases hdir'
      rw [ih]
    next hnone =>
      rw [hparent] at hnone
      cases hnone
  | case3 p hp hparent =>
    -- Only the top of all paths has no directory, and it lies in no root but itself.
    have hnew : ¬ t.Knows p ∧ p.isWithin t.root = true := by simpa [Knows] using hp
    obtain ⟨names⟩ := p
    have hempty : names = [] := by
      unfold AbsPath.parent? at hparent
      split at hparent
      next hnil => simpa using hnil
      next => cases hparent
    have hroot : t.root = ⟨names⟩ := by
      refine AbsPath.eq_of_isWithin (AbsPath.isWithin_iff.mpr ?_) hnew.2
      rw [hempty]
      exact List.nil_prefix
    exact absurd (hroot ▸ h.root_knows) hnew.1

end SourceTree

end RuleScope
