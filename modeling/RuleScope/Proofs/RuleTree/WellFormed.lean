import RuleScope.Proofs.RuleTree.Growth

namespace RuleScope.RuleTree

section

variable {t : RuleTree} (n : Nat) (ids : List Nat)

theorem setChildren_node? (k : Nat) :
    (t.setChildren n ids).node? k =
      (t.node? k).map fun node => if n = k then { node with children := ids } else node := by
  simp only [setChildren, node?, Array.getElem?_modify]
  split <;> simp

/-- Whatever does not look at the children of a node stays. -/
theorem setChildren_map {α : Type} (f : Node → α)
    (hf : ∀ node : Node, f { node with children := ids } = f node) (k : Nat) :
    ((t.setChildren n ids).node? k).map f = (t.node? k).map f := by
  rw [setChildren_node?, Option.map_map]
  cases t.node? k with
  | none => rfl
  | some node =>
    simp only [Option.map_some, Function.comp_apply]
    split
    next => rw [hf]
    next => rfl

theorem setChildren_bind {α : Type} (f : Node → Option α)
    (hf : ∀ node : Node, f { node with children := ids } = f node) (k : Nat) :
    ((t.setChildren n ids).node? k).bind f = (t.node? k).bind f := by
  have := congrArg Option.join (setChildren_map (t := t) n ids f hf k)
  simpa [← Option.bind_id_eq_join, Option.bind_map] using this

theorem setChildren_size : (t.setChildren n ids).size = t.size := by simp [setChildren, size]

theorem setChildren_parent? : (t.setChildren n ids).parent? = t.parent? := by
  funext k
  exact setChildren_bind n ids Node.parent (fun _ => rfl) k

theorem setChildren_isImport (k : Nat) : (t.setChildren n ids).isImport k = t.isImport k :=
  congrArg (Option.getD · false) (setChildren_map n ids Node.isImport (fun _ => rfl) k)

theorem setChildren_ruleId? (k : Nat) : (t.setChildren n ids).ruleId? k = t.ruleId? k :=
  setChildren_bind n ids Node.ruleId? (fun _ => rfl) k

theorem setChildren_containsRules (k : Nat) :
    (t.setChildren n ids).containsRules k = t.containsRules k := by
  have h := setChildren_map (t := t) n ids Node.containsRules (fun _ => rfl) k
  have any : ∀ s : RuleTree, s.containsRules k = ((s.node? k).map Node.containsRules).getD false :=
    fun s => by unfold containsRules; cases s.node? k <;> rfl
  rw [any, any, h]

theorem setChildren_children (k : Nat) :
    (t.setChildren n ids).children k = if n = k ∧ k < t.size then ids else t.children k := by
  unfold children
  rw [setChildren_node?, Option.map_map]
  by_cases hk : k < t.size
  · have hnode : t.node? k = some t.nodes[k] := Array.getElem?_eq_getElem hk
    by_cases hn : n = k <;> simp [hnode, hn, hk]
  · have hnode : t.node? k = none := Array.getElem?_eq_none_iff.mpr (by simpa [size] using hk)
    simp [hnode, hk]

theorem setChildren_sound (hs : t.Sound) : (t.setChildren n ids).Sound := by
  have hrule : ∀ k, (t.setChildren n ids).isRule k = true ↔ t.isRule k = true := fun k => by
    rw [isRule_iff_ruleId?, isRule_iff_ruleId?, setChildren_ruleId?]
  have hwithin : (t.setChildren n ids).Within = t.Within := by
    funext a k
    simp only [Within, WithinIn]
    rw [show parentIn (t.setChildren n ids).nodes = parentIn t.nodes from setChildren_parent? n ids]
  refine ⟨?_, ?_, ?_, hs.rules_nodup, ?_⟩
  · rw [setChildren_parent?]
    exact hs.parent_lt
  · intro k hk
    rw [setChildren_isImport] at hk
    simp only [setChildren_containsRules, hs.containsRules_iff k hk, hrule, hwithin]
  · intro id k
    rw [setChildren_ruleId?]
    exact hs.mem_rules_iff id k
  · rw [setChildren_size]
    exact hs.dependency_lt

end

/-- A new dependency adds a member to the parent, if that is an import, and changes nothing else. -/
theorem addDependency_members (t : RuleTree) (parent : Option Nat) (c n : Nat) :
    (t.addDependency parent c).members n =
      t.members n ++ if parent = some n ∧ t.isImport n = true then [c] else [] := by
  unfold addDependency
  cases parent with
  | none => simp
  | some p =>
    by_cases hp : p = n
    · subst hp
      by_cases hi : t.isImport p = true <;> simp [members, hi]
    · by_cases hi : t.isImport p = true <;> simp [members, hi, hp]

theorem addDependency_nodes (t : RuleTree) (parent : Option Nat) (c : Nat) :
    (t.addDependency parent c).nodes = t.nodes := by
  unfold addDependency
  split
  next => split <;> rfl
  next => rfl

theorem addDependency_sound {t : RuleTree} (hs : t.Sound) {parent : Option Nat} {c : Nat}
    (hp : ∀ p, parent = some p → p < t.size) (hc : c < t.size) :
    (t.addDependency parent c).Sound := by
  unfold addDependency
  split
  next p =>
    split
    next =>
      refine ⟨hs.parent_lt, hs.containsRules_iff, hs.mem_rules_iff, hs.rules_nodup, ?_⟩
      intro d hd
      rcases List.mem_append.mp hd with hd | hd
      · exact hs.dependency_lt d hd
      · obtain rfl : d = ⟨p, c⟩ := by simpa using hd
        exact ⟨hp p rfl, hc⟩
    next => exact hs
  next => exact hs

/-- Completes a node: its children are entered and the dependency of its parent on it. -/
def complete (t : RuleTree) (parent : Option Nat) (n : Nat) (ids : List Nat) : RuleTree :=
  (t.setChildren n ids).addDependency parent n

section

variable (t : RuleTree) (parent : Option Nat) (n : Nat) (ids : List Nat)

theorem complete_nodes : (t.complete parent n ids).nodes = (t.setChildren n ids).nodes :=
  addDependency_nodes _ _ _

theorem complete_size : (t.complete parent n ids).size = t.size := by
  rw [size, complete_nodes]
  exact setChildren_size _ _

theorem complete_parent? : (t.complete parent n ids).parent? = t.parent? := by
  rw [show (t.complete parent n ids).parent? = parentIn (t.complete parent n ids).nodes from rfl,
    complete_nodes]
  exact setChildren_parent? _ _

theorem complete_isImport (k : Nat) : (t.complete parent n ids).isImport k = t.isImport k := by
  rw [isImport, node?, complete_nodes]
  exact setChildren_isImport _ _ k

theorem complete_children {k : Nat} (hk : k < t.size) :
    (t.complete parent n ids).children k = if k = n then ids else t.children k := by
  rw [children, node?, complete_nodes]
  refine (setChildren_children n ids k).trans ?_
  by_cases h : k = n
  · rw [if_pos ⟨h.symm, hk⟩, if_pos h]
  · rw [if_neg (fun he => h he.1.symm), if_neg h]

theorem complete_members (k : Nat) : (t.complete parent n ids).members k =
    t.members k ++ if parent = some k ∧ t.isImport k = true then [n] else [] := by
  have := addDependency_members (t.setChildren n ids) parent n k
  rwa [setChildren_isImport] at this

theorem complete_plain? {k : Nat} (hk : k ≠ n) : (t.complete parent n ids).plain? k = t.plain? k := by
  rw [plain?, node?, complete_nodes, ← node?, setChildren_node?, Option.map_map, plain?]
  congr 1
  funext node
  rw [Function.comp_apply, if_neg (Ne.symm hk)]

variable {t parent n} in
theorem complete_sound (hs : t.Sound) (hp : ∀ p, parent = some p → p < t.size) (hn : n < t.size) :
    (t.complete parent n ids).Sound :=
  addDependency_sound (setChildren_sound n ids hs) (fun p h => by
    rw [setChildren_size]
    exact hp p h) (by rwa [setChildren_size])

end

/-- `t'` is `t` with complete nodes added: those numbered `ids` below `parent`, and all that lies
below them. -/
structure Added (t t' : RuleTree) (parent : Option Nat) (ids : List Nat) : Prop where
  size_le : t.size ≤ t'.size
  kept : ∀ n < t.size, t'.plain? n = t.plain? n
  id_range : ∀ c ∈ ids, t.size ≤ c ∧ c < t'.size
  id_sorted : ids.Pairwise (· < ·)
  parent_new : ∀ c, t.size ≤ c → c < t'.size → c ∈ ids ∧ t'.parent? c = parent ∨
    c ∉ ids ∧ ∃ p, t.size ≤ p ∧ t'.parent? c = some p
  mem_children : ∀ n, t.size ≤ n → n < t'.size → ∀ c, c ∈ t'.children n ↔ t'.parent? c = some n
  children_sorted : ∀ n, t.size ≤ n → n < t'.size → (t'.children n).Pairwise (· < ·)
  members_new : ∀ n, t.size ≤ n → n < t'.size →
    t'.members n = if t'.isImport n = true then t'.children n else []
  members_kept : ∀ n < t.size,
    t'.members n = t.members n ++ if parent = some n ∧ t.isImport n = true then ids else []

namespace Added

variable {t t₁ t₂ : RuleTree} {parent : Option Nat} {ids : List Nat}

theorem refl (t : RuleTree) (parent : Option Nat) : Added t t parent [] where
  size_le := Nat.le_refl _
  kept := fun _ _ => rfl
  id_range := by simp
  id_sorted := .nil
  parent_new := fun c h₁ h₂ => absurd h₂ (Nat.not_lt.mpr h₁)
  mem_children := fun n h₁ h₂ => absurd h₂ (Nat.not_lt.mpr h₁)
  children_sorted := fun n h₁ h₂ => absurd h₂ (Nat.not_lt.mpr h₁)
  members_new := fun n h₁ h₂ => absurd h₂ (Nat.not_lt.mpr h₁)
  members_kept := by simp

theorem parent?_kept (h : Added t t₁ parent ids) {n : Nat} (hn : n < t.size) :
    t₁.parent? n = t.parent? n := by
  rw [parent?_eq_plain?, parent?_eq_plain?, h.kept n hn]

theorem children_kept (h : Added t t₁ parent ids) {n : Nat} (hn : n < t.size) :
    t₁.children n = t.children n := by
  rw [children_eq_plain?, children_eq_plain?, h.kept n hn]

theorem isImport_kept (h : Added t t₁ parent ids) {n : Nat} (hn : n < t.size) :
    t₁.isImport n = t.isImport n := by
  rw [isImport_eq_plain?, isImport_eq_plain?, h.kept n hn]

/-- A node that was complete stays so when siblings of an earlier node join. -/
theorem parent?_eq_some_iff {a n c : Nat} (h : Added t₁ t₂ (some a) ids) (ha : a < n)
    (hn : n < t₁.size) : t₂.parent? c = some n ↔ t₁.parent? c = some n := by
  constructor
  · intro hc
    rcases Nat.lt_or_ge c t₁.size with hlt | hge
    · rwa [← h.parent?_kept hlt]
    · have hclt := lt_size_of_parent? hc
      rcases h.parent_new c hge hclt with ⟨_, hp⟩ | ⟨_, p, hp, hpc⟩
      · have : some a = some n := hp.symm.trans hc
        simp only [Option.some.injEq] at this
        omega
      · have : some p = some n := hpc.symm.trans hc
        simp only [Option.some.injEq] at this
        omega
  · intro hc
    rwa [h.parent?_kept (lt_size_of_parent? hc)]

theorem cons {a : Nat} (ha : a < t.size) (h₁ : Added t t₁ (some a) [t.size])
    (h₂ : Added t₁ t₂ (some a) ids) : Added t t₂ (some a) (t.size :: ids) := by
  have hle := h₁.size_le
  have hsize : t.size < t₁.size := (h₁.id_range t.size (by simp)).2
  have hle₂ := h₂.size_le
  refine ⟨by omega, ?_, ?_, ?_, ?_, ?_, ?_, ?_, ?_⟩
  · intro n hn
    rw [h₂.kept n (by omega), h₁.kept n hn]
  · intro c hc
    rcases List.mem_cons.mp hc with rfl | hc
    · omega
    · have := h₂.id_range c hc
      omega
  · refine List.pairwise_cons.mpr ⟨fun c hc => ?_, h₂.id_sorted⟩
    have := h₂.id_range c hc
    omega
  · intro c hc hc₂
    rcases Nat.lt_or_ge c t₁.size with hlt | hge
    · have hids : c ∉ ids := fun hm => by
        have := h₂.id_range c hm
        omega
      rw [h₂.parent?_kept hlt]
      rcases h₁.parent_new c hc hlt with ⟨hm, hp⟩ | ⟨hm, hp⟩
      · exact Or.inl ⟨by simp [List.mem_singleton.mp hm], hp⟩
      · exact Or.inr ⟨by simpa [hids] using hm, hp⟩
    · rcases h₂.parent_new c hge hc₂ with ⟨hm, hp⟩ | ⟨hm, p, hp, hpc⟩
      · exact Or.inl ⟨List.mem_cons_of_mem _ hm, hp⟩
      · exact Or.inr ⟨by simp [hm, show c ≠ t.size by omega], p, by omega, hpc⟩
  · intro n hn hn₂ c
    rcases Nat.lt_or_ge n t₁.size with hlt | hge
    · rw [h₂.children_kept hlt, h₁.mem_children n hn hlt,
        h₂.parent?_eq_some_iff (by omega) hlt]
    · exact h₂.mem_children n hge hn₂ c
  · intro n hn hn₂
    rcases Nat.lt_or_ge n t₁.size with hlt | hge
    · rw [h₂.children_kept hlt]
      exact h₁.children_sorted n hn hlt
    · exact h₂.children_sorted n hge hn₂
  · intro n hn hn₂
    rcases Nat.lt_or_ge n t₁.size with hlt | hge
    · have hfar : ¬(some a = some n ∧ t₁.isImport n = true) := fun ⟨he, _⟩ => by
        have := Option.some.inj he
        omega
      rw [h₂.members_kept n hlt, if_neg hfar, List.append_nil, h₂.isImport_kept hlt,
        h₂.children_kept hlt, h₁.members_new n hn hlt]
    · exact h₂.members_new n hge hn₂
  · intro n hn
    rw [h₂.members_kept n (by omega), h₁.members_kept n hn, h₁.isImport_kept hn]
    by_cases h : some a = some n ∧ t.isImport n = true
    · simp only [if_pos h, List.append_assoc, List.singleton_append]
    · simp only [if_neg h, List.append_nil]

/-- What is added below the last node has exactly that node above it. -/
theorem mem_ids_iff {a : Nat} (h : Added t₁ t₂ (some a) ids) (hs : t₁.Sound)
    (ha : t₁.size = a + 1) (c : Nat) : c ∈ ids ↔ t₂.parent? c = some a := by
  constructor
  · intro hc
    obtain ⟨hge, hlt⟩ := h.id_range c hc
    exact ((h.parent_new c hge hlt).resolve_right (fun hn => hn.1 hc)).2
  · intro hpc
    rcases Nat.lt_or_ge c t₁.size with hlt | hge
    · rw [h.parent?_kept hlt] at hpc
      have := hs.parent_lt _ _ hpc
      omega
    · rcases h.parent_new c hge (lt_size_of_parent? hpc) with ⟨hc, _⟩ | ⟨_, p, hp, hpc'⟩
      · exact hc
      · have := Option.some.inj (hpc'.symm.trans hpc)
        omega

/-- A new node becomes complete with its children and the dependency on it. -/
theorem node {resolve : String → AbsPath} {label : String} {line : Nat} {kind : LocationKind}
    (hs : t.Sound) (hp : ∀ p, parent = some p → p < t.size)
    (h₀ : addNode resolve t parent label line kind = .ok t₁) (h : Added t₁ t₂ (some t.size) ids) :
    Added t (t₂.complete parent t.size ids) parent [t.size] := by
  obtain ⟨node, hpar, _, _, alike⟩ := addNode_node h₀
  have hs₁ := addNode_sound hs hp h₀
  have hdep := (addNode_cases h₀).1
  have hsize₁ := size_of_push alike
  have hsize := complete_size t₂ parent t.size ids
  have hle := h.size_le
  have hold : ∀ n < t.size, t₁.plain? n = t.plain? n := fun n hn => by
    rw [plain?_of_push alike, if_neg (by omega)]
  have hnode : t₂.parent? t.size = parent := by
    rw [h.parent?_kept (by omega), parent?_of_push alike, if_pos rfl, hpar]
  refine ⟨by omega, ?_, ?_, by simp, ?_, ?_, ?_, ?_, ?_⟩
  · intro n hn
    rw [complete_plain? _ _ _ _ (by omega), h.kept n (by omega), hold n hn]
  · intro c hc
    have := List.mem_singleton.mp hc
    omega
  · intro c hc hc₂
    rw [complete_parent?]
    rcases Nat.lt_or_ge t.size c with hlt | hge
    · refine Or.inr ⟨by simp only [List.mem_singleton]; omega, ?_⟩
      rcases h.parent_new c (by omega) (by omega) with ⟨_, hpc⟩ | ⟨_, p, hp, hpc⟩
      · exact ⟨t.size, Nat.le_refl _, hpc⟩
      · exact ⟨p, by omega, hpc⟩
    · obtain rfl : c = t.size := by omega
      exact Or.inl ⟨by simp, hnode⟩
  · intro n hn hn₂ c
    rw [complete_children _ _ _ _ (by omega), complete_parent?]
    split
    next heq =>
      subst heq
      exact h.mem_ids_iff hs₁ hsize₁ c
    next hne => exact h.mem_children n (by omega) (by omega) c
  · intro n hn hn₂
    rw [complete_children _ _ _ _ (by omega)]
    split
    next => exact h.id_sorted
    next => exact h.children_sorted n (by omega) (by omega)
  · intro n hn hn₂
    have hfar : ¬(parent = some n ∧ t₂.isImport n = true) := fun ⟨hpn, _⟩ => by
      have := hp n hpn
      omega
    rw [complete_members, if_neg hfar, List.append_nil, complete_isImport,
      complete_children _ _ _ _ (by omega)]
    rcases Nat.eq_or_lt_of_le hn with rfl | hlt
    · have none : t₁.members t.size = [] := by
        rw [members, hdep]
        exact members_eq_nil_of_le hs (Nat.le_refl _)
      rw [h.members_kept t.size (by omega), none, h.isImport_kept (by omega)]
      simp
    · rw [if_neg (show n ≠ t.size by omega)]
      exact h.members_new n (by omega) (by omega)
  · intro n hn
    have hmem : t₁.members n = t.members n := by rw [members, hdep, members]
    have hfar : ¬(some t.size = some n ∧ t₁.isImport n = true) := fun ⟨heq, _⟩ => by
      have := Option.some.inj heq
      omega
    have himp : t₁.isImport n = t.isImport n := by
      rw [isImport_eq_plain?, isImport_eq_plain?, hold n hn]
    rw [complete_members, h.members_kept n (by omega), hmem, if_neg hfar, List.append_nil,
      h.isImport_kept (by omega), himp]

end Added

mutual

theorem add_added (resolve : String → AbsPath) (parent : Option Nat) (l : Location)
    {t t' : RuleTree} (hs : t.Sound) (hp : ∀ p, parent = some p → p < t.size)
    (h : add resolve parent l t = .ok t') :
    t'.Sound ∧ Added t t' parent [t.size] ∧ t'.isImport t.size = l.isImport := by
  obtain ⟨label, line, kind, children⟩ := l
  simp only [add, bind, Except.bind, pure, Except.pure] at h
  split at h
  next => cases h
  next t₁ h₁ =>
    split at h
    next => cases h
    next r h₂ =>
      cases h
      obtain ⟨node, _, _, hkind, alike⟩ := addNode_node h₁
      have hsize := size_of_push alike
      obtain ⟨hs₂, ha⟩ := addAll_added resolve t.size children (addNode_sound hs hp h₁)
        (by omega) h₂
      have hle := ha.size_le
      refine ⟨complete_sound r.2 hs₂ (fun p he => by have := hp p he; omega) (by omega),
        ha.node hs hp h₁, ?_⟩
      refine (complete_isImport r.1 parent t.size r.2 t.size).trans ?_
      rw [ha.isImport_kept (by omega), isImport_of_push alike, if_pos rfl, hkind]
      rfl

theorem addAll_added (resolve : String → AbsPath) (n : Nat) (ls : List Location)
    {t t' : RuleTree} {ids : List Nat} (hs : t.Sound) (hn : n < t.size)
    (h : addAll resolve n ls t = .ok (t', ids)) : t'.Sound ∧ Added t t' (some n) ids := by
  cases ls with
  | nil =>
    cases h
    exact ⟨hs, Added.refl t _⟩
  | cons l rest =>
    simp only [addAll, bind, Except.bind, pure, Except.pure] at h
    split at h
    next => cases h
    next t₁ h₁ =>
      split at h
      next => cases h
      next r h₂ =>
        cases h
        obtain ⟨hs₁, ha₁, _⟩ := add_added resolve (some n) l hs (fun p he => by
          cases he
          exact hn) h₁
        obtain ⟨hs₂, ha₂⟩ := addAll_added resolve n rest hs₁
          (Nat.lt_of_lt_of_le hn ha₁.size_le) h₂
        exact ⟨hs₂, ha₁.cons hn ha₂⟩

end

/-- What is true of every built tree. -/
structure WellFormed (t : RuleTree) : Prop where
  sound : t.Sound
  root_isImport : t.isImport root = true
  root_parent? : t.parent? root = none
  parent?_isSome : ∀ n, 0 < n → n < t.size → (t.parent? n).isSome
  mem_children_iff : ∀ p c, c ∈ t.children p ↔ t.parent? c = some p
  children_sorted : ∀ n, (t.children n).Pairwise (· < ·)
  members_eq : ∀ n, t.members n = if t.isImport n = true then t.children n else []

theorem bare_sound (sourceRoot : AbsPath) : (bare sourceRoot).Sound where
  parent_lt := by simp [parent?, parentIn, bare]
  containsRules_iff := by simp [isImport, node?, bare]
  mem_rules_iff := by simp [ruleId?, node?, bare]
  rules_nodup := .nil
  dependency_lt := by simp [bare]

theorem build_wellFormed {resolve : String → AbsPath} {sourceRoot : String} {l : Location}
    {t : RuleTree} (h : build resolve sourceRoot l = .ok t) : t.WellFormed := by
  unfold build at h
  split at h
  next hl =>
    obtain ⟨hs, ha, hi⟩ := add_added resolve none l (bare_sound _) (by simp) h
    have hsize : (bare (resolve sourceRoot)).size = 0 := rfl
    have hroot := (ha.id_range 0 (by simp [hsize])).2
    have beyond : ∀ n, t.size ≤ n → t.children n = [] ∧ t.parent? n = none ∧ t.isImport n = false :=
      fun n hn => by
        have : t.node? n = none := Array.getElem?_eq_none_iff.mpr hn
        exact ⟨by simp [children, this],
          by simpa [parent?, parentIn, node?] using congrArg (·.bind Node.parent) this,
          by simp [isImport, this]⟩
    refine ⟨hs, ?_, ?_, ?_, ?_, ?_, ?_⟩
    · exact hi.trans hl
    · have := ha.parent_new 0 (by simp [hsize]) hroot
      simpa [hsize, root] using this
    · intro n hn hlt
      rcases ha.parent_new n (by omega) hlt with ⟨hm, _⟩ | ⟨_, p, _, hp⟩
      · simp only [hsize, List.mem_singleton] at hm
        omega
      · simp [hp]
    · intro p c
      rcases Nat.lt_or_ge p t.size with hlt | hge
      · exact ha.mem_children p (by omega) hlt c
      · rw [(beyond p hge).1]
        refine ⟨by simp, fun hc => ?_⟩
        have h₁ := hs.parent_lt p c hc
        have h₂ := lt_size_of_parent? hc
        omega
    · intro n
      rcases Nat.lt_or_ge n t.size with hlt | hge
      · exact ha.children_sorted n (by omega) hlt
      · rw [(beyond n hge).1]
        exact .nil
    · intro n
      rcases Nat.lt_or_ge n t.size with hlt | hge
      · exact ha.members_new n (by omega) hlt
      · rw [(beyond n hge).2.2, members_eq_nil_of_le hs hge]
        simp
  next => cases h

namespace WellFormed

variable {t : RuleTree} (wf : t.WellFormed)
include wf

/-- The dependencies are those of the imports on their children. -/
theorem mem_dependencies_iff {p c : Nat} :
    (⟨p, c⟩ : Dependency) ∈ t.dependencies ↔ t.isImport p = true ∧ t.parent? c = some p := by
  have hmem : (⟨p, c⟩ : Dependency) ∈ t.dependencies ↔ c ∈ t.members p := by
    constructor
    · intro h
      exact List.mem_filterMap.mpr ⟨_, h, by simp⟩
    · intro h
      obtain ⟨d, hd, he⟩ := List.mem_filterMap.mp h
      split at he
      next hp =>
        cases he
        subst hp
        exact hd
      next => cases he
  rw [hmem, wf.members_eq p]
  by_cases hi : t.isImport p = true
  · simp [hi, wf.mem_children_iff]
  · simp [hi]

/-- A node is followed by its parent if that is an import. -/
theorem follower?_eq_some_iff {p c : Nat} :
    (t.follower? c).map Subtype.val = some p ↔ t.isImport p = true ∧ t.parent? c = some p := by
  unfold follower?
  split
  next d hd =>
    have hmem := List.mem_of_find?_eq_some hd
    have hchild : d.child = c := by simpa using List.find?_some hd
    obtain ⟨parent, child⟩ := d
    subst hchild
    obtain ⟨hi, hp⟩ := wf.mem_dependencies_iff.mp hmem
    have hlt := wf.sound.parent_lt _ _ hp
    simp only [hlt, dite_true, Option.map_some, Option.some.injEq, hp]
    exact ⟨fun h => ⟨h ▸ hi, h⟩, fun h => h.2⟩
  next hd =>
    refine ⟨by simp, fun h => ?_⟩
    have := List.find?_eq_none.mp hd _ (wf.mem_dependencies_iff.mpr h)
    simp at this

theorem mem_members_iff {p c : Nat} :
    c ∈ t.members p ↔ (t.follower? c).map Subtype.val = some p := by
  rw [wf.follower?_eq_some_iff, wf.members_eq p]
  by_cases hi : t.isImport p = true
  · simp [hi, wf.mem_children_iff]
  · simp [hi]

end WellFormed

end RuleScope.RuleTree
