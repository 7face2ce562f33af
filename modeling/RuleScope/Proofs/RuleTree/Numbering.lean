import RuleScope.Proofs.RuleTree.Duplicates

namespace RuleScope

open RuleTree

theorem Node.eq_of_unmarked {a b : Node} (h : a.unmarked = b.unmarked)
    (hmarks : a.containsRules = b.containsRules) : a = b := by
  obtain ⟨label, line, parent, children, content⟩ := a
  obtain ⟨label', line', parent', children', content'⟩ := b
  cases content <;> cases content' <;> simp_all [Node.unmarked, Node.containsRules]

namespace Location

/-- The numbers of siblings of which the first has number `n`. -/
def numbers (n : Nat) : List Location → List Nat
  | [] => []
  | l :: rest => n :: numbers (n + l.count) rest

/-- The content of a node with these rules below it; `place` tells where a written path leads. -/
def content (place : String → AbsPath) (label : String) (below : List RuleId) :
    LocationKind → NodeContent
  | .imported path diagnostics =>
    .imported (place (writtenPath label path)) diagnostics (!below.isEmpty)
  | .rule id expression baseTerms => .rule id expression baseTerms

mutual
/-- The nodes of a location that has number `n`, in pre-order. -/
def nodes (place : String → AbsPath) (parent : Option Nat) (n : Nat) : Location → List Node
  | ⟨label, line, kind, children⟩ =>
    ⟨label, line, parent, numbers (n + 1) children,
      content place label (ruleIdsAll children) kind⟩ :: nodesAll place n (n + 1) children

/-- The nodes of siblings below node `p`, of which the first has number `n`. -/
def nodesAll (place : String → AbsPath) (p n : Nat) : List Location → List Node
  | [] => []
  | l :: rest => l.nodes place (some p) n ++ nodesAll place p (n + l.count) rest
end

mutual

theorem length_nodes (place : String → AbsPath) (parent : Option Nat) (n : Nat) (l : Location) :
    (l.nodes place parent n).length = l.count := by
  obtain ⟨label, line, kind, children⟩ := l
  rw [nodes, count, List.length_cons, length_nodesAll place n (n + 1) children]
  omega

theorem length_nodesAll (place : String → AbsPath) (p n : Nat) (ls : List Location) :
    (nodesAll place p n ls).length = countAll ls := by
  cases ls with
  | nil => rfl
  | cons l rest =>
    rw [nodesAll, countAll, List.length_append, length_nodes place (some p) n l,
      length_nodesAll place p (n + l.count) rest]

end

end Location

namespace RuleTree

/-- From number `n` on, `at?` has these nodes. -/
def StandAt (at? : Nat → Option Node) (n : Nat) (nodes : List Node) : Prop :=
  ∀ i node, nodes[i]? = some node → at? (n + i) = some node

section

variable {at? : Nat → Option Node} {n : Nat} {node : Node} {nodes more : List Node}

theorem standAt_nil : StandAt at? n [] := by
  intro i node h
  simp at h

theorem standAt_cons :
    StandAt at? n (node :: nodes) ↔ at? n = some node ∧ StandAt at? (n + 1) nodes := by
  constructor
  · intro h
    refine ⟨h 0 node rfl, fun i e he => ?_⟩
    rw [Nat.add_assoc, Nat.add_comm 1 i]
    exact h (i + 1) e he
  · rintro ⟨hfirst, hrest⟩ i e he
    cases i with
    | zero => simpa using hfirst.trans he
    | succ i =>
      rw [Nat.add_comm i 1, ← Nat.add_assoc]
      exact hrest i e he

theorem standAt_append :
    StandAt at? n (nodes ++ more) ↔ StandAt at? n nodes ∧ StandAt at? (n + nodes.length) more := by
  constructor
  · intro h
    refine ⟨fun i e he => h i e ?_, fun i e he => ?_⟩
    · rw [List.getElem?_append_left (List.getElem?_eq_some_iff.mp he).1]
      exact he
    · rw [Nat.add_assoc]
      refine h (nodes.length + i) e ?_
      rw [List.getElem?_append_right (Nat.le_add_right _ _), Nat.add_sub_cancel_left]
      exact he
  · rintro ⟨hfirst, hrest⟩ i e he
    rcases Nat.lt_or_ge i nodes.length with hi | hi
    · rw [List.getElem?_append_left hi] at he
      exact hfirst i e he
    · rw [List.getElem?_append_right hi] at he
      have hat := hrest (i - nodes.length) e he
      rwa [show n + nodes.length + (i - nodes.length) = n + i by omega] at hat

theorem StandAt.congr {at?' : Nat → Option Node} (h : StandAt at? n nodes)
    (same : ∀ k, n ≤ k → k < n + nodes.length → at?' k = at? k) : StandAt at?' n nodes := by
  intro i e he
  have hi : i < nodes.length := (List.getElem?_eq_some_iff.mp he).1
  rw [same (n + i) (by omega) (by omega)]
  exact h i e he

end

variable {resolve : String → AbsPath} {parent : Option Nat} {t t' : RuleTree}

theorem nodes_eq_of_standAt {nodes : List Node} (h : StandAt t.node? 0 nodes)
    (hlength : nodes.length = t.size) : t.nodes.toList = nodes := by
  refine (List.ext_getElem?_iff.mpr fun i => ?_).symm
  rcases Nat.lt_or_ge i nodes.length with hi | hi
  · have hget := List.getElem?_eq_getElem hi
    have hnode := h i _ hget
    rw [Nat.zero_add] at hnode
    rw [hget, ← hnode, node?, Array.getElem?_toList]
  · rw [List.getElem?_eq_none hi, List.getElem?_eq_none]
    rwa [Array.length_toList, ← size, ← hlength]

/-- Where a written path leads, seen from the source root. -/
def placeUnder (resolve : String → AbsPath) (sourceRoot : AbsPath) (path : String) : AbsPath :=
  resolve (Path.join sourceRoot.text path)

/-- From number `n` on, the tree has these nodes but for their marks. -/
def Outlines (t : RuleTree) (n : Nat) (nodes : List Node) : Prop :=
  StandAt t.plain? n (nodes.map Node.unmarked)

theorem Outlines.kept {n : Nat} {nodes : List Node} (h : t.Outlines n nodes)
    (hsize : n + nodes.length ≤ t.size) (same : ∀ k < t.size, t'.plain? k = t.plain? k) :
    t'.Outlines n nodes := by
  refine StandAt.congr h fun k _ hk => ?_
  rw [List.length_map] at hk
  exact same k (by omega)

theorem addDiagnostics_sourceRoot (n : Nat) (diagnostics : List Diagnostic) (t : RuleTree) :
    (diagnostics.foldl (addDiagnostic n) t).sourceRoot = t.sourceRoot := by
  induction diagnostics generalizing t with
  | nil => rfl
  | cons d rest ih =>
    rw [List.foldl_cons, ih]
    unfold addDiagnostic
    split <;> rfl

/-- A new node has no children yet, and no rule below it. -/
theorem addNode_stands {label : String} {line : Nat} {kind : LocationKind}
    (h : addNode resolve t parent label line kind = .ok t') : t'.sourceRoot = t.sourceRoot ∧
      AlikeIn t'.nodes (t.nodes.push ⟨label, line, parent, [],
        Location.content (placeUnder resolve t.sourceRoot) label [] kind⟩) := by
  cases kind with
  | imported path diagnostics =>
    cases h
    refine ⟨addDiagnostics_sourceRoot _ _ _, fun i => ?_⟩
    rw [(addDiagnostics_keeps _ _ _).1]
    rfl
  | rule id expression baseTerms =>
    cases hid : Table.get? id t.rules with
    | some n => simp [addNode, hid] at h
    | none =>
      simp only [addNode, hid, Except.ok.injEq] at h
      subst h
      refine ⟨rfl, ?_⟩
      cases parent with
      | none => exact fun i => rfl
      | some p => exact markRules_alike _ p

theorem complete_plain?_self (t : RuleTree) (parent : Option Nat) (n : Nat) (ids : List Nat) :
    (t.complete parent n ids).plain? n =
      (t.plain? n).map fun node => { node with children := ids } := by
  rw [plain?, node?, complete_nodes, ← node?, setChildren_node?, plain?, Option.map_map,
    Option.map_map]
  congr 1
  funext node
  obtain ⟨label, line, parent, children, content⟩ := node
  cases content <;> simp [Node.unmarked]

theorem complete_sourceRoot (t : RuleTree) (parent : Option Nat) (n : Nat) (ids : List Nat) :
    (t.complete parent n ids).sourceRoot = t.sourceRoot := by
  unfold complete addDependency
  cases parent with
  | none => rfl
  | some p =>
    dsimp only
    split <;> rfl

mutual

/-- Adding a location adds its nodes, after those that are there. -/
theorem add_outlines (parent : Option Nat) (l : Location) {t t' : RuleTree} (hs : t.Sound)
    (hp : ∀ p, parent = some p → p < t.size) (h : add resolve parent l t = .ok t') :
    t'.sourceRoot = t.sourceRoot ∧ t'.size = t.size + l.count ∧
      t'.Outlines t.size (l.nodes (placeUnder resolve t.sourceRoot) parent t.size) := by
  obtain ⟨label, line, kind, children⟩ := l
  simp only [add, bind, Except.bind, pure, Except.pure] at h
  split at h
  next => cases h
  next t₁ h₁ =>
    split at h
    next => cases h
    next r h₂ =>
      cases h
      obtain ⟨hroot, alike⟩ := addNode_stands h₁
      have hsize₁ := size_of_push alike
      have hs₁ := addNode_sound hs hp h₁
      obtain ⟨hroot₂, hsize₂, hids, hbelow⟩ :=
        addAll_outlines t.size children hs₁ (by omega) h₂
      obtain ⟨-, added⟩ := addAll_added resolve t.size children hs₁ (by omega) h₂
      rw [hroot, hsize₁] at hbelow
      have hsize := complete_size r.1 parent t.size r.2
      have hnode := complete_plain?_self r.1 parent t.size r.2
      rw [added.kept t.size (by omega), plain?_of_push alike, if_pos rfl] at hnode
      refine ⟨?_, ?_, standAt_cons.mpr ⟨?_, ?_⟩⟩
      · exact (complete_sourceRoot r.1 parent t.size r.2).trans (hroot₂.trans hroot)
      · refine hsize.trans ?_
        rw [Location.count]
        omega
      · refine hnode.trans ?_
        rw [hids, hsize₁]
        cases kind <;> rfl
      · refine StandAt.congr hbelow fun k hk _ => ?_
        exact complete_plain? r.1 parent t.size r.2 (by omega)

theorem addAll_outlines (n : Nat) (ls : List Location) {t t' : RuleTree} {ids : List Nat}
    (hs : t.Sound) (hn : n < t.size) (h : addAll resolve n ls t = .ok (t', ids)) :
    t'.sourceRoot = t.sourceRoot ∧ t'.size = t.size + Location.countAll ls ∧
      ids = Location.numbers t.size ls ∧
      t'.Outlines t.size (Location.nodesAll (placeUnder resolve t.sourceRoot) n t.size ls) := by
  cases ls with
  | nil =>
    cases h
    exact ⟨rfl, rfl, rfl, standAt_nil⟩
  | cons l rest =>
    simp only [addAll, bind, Except.bind, pure, Except.pure] at h
    split at h
    next => cases h
    next t₁ h₁ =>
      split at h
      next => cases h
      next r h₂ =>
        cases h
        have hp : ∀ p, some n = some p → p < t.size := fun p he => Option.some.inj he ▸ hn
        obtain ⟨hroot₁, hsize₁, hfirst⟩ := add_outlines (some n) l hs hp h₁
        obtain ⟨hs₁, added, -⟩ := add_added resolve (some n) l hs hp h₁
        obtain ⟨hroot₂, hsize₂, hids, hrest⟩ := addAll_outlines n rest hs₁ (by omega) h₂
        obtain ⟨-, added₂⟩ := addAll_added resolve n rest hs₁ (by omega) h₂
        rw [hroot₁, hsize₁] at hrest
        refine ⟨hroot₂.trans hroot₁, ?_, ?_, ?_⟩
        · rw [hsize₂, hsize₁, Location.countAll, Nat.add_assoc]
        · rw [hids, hsize₁, Location.numbers]
        · have hlength := Location.length_nodes (placeUnder resolve t.sourceRoot) (some n) t.size l
          rw [Outlines, Location.nodesAll, List.map_append, standAt_append, List.length_map, hlength]
          exact ⟨hfirst.kept (by omega) added₂.kept, hrest⟩

end

section

variable {t : RuleTree} (wf : t.WellFormed)
include wf

theorem WellFormed.exists_rule_within_iff (n : Nat) :
    (∃ r, t.isRule r = true ∧ t.Within n r) ↔
      t.isRule n = true ∨ ∃ c ∈ t.children n, ∃ r, t.isRule r = true ∧ t.Within c r := by
  constructor
  · rintro ⟨r, hr, hw⟩
    rcases wf.within_cases_down hw with rfl | ⟨c, hc, hcr⟩
    · exact Or.inl hr
    · exact Or.inr ⟨c, hc, r, hr, hcr⟩
  · rintro (hn | ⟨c, hc, r, hr, hcr⟩)
    · exact ⟨n, hn, .refl⟩
    · exact ⟨r, hr, (wf.within_of_mem_children hc).trans hcr⟩

/-- A node is marked as its location says, given that the rules below it are those of its children. -/
theorem WellFormed.node?_of_plain? {n : Nat} {label : String} {line : Nat} {parent : Option Nat}
    {children : List Nat} {place : String → AbsPath} {below : List RuleId} {kind : LocationKind}
    (h : t.plain? n = some (Node.unmarked
      ⟨label, line, parent, children, Location.content place label below kind⟩))
    (hbelow : (∃ c ∈ t.children n, ∃ r, t.isRule r = true ∧ t.Within c r) ↔ below ≠ []) :
    t.node? n = some ⟨label, line, parent, children, Location.content place label below kind⟩ := by
  obtain ⟨node, hnode, hunmarked⟩ := Option.map_eq_some_iff.mp h
  rw [hnode]
  refine congrArg some (Node.eq_of_unmarked hunmarked ?_)
  have himport : node.isImport = kind.isImport := by
    have := congrArg Node.isImport hunmarked
    rw [Node.unmarked_isImport, Node.unmarked_isImport] at this
    rw [this]
    cases kind <;> rfl
  cases kind with
  | rule id expression baseTerms =>
    cases hmark : node.containsRules with
    | false => rfl
    | true =>
      rw [Node.isImport_of_containsRules hmark] at himport
      cases himport
  | imported path diagnostics =>
    have hi : t.isImport n = true := by
      rw [isImport, hnode]
      exact himport
    have hmarked : t.containsRules n = node.containsRules := by
      rw [containsRules, hnode]
      rfl
    have hrule : ¬ t.isRule n = true := fun hr => by
      rw [isImport_eq_false_of_isRule hr] at hi
      cases hi
    have hiff := wf.sound.containsRules_iff n hi
    rw [hmarked, wf.exists_rule_within_iff, or_iff_right hrule, hbelow] at hiff
    rw [Bool.eq_iff_iff, hiff]
    cases below <;> simp [Location.content, Node.containsRules]

omit wf in
theorem isRule_of_plain? {n : Nat} {label : String} {line : Nat} {parent : Option Nat}
    {children : List Nat} {place : String → AbsPath} {below : List RuleId} {kind : LocationKind}
    (h : t.plain? n = some (Node.unmarked
      ⟨label, line, parent, children, Location.content place label below kind⟩)) :
    t.isRule n = true ↔ kind.ruleId?.toList ≠ [] := by
  rw [isRule_iff_ruleId?, ruleId?_eq_plain?, h, Option.bind_some, Node.unmarked_ruleId?]
  cases kind <;> simp [Node.ruleId?, Location.content, LocationKind.ruleId?]

end

mutual

/-- In a tree that is complete the marks are right too. -/
theorem stands_of_outlines {t : RuleTree} (wf : t.WellFormed) (place : String → AbsPath)
    (parent : Option Nat) (n : Nat) (l : Location) (h : t.Outlines n (l.nodes place parent n)) :
    StandAt t.node? n (l.nodes place parent n) ∧
      ((∃ r, t.isRule r = true ∧ t.Within n r) ↔ l.ruleIds ≠ []) := by
  obtain ⟨label, line, kind, children⟩ := l
  obtain ⟨hnode, hrest⟩ := standAt_cons.mp h
  obtain ⟨hbelow, hrules⟩ := standAll_of_outlines wf place n (n + 1) children hrest
  have hchildren : t.children n = Location.numbers (n + 1) children := by
    rw [children_eq_plain?, hnode, Option.map_some, Node.unmarked_children]
    rfl
  rw [← hchildren] at hrules
  refine ⟨standAt_cons.mpr ⟨wf.node?_of_plain? hnode hrules, hbelow⟩, ?_⟩
  rw [wf.exists_rule_within_iff, hrules, isRule_of_plain? hnode, Location.ruleIds, ne_eq, ne_eq, ne_eq,
    List.append_eq_nil_iff]
  exact Decidable.not_and_iff_or_not.symm

theorem standAll_of_outlines {t : RuleTree} (wf : t.WellFormed) (place : String → AbsPath)
    (p n : Nat) (ls : List Location) (h : t.Outlines n (Location.nodesAll place p n ls)) :
    StandAt t.node? n (Location.nodesAll place p n ls) ∧
      ((∃ c ∈ Location.numbers n ls, ∃ r, t.isRule r = true ∧ t.Within c r) ↔
        Location.ruleIdsAll ls ≠ []) := by
  cases ls with
  | nil =>
    refine ⟨standAt_nil, ?_⟩
    simp [Location.numbers, Location.ruleIdsAll]
  | cons l rest =>
    rw [Outlines, Location.nodesAll, List.map_append, standAt_append, List.length_map,
      Location.length_nodes] at h
    obtain ⟨hfirst, hrules⟩ := stands_of_outlines wf place (some p) n l h.1
    obtain ⟨hothers, hmore⟩ := standAll_of_outlines wf place p (n + l.count) rest h.2
    rw [Location.nodesAll, standAt_append, Location.length_nodes]
    refine ⟨⟨hfirst, hothers⟩, ?_⟩
    rw [Location.numbers, List.exists_mem_cons_iff, hrules, hmore, Location.ruleIdsAll, ne_eq, ne_eq,
      ne_eq, List.append_eq_nil_iff]
    exact Decidable.not_and_iff_or_not.symm

end

/-- The tree is the location: each of its nodes under its number in pre-order, listed by the node above
it, followed by it if that is an import, and marked if it is an import with a rule below. -/
structure Represents (t : RuleTree) (place : String → AbsPath) (l : Location) : Prop where
  nodes_eq : t.nodes.toList = l.nodes place none 0
  size_eq : t.size = l.count
  root_parent? : t.parent? root = none
  parent?_eq : ∀ c, 0 < c → c < t.size → ∃ p, p < c ∧ t.parent? c = some p ∧
    (t.children p).count c = 1 ∧ ∀ q, c ∈ t.children q → q = p
  members_eq : ∀ n, t.isImport n = true → t.members n = t.children n
  containsRules_iff : ∀ n, t.containsRules n = true ↔
    t.isImport n = true ∧ ∃ r, t.isRule r = true ∧ t.Within n r

section

variable {sourceRoot : String} {l : Location} {t : RuleTree}

theorem build_represents (h : build resolve sourceRoot l = .ok t) :
    t.Represents (placeUnder resolve (resolve sourceRoot)) l := by
  have wf := build_wellFormed h
  have hl : l.isImport = true := (exists_build_eq_ok_iff.mp ⟨t, h⟩).1
  rw [build, if_pos hl] at h
  obtain ⟨-, hsize, houtlines⟩ := add_outlines none l (bare_sound _) (by simp) h
  rw [show (bare (resolve sourceRoot)).size = 0 from rfl] at hsize houtlines
  rw [Nat.zero_add] at hsize
  obtain ⟨hstand, -⟩ := stands_of_outlines wf _ none 0 l houtlines
  refine ⟨?_, hsize, wf.root_parent?, fun c hc hlt => ?_, fun n hn => ?_, fun n => ?_⟩
  · exact nodes_eq_of_standAt hstand ((Location.length_nodes _ none 0 l).trans hsize.symm)
  · obtain ⟨p, hp⟩ := Option.isSome_iff_exists.mp (wf.parent?_isSome c hc hlt)
    have hmem : c ∈ t.children p := (wf.mem_children_iff p c).mpr hp
    have hnodup : (t.children p).Nodup := (wf.children_sorted p).imp Nat.ne_of_lt
    refine ⟨p, wf.sound.parent_lt p c hp, hp, hnodup.count.trans (if_pos hmem), fun q hq => ?_⟩
    exact Option.some.inj (((wf.mem_children_iff q c).mp hq).symm.trans hp)
  · rw [wf.members_eq n, if_pos hn]
  · cases hi : t.isImport n with
    | true => simp [wf.sound.containsRules_iff n hi]
    | false =>
      have hmark : t.containsRules n ≠ true := fun hm => by
        rw [isImport_of_marked hm] at hi
        cases hi
      simp [hmark]

end

end RuleTree

end RuleScope
