import RuleScope.Proofs.RuleTree.Marking
import RuleScope.RuleTree.Lookup

namespace RuleScope

namespace RuleTree

def parent? (t : RuleTree) (n : Nat) : Option Nat := parentIn t.nodes n

/-- `n` is `a` or lies somewhere below it. -/
def Within (t : RuleTree) (a n : Nat) : Prop := WithinIn t.nodes a n

/-- The mark of an import that has a rule below it. -/
def containsRules (t : RuleTree) (n : Nat) : Bool := (t.node? n).any Node.containsRules

def plain? (t : RuleTree) (n : Nat) : Option Node := (t.node? n).map Node.unmarked

/-- What stays true of a tree while it is built. -/
structure Sound (t : RuleTree) : Prop where
  parent_lt : ∀ p c, t.parent? c = some p → p < c
  containsRules_iff : ∀ n, t.isImport n = true →
    (t.containsRules n = true ↔ ∃ r, t.isRule r = true ∧ t.Within n r)
  mem_rules_iff : ∀ id n, (id, n) ∈ t.rules ↔ t.ruleId? n = some id
  rules_nodup : (t.rules.map Prod.fst).Nodup
  dependency_lt : ∀ d ∈ t.dependencies, d.parent < t.size ∧ d.child < t.size

section

variable {t t' : RuleTree} {n : Nat}

theorem lt_size_of_parent? {p : Nat} (h : t.parent? n = some p) : n < t.size := by
  obtain ⟨node, hn, _⟩ := Option.bind_eq_some_iff.mp h
  exact (Array.getElem?_eq_some_iff.mp hn).1

theorem isImport_eq_any (t : RuleTree) (n : Nat) : t.isImport n = (t.node? n).any Node.isImport := by
  unfold isImport
  cases t.node? n <;> rfl

theorem lt_size_of_isImport (h : t.isImport n = true) : n < t.size := by
  rw [isImport_eq_any, Option.any_eq_true] at h
  obtain ⟨node, hn, _⟩ := h
  exact (Array.getElem?_eq_some_iff.mp hn).1

theorem isRule_iff_ruleId? : t.isRule n = true ↔ (t.ruleId? n).isSome := by
  unfold isRule ruleId?
  cases t.node? n with
  | none => simp
  | some node => simpa using Node.isRule_iff_ruleId?

theorem lt_size_of_isRule (h : t.isRule n = true) : n < t.size := by
  unfold isRule node? at h
  by_contra hn
  have none : t.nodes[n]? = none := Array.getElem?_eq_none_iff.mpr (by simpa [size] using hn)
  simp [none] at h

theorem isImport_eq_false_of_isRule (h : t.isRule n = true) : t.isImport n = false := by
  unfold isRule at h
  unfold isImport
  cases hn : t.node? n with
  | none => rfl
  | some node => simpa [hn, Node.isRule] using h

theorem isRule_of_not_isImport (hn : n < t.size) (h : t.isImport n = false) : t.isRule n = true := by
  obtain ⟨node, hnode⟩ : ∃ node, t.node? n = some node := ⟨_, Array.getElem?_eq_getElem hn⟩
  simpa [isRule, isImport, hnode, Node.isRule] using h

theorem parent?_eq_plain? (t : RuleTree) (n : Nat) : t.parent? n = (t.plain? n).bind Node.parent := by
  unfold parent? parentIn plain? node?
  cases t.nodes[n]? <;> simp

theorem children_eq_plain? (t : RuleTree) (n : Nat) :
    t.children n = ((t.plain? n).map Node.children).getD [] := by
  unfold children plain?
  cases t.node? n <;> simp

theorem isImport_eq_plain? (t : RuleTree) (n : Nat) :
    t.isImport n = ((t.plain? n).map Node.isImport).getD false := by
  unfold isImport plain?
  cases t.node? n <;> simp

theorem ruleId?_eq_plain? (t : RuleTree) (n : Nat) : t.ruleId? n = (t.plain? n).bind Node.ruleId? := by
  unfold ruleId? plain?
  cases t.node? n <;> simp

theorem members_eq_nil_of_le (h : t.Sound) (hn : t.size ≤ n) : t.members n = [] := by
  refine List.filterMap_eq_nil_iff.mpr fun d hd => ?_
  have := (h.dependency_lt d hd).1
  simp [show d.parent ≠ n by omega]

end

theorem parentIn_push (nodes : Array Node) (node : Node) (c : Nat) :
    parentIn (nodes.push node) c = if c = nodes.size then node.parent else parentIn nodes c := by
  by_cases h : c = nodes.size <;> simp [parentIn, Array.getElem?_push, h]

theorem parentIn_push_lt {nodes : Array Node} {node : Node}
    (lt : ∀ p c, parentIn nodes c = some p → p < c)
    (hp : ∀ p, node.parent = some p → p < nodes.size) :
    ∀ p c, parentIn (nodes.push node) c = some p → p < c := by
  intro p c h
  rw [parentIn_push] at h
  split at h
  next hc => rw [hc]; exact hp p h
  next => exact lt p c h

theorem withinIn_push_of_lt {nodes : Array Node} {node : Node}
    (lt : ∀ p c, parentIn nodes c = some p → p < c) {a n : Nat} (hn : n < nodes.size) :
    WithinIn (nodes.push node) a n ↔ WithinIn nodes a n := by
  constructor
  · intro h
    induction h with
    | refl => exact .refl
    | @tail b c _ h ih =>
      rw [parentIn_push, if_neg (by omega)] at h
      exact (ih (Nat.lt_trans (lt b c h) hn)).tail h
  · intro h
    induction h with
    | refl => exact .refl
    | @tail b c _ h ih =>
      refine (ih (Nat.lt_trans (lt b c h) hn)).tail ?_
      rw [parentIn_push, if_neg (by omega)]
      exact h

theorem withinIn_push_size {nodes : Array Node} {node : Node}
    (lt : ∀ p c, parentIn nodes c = some p → p < c)
    (hp : ∀ p, node.parent = some p → p < nodes.size) {a : Nat} :
    WithinIn (nodes.push node) a nodes.size ↔
      a = nodes.size ∨ ∃ p, node.parent = some p ∧ WithinIn nodes a p := by
  constructor
  · intro h
    rcases withinIn_cases h with h | ⟨p, hpar, hw⟩
    · exact Or.inl h
    · rw [parentIn_push, if_pos rfl] at hpar
      exact Or.inr ⟨p, hpar, (withinIn_push_of_lt lt (hp p hpar)).mp hw⟩
  · rintro (rfl | ⟨p, hpar, hw⟩)
    · exact .refl
    · refine ((withinIn_push_of_lt lt (hp p hpar)).mpr hw).tail ?_
      rw [parentIn_push, if_pos rfl]
      exact hpar

theorem addDiagnostics_keeps (n : Nat) (diagnostics : List Diagnostic) (t : RuleTree) :
    (diagnostics.foldl (addDiagnostic n) t).nodes = t.nodes ∧
      (diagnostics.foldl (addDiagnostic n) t).dependencies = t.dependencies ∧
      (diagnostics.foldl (addDiagnostic n) t).rules = t.rules := by
  induction diagnostics generalizing t with
  | nil => exact ⟨rfl, rfl, rfl⟩
  | cons d rest ih =>
    obtain ⟨hn, hd, hr⟩ := ih (addDiagnostic n t d)
    have one : (addDiagnostic n t d).nodes = t.nodes ∧
        (addDiagnostic n t d).dependencies = t.dependencies ∧
        (addDiagnostic n t d).rules = t.rules := by
      unfold addDiagnostic
      split <;> exact ⟨rfl, rfl, rfl⟩
    exact ⟨hn.trans one.1, hd.trans one.2.1, hr.trans one.2.2⟩

/-- What a new node is, and what becomes of the rest: an import joins unmarked; a rule enters the
table and marks the imports above it. -/
theorem addNode_cases {resolve : String → AbsPath} {t t' : RuleTree} {parent : Option Nat}
    {label : String} {line : Nat} {kind : LocationKind}
    (h : addNode resolve t parent label line kind = .ok t') :
    t'.dependencies = t.dependencies ∧ ∃ content,
      (kind.isImport = true ∧ (∃ path diagnostics, content = .imported path diagnostics false) ∧
        t'.rules = t.rules ∧ t'.nodes = t.nodes.push ⟨label, line, parent, [], content⟩) ∨
      (kind.isImport = false ∧ ∃ id expression baseTerms, content = .rule id expression baseTerms ∧
        id ∉ t.rules.map Prod.fst ∧ t'.rules = t.rules ++ [(id, t.size)] ∧
        t'.nodes = parent.elim (t.nodes.push ⟨label, line, parent, [], content⟩)
          (markRules (t.nodes.push ⟨label, line, parent, [], content⟩))) := by
  unfold addNode at h
  split at h
  next path diagnostics =>
    cases h
    obtain ⟨hn, hd, hr⟩ := addDiagnostics_keeps t.size diagnostics { t with
      imports := Table.put (resolve (Path.join t.sourceRoot.text (writtenPath label path))) t.size
        t.imports
      nodes := t.nodes.push ⟨label, line, parent, [], .imported
        (resolve (Path.join t.sourceRoot.text (writtenPath label path))) diagnostics false⟩ }
    exact ⟨hd, _, Or.inl ⟨rfl, ⟨_, _, rfl⟩, hr, hn⟩⟩
  next id expression baseTerms =>
    cases hid : Table.get? id t.rules with
    | some m => simp [hid] at h
    | none =>
      simp only [hid, Except.ok.injEq] at h
      subst h
      refine ⟨rfl, _, Or.inr ⟨rfl, id, expression, baseTerms, rfl, Table.get?_eq_none_iff.mp hid,
        Table.put_of_get?_eq_none hid t.size, ?_⟩⟩
      cases parent <;> rfl

/-- A new node has the given place and no children, and all older nodes stay. -/
theorem addNode_node {resolve : String → AbsPath} {t t' : RuleTree} {parent : Option Nat}
    {label : String} {line : Nat} {kind : LocationKind}
    (h : addNode resolve t parent label line kind = .ok t') :
    ∃ node, node.parent = parent ∧ node.children = [] ∧ node.isImport = kind.isImport ∧
      AlikeIn t'.nodes (t.nodes.push node) := by
  obtain ⟨_, content, ⟨hk, ⟨path, diagnostics, rfl⟩, _, hn⟩ |
    ⟨hk, id, expression, baseTerms, rfl, _, _, hn⟩⟩ := addNode_cases h
  · refine ⟨⟨label, line, parent, [], .imported path diagnostics false⟩, rfl, rfl, hk.symm, ?_⟩
    rw [hn]
    exact fun i => rfl
  · refine ⟨⟨label, line, parent, [], .rule id expression baseTerms⟩, rfl, rfl, hk.symm, ?_⟩
    rw [hn]
    cases parent with
    | none => exact fun i => rfl
    | some p => exact markRules_alike _ p

section

variable {t t' : RuleTree} {node : Node}

theorem size_of_push (alike : AlikeIn t'.nodes (t.nodes.push node)) : t'.size = t.size + 1 := by
  simpa [size] using alike.size_eq

theorem plain?_of_push (alike : AlikeIn t'.nodes (t.nodes.push node)) (n : Nat) :
    t'.plain? n = if n = t.size then some node.unmarked else t.plain? n := by
  have h := alike n
  simp only [plain?, node?, h, Array.getElem?_push, size]
  split
  next hn => simp [hn]
  next hn => simp [hn]

theorem parent?_of_push (alike : AlikeIn t'.nodes (t.nodes.push node)) (n : Nat) :
    t'.parent? n = if n = t.size then node.parent else t.parent? n := by
  rw [parent?_eq_plain?, plain?_of_push alike]
  split
  next => simp
  next => rw [parent?_eq_plain?]

theorem isImport_of_push (alike : AlikeIn t'.nodes (t.nodes.push node)) (n : Nat) :
    t'.isImport n = if n = t.size then node.isImport else t.isImport n := by
  rw [isImport_eq_plain?, plain?_of_push alike]
  split
  next => simp
  next => rw [isImport_eq_plain?]

theorem ruleId?_of_push (alike : AlikeIn t'.nodes (t.nodes.push node)) (n : Nat) :
    t'.ruleId? n = if n = t.size then node.ruleId? else t.ruleId? n := by
  rw [ruleId?_eq_plain?, plain?_of_push alike]
  split
  next => simp
  next => rw [ruleId?_eq_plain?]

theorem isRule_of_push_of_lt (alike : AlikeIn t'.nodes (t.nodes.push node)) {n : Nat}
    (hn : n < t.size) : t'.isRule n = true ↔ t.isRule n = true := by
  rw [isRule_iff_ruleId?, isRule_iff_ruleId?, ruleId?_of_push alike, if_neg (by omega)]

theorem within_of_push_of_lt (hs : t.Sound) (alike : AlikeIn t'.nodes (t.nodes.push node))
    {a n : Nat} (hn : n < t.size) : t'.Within a n ↔ t.Within a n := by
  rw [Within, alike.withinIn]
  exact withinIn_push_of_lt hs.parent_lt hn

theorem le_of_within (hs : t.Sound) {a n : Nat} (h : t.Within a n) : a ≤ n :=
  withinIn_le hs.parent_lt h

theorem isImport_of_marked {n : Nat} (h : t.containsRules n = true) : t.isImport n = true := by
  rw [isImport_eq_any]
  obtain ⟨node, hn, hc⟩ := (Option.any_eq_true ..).mp h
  exact (Option.any_eq_true ..).mpr ⟨node, hn, Node.isImport_of_containsRules hc⟩

/-- A marked node has all imports above it marked. -/
theorem marked_above (hs : t.Sound) {a n : Nat} (hm : t.containsRules n = true)
    (hw : t.Within a n) (ha : t.isImport a = true) : t.containsRules a = true := by
  obtain ⟨r, hr, hnr⟩ := (hs.containsRules_iff n (isImport_of_marked hm)).mp hm
  exact (hs.containsRules_iff a ha).mpr ⟨r, hr, hw.trans hnr⟩

theorem containsRules_push_of_lt {n : Nat} (hn : n < t.size) :
    (t.nodes.push node)[n]?.any Node.containsRules = t.containsRules n := by
  rw [Array.getElem?_push, if_neg (by simpa [size] using Nat.ne_of_lt hn)]
  rfl

theorem addNode_marks {resolve : String → AbsPath} {parent : Option Nat} {label : String}
    {line : Nat} {kind : LocationKind} (hs : t.Sound) (hp : ∀ p, parent = some p → p < t.size)
    (h : addNode resolve t parent label line kind = .ok t') {n : Nat} (hn : n < t.size)
    (hi : t.isImport n = true) :
    t'.containsRules n = true ↔ t.containsRules n = true ∨
      kind.isImport = false ∧ ∃ p, parent = some p ∧ t.Within n p := by
  obtain ⟨_, content, ⟨hk, _, _, hnodes⟩ | ⟨hk, id, expression, baseTerms, rfl, _, _, hnodes⟩⟩ :=
    addNode_cases h
  · have : t'.containsRules n = t.containsRules n := by
      rw [containsRules, node?, hnodes, containsRules_push_of_lt hn]
    simp [this, hk]
  · cases parent with
    | none =>
      have : t'.containsRules n = t.containsRules n := by
        rw [containsRules, node?, hnodes, Option.elim_none, containsRules_push_of_lt hn]
      simp [this]
    | some p =>
      have hps := hp p rfl
      let node : Node := ⟨label, line, some p, [], .rule id expression baseTerms⟩
      have lt : ∀ q c, parentIn (t.nodes.push node) c = some q → q < c :=
        parentIn_push_lt hs.parent_lt fun q hq => hp q hq
      have climb := markRules_containsRules (t.nodes.push node) p lt (by
        intro i hip hm a ha hia
        have hi' : i < t.size := by omega
        have hai := (withinIn_push_of_lt hs.parent_lt hi').mp ha
        have has : a < t.size := Nat.lt_of_le_of_lt (le_of_within hs hai) hi'
        rw [containsRules_push_of_lt hi'] at hm
        rw [containsRules_push_of_lt has]
        refine marked_above hs hm hai ?_
        rwa [Array.getElem?_push, if_neg (by simpa [size] using Nat.ne_of_lt has),
          ← node?, ← isImport_eq_any] at hia) n
      have hmark : t'.containsRules n = (markRules (t.nodes.push node) p)[n]?.any Node.containsRules := by
        rw [containsRules, node?, hnodes]
        rfl
      have himp : (t.nodes.push node)[n]?.any Node.isImport = true := by
        rwa [Array.getElem?_push, if_neg (by simpa [size] using Nat.ne_of_lt hn), ← node?,
          ← isImport_eq_any]
      rw [hmark, climb, containsRules_push_of_lt hn, withinIn_push_of_lt hs.parent_lt hps]
      simp [himp, hk, Within]

section

variable {resolve : String → AbsPath} {parent : Option Nat} {label : String} {line : Nat}
  {kind : LocationKind}

theorem addNode_containsRules_iff (hs : t.Sound) (hp : ∀ p, parent = some p → p < t.size)
    (h : addNode resolve t parent label line kind = .ok t') {n : Nat} (hn : t'.isImport n = true) :
    t'.containsRules n = true ↔ ∃ r, t'.isRule r = true ∧ t'.Within n r := by
  obtain ⟨node, hpar, _, hkind, alike⟩ := addNode_node h
  have hpn : ∀ p, node.parent = some p → p < t.size := by rw [hpar]; exact hp
  have hsize := size_of_push alike
  have hnlt : n < t'.size := lt_size_of_isImport hn
  rcases Nat.lt_or_ge n t.size with hlt | hge
  · have hi : t.isImport n = true := by rwa [isImport_of_push alike, if_neg (by omega)] at hn
    rw [addNode_marks hs hp h hlt hi, hs.containsRules_iff n hi]
    constructor
    · rintro (⟨r, hr, hw⟩ | ⟨hk, p, hpp, hw⟩)
      · have hrs := lt_size_of_isRule hr
        exact ⟨r, (isRule_of_push_of_lt alike hrs).mpr hr, (within_of_push_of_lt hs alike hrs).mpr hw⟩
      · refine ⟨t.size, isRule_of_not_isImport (by omega) ?_, ?_⟩
        · rw [isImport_of_push alike, if_pos rfl, hkind, hk]
        · rw [Within, alike.withinIn]
          exact (withinIn_push_size hs.parent_lt hpn).mpr (Or.inr ⟨p, hpar.trans hpp, hw⟩)
    · rintro ⟨r, hr, hw⟩
      have hrs := lt_size_of_isRule hr
      rcases Nat.lt_or_ge r t.size with hrlt | hrge
      · exact Or.inl ⟨r, (isRule_of_push_of_lt alike hrlt).mp hr,
          (within_of_push_of_lt hs alike hrlt).mp hw⟩
      · obtain rfl : r = t.size := by omega
        have hk := isImport_eq_false_of_isRule hr
        rw [isImport_of_push alike, if_pos rfl, hkind] at hk
        rw [Within, alike.withinIn] at hw
        rcases (withinIn_push_size hs.parent_lt hpn).mp hw with he | ⟨p, hpp, hw⟩
        · exact absurd he (Nat.ne_of_lt hlt)
        · exact Or.inr ⟨hk, p, hpar.symm.trans hpp, hw⟩
  · -- The new node has nothing below it and no mark.
    obtain rfl : n = t.size := by omega
    have hk : kind.isImport = true := by rwa [isImport_of_push alike, if_pos rfl, hkind] at hn
    constructor
    · intro hm
      obtain ⟨_, content, ⟨_, ⟨path, diagnostics, rfl⟩, _, hnodes⟩ | ⟨hk', _⟩⟩ := addNode_cases h
      · simp [containsRules, node?, hnodes, size, Node.containsRules] at hm
      · simp [hk] at hk'
    · rintro ⟨r, hr, hw⟩
      have hrs := lt_size_of_isRule hr
      rw [Within, alike.withinIn] at hw
      have := withinIn_le (parentIn_push_lt hs.parent_lt hpn) hw
      obtain rfl : r = t.size := by omega
      simp [isImport_eq_false_of_isRule hr] at hn

theorem addNode_mem_rules_iff (hs : t.Sound)
    (h : addNode resolve t parent label line kind = .ok t') (id : RuleId) (n : Nat) :
    (id, n) ∈ t'.rules ↔ t'.ruleId? n = some id := by
  have beyond : t.ruleId? t.size = none := by simp [ruleId?, node?, size]
  obtain ⟨node, _, _, hkind, alike⟩ := addNode_node h
  obtain ⟨_, content, ⟨hk, _, hr, _⟩ | ⟨hk, id', expression, baseTerms, rfl, hid, hr, hnodes⟩⟩ :=
    addNode_cases h
  · rw [hr, hs.mem_rules_iff, ruleId?_of_push alike]
    split
    next hn =>
      have isRule : node.isRule = false := by simp [Node.isRule, hkind, hk]
      have hnone : node.ruleId? = none := by
        simpa [isRule] using Node.isRule_iff_ruleId? (n := node)
      rw [hn, beyond, hnone]
    next => rfl
  · have alike : AlikeIn t'.nodes
        (t.nodes.push ⟨label, line, parent, [], .rule id' expression baseTerms⟩) := by
      rw [hnodes]
      cases parent with
      | none => exact fun i => rfl
      | some p => exact markRules_alike _ p
    rw [hr, List.mem_append, hs.mem_rules_iff, ruleId?_of_push alike]
    split
    next hn => simp [hn, beyond, Node.ruleId?, eq_comm]
    next hn => simp [hn]

theorem addNode_sound (hs : t.Sound) (hp : ∀ p, parent = some p → p < t.size)
    (h : addNode resolve t parent label line kind = .ok t') : t'.Sound := by
  obtain ⟨node, hpar, _, hkind, alike⟩ := addNode_node h
  have hsize := size_of_push alike
  refine ⟨?_, fun n hn => addNode_containsRules_iff hs hp h hn, addNode_mem_rules_iff hs h, ?_, ?_⟩
  · rw [show t'.parent? = parentIn (t.nodes.push node) from alike.parentIn]
    exact parentIn_push_lt hs.parent_lt (by rw [hpar]; exact hp)
  · obtain ⟨_, content, ⟨_, _, hr, _⟩ | ⟨_, id', _, _, _, hid, hr, _⟩⟩ := addNode_cases h
    · rw [hr]
      exact hs.rules_nodup
    · rw [hr, List.map_append, List.nodup_append]
      refine ⟨hs.rules_nodup, by simp, ?_⟩
      intro a ha b hb hab
      obtain rfl : b = id' := by simpa using hb
      exact hid (hab ▸ ha)
  · rw [(addNode_cases h).1]
    intro d hd
    have := hs.dependency_lt d hd
    omega

end

end

end RuleTree

end RuleScope
