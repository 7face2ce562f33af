import RuleScope.Proofs.RuleTree.Numbering

namespace RuleScope

namespace Table

variable {β : Type} {n : Nat} {values : List β} {t : List (Nat × List β)}

theorem get?_foldl_append (m : Nat) :
    get? m (values.foldl (fun t b => append n b t) t) =
      if m = n ∧ values ≠ [] then some ((get? n t).getD [] ++ values) else get? m t := by
  induction values generalizing t with
  | nil => simp
  | cons b rest ih =>
    rw [List.foldl_cons, ih, append, get?_put_self, Option.getD_some]
    by_cases hm : m = n
    · subst hm
      by_cases hrest : rest = []
      · simp [hrest, get?_put_self]
      · simp [hrest]
    · simp [hm, get?_put_of_ne hm]

theorem keys_foldl_append_of_mem (h : n ∈ t.map Prod.fst) :
    (values.foldl (fun t b => append n b t) t).map Prod.fst = t.map Prod.fst := by
  induction values generalizing t with
  | nil => rfl
  | cons b rest ih =>
    have hkeys : (append n b t).map Prod.fst = t.map Prod.fst := by rw [append, keys_put, if_pos h]
    rw [List.foldl_cons, ih (by rwa [hkeys]), hkeys]

theorem keys_foldl_append (h : n ∉ t.map Prod.fst) :
    (values.foldl (fun t b => append n b t) t).map Prod.fst =
      if values = [] then t.map Prod.fst else t.map Prod.fst ++ [n] := by
  cases values with
  | nil => rfl
  | cons b rest =>
    have hkeys : (append n b t).map Prod.fst = t.map Prod.fst ++ [n] := by
      rw [append, keys_put, if_neg h]
    rw [List.foldl_cons, keys_foldl_append_of_mem (by simp [hkeys]), hkeys,
      if_neg (List.cons_ne_nil b rest)]

end Table

namespace Node

/-- The diagnostics of an import; a rule has none. -/
def diagnostics (n : Node) : List Diagnostic :=
  match n.content with
  | .imported _ diagnostics _ => diagnostics
  | .rule _ _ _ => []

@[simp] theorem unmarked_path? (n : Node) : n.unmarked.path? = n.path? := by
  unfold unmarked
  split
  next h => simp [path?, h]
  next => rfl

@[simp] theorem unmarked_diagnostics (n : Node) : n.unmarked.diagnostics = n.diagnostics := by
  unfold unmarked
  split
  next h => simp [diagnostics, h]
  next => rfl

end Node

namespace RuleTree

def path? (t : RuleTree) (n : Nat) : Option AbsPath := (t.node? n).bind Node.path?

def diagnostics (t : RuleTree) (n : Nat) : List Diagnostic :=
  ((t.node? n).map Node.diagnostics).getD []

/-- The table of the diagnostics of one kind. -/
def registered (t : RuleTree) : DiagnosticKind → List (Nat × List Diagnostic)
  | .error => t.errors
  | .warning => t.warnings
  | .parseFailure => t.failures

/-- The diagnostics of one kind, in their order. -/
def ofKind (kind : DiagnosticKind) (diagnostics : List Diagnostic) : List Diagnostic :=
  diagnostics.filter fun d => d.kind = kind

/-- The tables agree with the nodes. -/
structure Indexed (t : RuleTree) : Prop where
  importAt?_iff : ∀ place n, t.importAt? place = some n ↔
    t.path? n = some place ∧ ∀ m, n < m → t.path? m ≠ some place
  registered_iff : ∀ kind n ds, Table.get? n (t.registered kind) = some ds ↔
    ds ≠ [] ∧ ofKind kind (t.diagnostics n) = ds
  registered_sorted : ∀ kind, ((t.registered kind).map Prod.fst).Pairwise (· < ·)

section

variable {t t' : RuleTree} {node : Node}

theorem path?_eq_plain? (t : RuleTree) (n : Nat) : t.path? n = (t.plain? n).bind Node.path? := by
  unfold path? plain?
  cases t.node? n <;> simp

theorem diagnostics_eq_plain? (t : RuleTree) (n : Nat) :
    t.diagnostics n = ((t.plain? n).map Node.diagnostics).getD [] := by
  unfold diagnostics plain?
  cases t.node? n <;> simp

theorem path?_of_push (alike : AlikeIn t'.nodes (t.nodes.push node)) (n : Nat) :
    t'.path? n = if n = t.size then node.path? else t.path? n := by
  rw [path?_eq_plain?, plain?_of_push alike]
  split
  next => simp
  next => rw [path?_eq_plain?]

theorem diagnostics_of_push (alike : AlikeIn t'.nodes (t.nodes.push node)) (n : Nat) :
    t'.diagnostics n = if n = t.size then node.diagnostics else t.diagnostics n := by
  rw [diagnostics_eq_plain?, plain?_of_push alike]
  split
  next => simp
  next => rw [diagnostics_eq_plain?]

theorem node?_eq_none_of_le {n : Nat} (h : t.size ≤ n) : t.node? n = none :=
  Array.getElem?_eq_none_iff.mpr h

theorem path?_eq_none_of_le {n : Nat} (h : t.size ≤ n) : t.path? n = none := by
  rw [path?, node?_eq_none_of_le h, Option.bind_none]

theorem diagnostics_eq_nil_of_le {n : Nat} (h : t.size ≤ n) : t.diagnostics n = [] := by
  rw [diagnostics, node?_eq_none_of_le h, Option.map_none, Option.getD_none]

theorem addDiagnostic_registered (n : Nat) (d : Diagnostic) (kind : DiagnosticKind) :
    (addDiagnostic n t d).registered kind =
      if d.kind = kind then Table.append n d (t.registered kind) else t.registered kind := by
  cases hd : d.kind <;> cases kind <;> simp [addDiagnostic, registered, hd]

/-- Each diagnostic goes into the table of its kind. -/
theorem addDiagnostics_registered (n : Nat) (diagnostics : List Diagnostic) (kind : DiagnosticKind) :
    (diagnostics.foldl (addDiagnostic n) t).registered kind =
      (ofKind kind diagnostics).foldl (fun table d => Table.append n d table) (t.registered kind) := by
  induction diagnostics generalizing t with
  | nil => rfl
  | cons d rest ih =>
    rw [List.foldl_cons, ih, addDiagnostic_registered, ofKind, ofKind, List.filter_cons]
    by_cases hd : d.kind = kind <;> simp [hd]

theorem addDiagnostics_imports (n : Nat) (diagnostics : List Diagnostic) :
    (diagnostics.foldl (addDiagnostic n) t).imports = t.imports := by
  induction diagnostics generalizing t with
  | nil => rfl
  | cons d rest ih =>
    rw [List.foldl_cons, ih]
    unfold addDiagnostic
    split <;> rfl

/-- A new node enters its place and its diagnostics, if it has any, under its own number. -/
theorem addNode_tables {resolve : String → AbsPath} {parent : Option Nat} {label : String}
    {line : Nat} {kind : LocationKind} (h : addNode resolve t parent label line kind = .ok t') :
    ∃ node, AlikeIn t'.nodes (t.nodes.push node) ∧
      t'.imports = node.path?.elim t.imports (fun place => Table.put place t.size t.imports) ∧
      ∀ kind, t'.registered kind = (ofKind kind node.diagnostics).foldl
        (fun table d => Table.append t.size d table) (t.registered kind) := by
  refine ⟨_, (addNode_stands h).2, ?_⟩
  cases kind with
  | imported path diagnostics =>
    cases h
    refine ⟨addDiagnostics_imports _ _, fun kind => ?_⟩
    have hregistered := addDiagnostics_registered (t := { t with
      imports := Table.put (placeUnder resolve t.sourceRoot (writtenPath label path)) t.size t.imports
      nodes := t.nodes.push ⟨label, line, parent, [], .imported
        (placeUnder resolve t.sourceRoot (writtenPath label path)) diagnostics false⟩ }) t.size
      diagnostics kind
    cases kind <;> exact hregistered
  | rule id expression baseTerms =>
    cases hid : Table.get? id t.rules with
    | some n => simp [addNode, hid] at h
    | none =>
      simp only [addNode, hid, Except.ok.injEq] at h
      subst h
      exact ⟨rfl, fun kind => by cases kind <;> rfl⟩

namespace Indexed

theorem registered_eq_none (ht : t.Indexed) {n : Nat} (hn : t.size ≤ n) (kind : DiagnosticKind) :
    Table.get? n (t.registered kind) = none := by
  rw [Option.eq_none_iff_forall_ne_some]
  intro ds h
  obtain ⟨hds, he⟩ := (ht.registered_iff kind n ds).mp h
  rw [diagnostics_eq_nil_of_le hn] at he
  exact hds he.symm

theorem importAt?_push (himports : t'.imports =
      node.path?.elim t.imports (fun place => Table.put place t.size t.imports)) (place : AbsPath) :
    t'.importAt? place = if node.path? = some place then some t.size else t.importAt? place := by
  rw [importAt?, himports]
  cases hp : node.path? with
  | none => rfl
  | some other =>
    rw [Option.elim_some]
    by_cases he : other = place
    · rw [he, if_pos rfl, Table.get?_put_self]
    · rw [if_neg (mt Option.some.inj he)]
      exact Table.get?_put_of_ne (Ne.symm he) _ _

/-- A new import is the last with its place; a node with another place changes nothing. -/
theorem push_importAt?_iff (ht : t.Indexed) (alike : AlikeIn t'.nodes (t.nodes.push node))
    (himports : t'.imports =
      node.path?.elim t.imports (fun place => Table.put place t.size t.imports))
    (place : AbsPath) (n : Nat) : t'.importAt? place = some n ↔
      t'.path? n = some place ∧ ∀ m, n < m → t'.path? m ≠ some place := by
  rw [importAt?_push himports]
  by_cases hnode : node.path? = some place
  · rw [if_pos hnode, Option.some.injEq, path?_of_push alike]
    constructor
    · rintro rfl
      refine ⟨by rw [if_pos rfl, hnode], fun m hm => ?_⟩
      rw [path?_of_push alike, if_neg (by omega), path?_eq_none_of_le (by omega)]
      simp
    · rintro ⟨hpath, hlast⟩
      rcases Nat.lt_trichotomy n t.size with hlt | rfl | hgt
      · refine absurd ?_ (hlast t.size hlt)
        rw [path?_of_push alike, if_pos rfl, hnode]
      · rfl
      · rw [if_neg (by omega), path?_eq_none_of_le (by omega)] at hpath
        cases hpath
  · have hpath : ∀ m, t'.path? m = some place ↔ t.path? m = some place := fun m => by
      rw [path?_of_push alike]
      split
      next hm => simp [hnode, hm, path?_eq_none_of_le (Nat.le_refl t.size)]
      next => rfl
    rw [if_neg hnode, ht.importAt?_iff]
    simp only [ne_eq, hpath]

theorem push_registered_iff (ht : t.Indexed) (alike : AlikeIn t'.nodes (t.nodes.push node))
    {kind : DiagnosticKind} (hregistered : t'.registered kind = (ofKind kind node.diagnostics).foldl
      (fun table d => Table.append t.size d table) (t.registered kind))
    (n : Nat) (ds : List Diagnostic) : Table.get? n (t'.registered kind) = some ds ↔
      ds ≠ [] ∧ ofKind kind (t'.diagnostics n) = ds := by
  rw [hregistered, Table.get?_foldl_append, diagnostics_of_push alike]
  by_cases hn : n = t.size
  · subst hn
    rw [ht.registered_eq_none (Nat.le_refl _), Option.getD_none, List.nil_append, if_pos rfl]
    by_cases hds : ofKind kind node.diagnostics = []
    · simp only [hds]
      simp
    · simp only [ne_eq, hds, not_false_eq_true, and_self, if_true, Option.some.injEq]
      constructor
      · rintro rfl
        exact ⟨hds, rfl⟩
      · exact fun h => h.2
  · simp only [hn, false_and, if_false]
    exact ht.registered_iff kind n ds

theorem push_registered_sorted (ht : t.Indexed) {kind : DiagnosticKind}
    (hregistered : t'.registered kind = (ofKind kind node.diagnostics).foldl
      (fun table d => Table.append t.size d table) (t.registered kind)) :
    ((t'.registered kind).map Prod.fst).Pairwise (· < ·) := by
  have hkeys : t.size ∉ (t.registered kind).map Prod.fst :=
    Table.get?_eq_none_iff.mp (ht.registered_eq_none (Nat.le_refl _) kind)
  rw [hregistered, Table.keys_foldl_append hkeys]
  split
  next => exact ht.registered_sorted kind
  next =>
    refine List.pairwise_append.mpr ⟨ht.registered_sorted kind, List.pairwise_singleton _ _, ?_⟩
    intro n hn m hm
    rw [List.mem_singleton.mp hm]
    by_contra hlt
    exact Table.get?_eq_none_iff.mp (ht.registered_eq_none (by omega) kind) hn

theorem push (ht : t.Indexed) (alike : AlikeIn t'.nodes (t.nodes.push node))
    (himports : t'.imports =
      node.path?.elim t.imports (fun place => Table.put place t.size t.imports))
    (hregistered : ∀ kind, t'.registered kind = (ofKind kind node.diagnostics).foldl
      (fun table d => Table.append t.size d table) (t.registered kind)) : t'.Indexed where
  importAt?_iff := ht.push_importAt?_iff alike himports
  registered_iff kind := ht.push_registered_iff alike (hregistered kind)
  registered_sorted kind := ht.push_registered_sorted (hregistered kind)

/-- Trees with the same tables whose nodes have the same places and diagnostics. -/
theorem congr (ht : t.Indexed) (hpath : t'.path? = t.path?)
    (hdiagnostics : t'.diagnostics = t.diagnostics) (himports : t'.imports = t.imports)
    (hregistered : t'.registered = t.registered) : t'.Indexed where
  importAt?_iff place n := by
    rw [importAt?, himports, hpath]
    exact ht.importAt?_iff place n
  registered_iff kind n ds := by
    rw [hregistered, hdiagnostics]
    exact ht.registered_iff kind n ds
  registered_sorted kind := by
    rw [hregistered]
    exact ht.registered_sorted kind

end Indexed

theorem complete_tables (t : RuleTree) (parent : Option Nat) (n : Nat) (ids : List Nat) :
    (t.complete parent n ids).imports = t.imports ∧ (t.complete parent n ids).registered = t.registered := by
  unfold complete addDependency
  cases parent with
  | none => exact ⟨rfl, funext fun kind => by cases kind <;> rfl⟩
  | some p =>
    dsimp only
    split <;> exact ⟨rfl, funext fun kind => by cases kind <;> rfl⟩

theorem complete_indexed (ht : t.Indexed) (parent : Option Nat) (n : Nat) (ids : List Nat) :
    (t.complete parent n ids).Indexed := by
  have hnode : ∀ k, (t.complete parent n ids).plain? k =
      (t.plain? k).map fun node => if k = n then { node with children := ids } else node := by
    intro k
    by_cases hk : k = n
    · subst hk
      rw [complete_plain?_self]
      simp
    · rw [complete_plain? _ _ _ _ hk]
      simp [hk]
  obtain ⟨himports, hregistered⟩ := complete_tables t parent n ids
  refine ht.congr (funext fun k => ?_) (funext fun k => ?_) himports hregistered
  · rw [path?_eq_plain?, path?_eq_plain?, hnode, Option.bind_map]
    congr 1
    funext node
    rw [Function.comp_apply]
    split <;> rfl
  · rw [diagnostics_eq_plain?, diagnostics_eq_plain?, hnode, Option.map_map]
    congr 2
    funext node
    rw [Function.comp_apply]
    split <;> rfl

end

section

variable {resolve : String → AbsPath}

mutual

theorem add_indexed (parent : Option Nat) (l : Location) {t t' : RuleTree} (ht : t.Indexed)
    (h : add resolve parent l t = .ok t') : t'.Indexed := by
  obtain ⟨label, line, kind, children⟩ := l
  simp only [add, bind, Except.bind, pure, Except.pure] at h
  split at h
  next => cases h
  next t₁ h₁ =>
    split at h
    next => cases h
    next r h₂ =>
      cases h
      obtain ⟨node, alike, himports, hregistered⟩ := addNode_tables h₁
      have hbelow := addAll_indexed t.size children (ht.push alike himports hregistered) h₂
      exact complete_indexed hbelow parent t.size r.2

theorem addAll_indexed (n : Nat) (ls : List Location) {t t' : RuleTree} {ids : List Nat}
    (ht : t.Indexed) (h : addAll resolve n ls t = .ok (t', ids)) : t'.Indexed := by
  cases ls with
  | nil =>
    cases h
    exact ht
  | cons l rest =>
    simp only [addAll, bind, Except.bind, pure, Except.pure] at h
    split at h
    next => cases h
    next t₁ h₁ =>
      split at h
      next => cases h
      next r h₂ =>
        cases h
        exact addAll_indexed n rest (add_indexed (some n) l ht h₁) h₂

end

theorem bare_indexed (sourceRoot : AbsPath) : (bare sourceRoot).Indexed where
  importAt?_iff place n := by simp [importAt?, bare, Table.get?, path?, node?]
  registered_iff kind n ds := by
    have hnone : (bare sourceRoot).registered kind = [] := by cases kind <;> rfl
    have hds : (bare sourceRoot).diagnostics n = [] := diagnostics_eq_nil_of_le (Nat.zero_le n)
    rw [hnone, hds, Table.get?, ofKind, List.filter_nil]
    simp [eq_comm]
  registered_sorted kind := by
    have hnone : (bare sourceRoot).registered kind = [] := by cases kind <;> rfl
    rw [hnone]
    exact .nil

theorem build_indexed {sourceRoot : String} {l : Location} {t : RuleTree}
    (h : build resolve sourceRoot l = .ok t) : t.Indexed := by
  unfold build at h
  split at h
  next => exact add_indexed none l (bare_indexed _) h
  next => cases h

end

end RuleTree

end RuleScope
