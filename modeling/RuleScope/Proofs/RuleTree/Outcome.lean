import RuleScope.Proofs.Location.WrongTypes
import RuleScope.Proofs.RuleModel.Runs
import RuleScope.Proofs.RuleTree.PreOrder

namespace RuleScope

open Yaml

namespace Location

/-- A diagnostic of this kind stands at an import of the location. -/
def Carries (l : Location) (kind : DiagnosticKind) : Prop :=
  ∃ m path diagnostics d, Holds l m ∧ m.kind = .imported path diagnostics ∧ d ∈ diagnostics ∧
    d.kind = kind

/-- The outcome for the worst kind of diagnostic. -/
def Deserves (l : Location) : CompileOutcome → Prop
  | .failed => l.Carries .parseFailure
  | .withErrors => ¬ l.Carries .parseFailure ∧ l.Carries .error
  | .withWarnings => ¬ l.Carries .parseFailure ∧ ¬ l.Carries .error ∧ l.Carries .warning
  | .perfect => ∀ kind, ¬ l.Carries kind
  | .unknown => False

theorem carries_iff {l : Location} {kind : DiagnosticKind} :
    l.Carries kind ↔ ∃ m ∈ l.preOrder, ∃ d ∈ m.diagnostics, d.kind = kind := by
  constructor
  · rintro ⟨m, path, diagnostics, d, hm, hkind, hd, rfl⟩
    refine ⟨m, mem_preOrder_iff.mpr hm, d, ?_, rfl⟩
    rwa [Location.diagnostics, hkind]
  · rintro ⟨m, hm, d, hd, rfl⟩
    cases hkind : m.kind with
    | imported path diagnostics =>
      rw [Location.diagnostics, hkind] at hd
      exact ⟨m, path, diagnostics, d, mem_preOrder_iff.mp hm, hkind, hd, rfl⟩
    | rule id expression baseTerms =>
      rw [Location.diagnostics, hkind] at hd
      cases hd

theorem Kept.holds {v w : Value} {l m : Location} (h : Kept v l w m) : Holds l m := by
  induction h with
  | self v l => exact .self l
  | child _ _ hc _ ih => exact .child hc ih

theorem Reported.carries {v w : Value} {l : Location} (h : Reported v l w) :
    l.Carries .parseFailure := by
  cases h with
  | ofField kept hkind hd => exact ⟨_, _, _, _, kept.holds, hkind, hd, rfl⟩
  | ofItem kept hkind hd => exact ⟨_, _, _, _, kept.holds, hkind, hd, rfl⟩
  | ofEntry kept _ _ _ hkind hd => exact ⟨_, _, _, _, kept.holds, hkind, hd, rfl⟩

end Location

namespace RuleTree

variable {t : RuleTree} {place : String → AbsPath} {l : Location}

theorem Indexed.registered_eq_nil_iff (h : t.Indexed) (kind : DiagnosticKind) :
    t.registered kind = [] ↔ ∀ n, ∀ d ∈ t.diagnostics n, d.kind ≠ kind := by
  have hnone : ∀ n, Table.get? n (t.registered kind) = none ↔ ofKind kind (t.diagnostics n) = [] := by
    intro n
    rw [Option.eq_none_iff_forall_ne_some]
    constructor
    · intro hn
      by_contra hds
      exact hn _ ((h.registered_iff kind n _).mpr ⟨hds, rfl⟩)
    · intro hds ds hn
      obtain ⟨hne, he⟩ := (h.registered_iff kind n ds).mp hn
      exact hne (he.symm.trans hds)
  have hkinds : ∀ n, ofKind kind (t.diagnostics n) = [] ↔ ∀ d ∈ t.diagnostics n, d.kind ≠ kind := by
    intro n
    rw [ofKind, List.filter_eq_nil_iff]
    simp
  simp only [← hkinds, ← hnone]
  constructor
  · intro hnil n
    rw [hnil, Table.get?]
  · intro hall
    cases htable : t.registered kind with
    | nil => rfl
    | cons e rest =>
      have := hall e.1
      simp [htable, Table.get?] at this

theorem Represents.carries_iff (h : t.Represents place l) (kind : DiagnosticKind) :
    l.Carries kind ↔ ∃ n, ∃ d ∈ t.diagnostics n, d.kind = kind := by
  rw [Location.carries_iff]
  constructor
  · rintro ⟨m, hm, d, hd, hk⟩
    obtain ⟨n, hn⟩ := List.mem_iff_getElem?.mp hm
    refine ⟨n, d, ?_, hk⟩
    rwa [h.diagnostics_eq, hn, Option.map_some, Option.getD_some]
  · rintro ⟨n, d, hd, hk⟩
    rw [h.diagnostics_eq] at hd
    cases hn : l.preOrder[n]? with
    | none => simp [hn] at hd
    | some m =>
      rw [hn, Option.map_some, Option.getD_some] at hd
      exact ⟨m, List.mem_of_getElem? hn, d, hd, hk⟩

theorem Represents.registered_eq_nil_iff (h : t.Represents place l) (hi : t.Indexed)
    (kind : DiagnosticKind) : t.registered kind = [] ↔ ¬ l.Carries kind := by
  rw [hi.registered_eq_nil_iff, h.carries_iff]
  simp

theorem Represents.outcome_eq_iff (h : t.Represents place l) (hi : t.Indexed) (o : CompileOutcome) :
    t.outcome = o ↔ l.Deserves o := by
  have hfailures : t.failures = [] ↔ ¬ l.Carries .parseFailure :=
    h.registered_eq_nil_iff hi .parseFailure
  have herrors : t.errors = [] ↔ ¬ l.Carries .error := h.registered_eq_nil_iff hi .error
  have hwarnings : t.warnings = [] ↔ ¬ l.Carries .warning := h.registered_eq_nil_iff hi .warning
  have hperfect : (∀ kind, ¬ l.Carries kind) ↔
      ¬ l.Carries .parseFailure ∧ ¬ l.Carries .error ∧ ¬ l.Carries .warning :=
    ⟨fun hall => ⟨hall _, hall _, hall _⟩, fun ⟨hf, he, hw⟩ kind => by cases kind <;> assumption⟩
  have hdeserves : l.Deserves o ↔ match o with
      | .failed => t.failures ≠ []
      | .withErrors => t.failures = [] ∧ t.errors ≠ []
      | .withWarnings => t.failures = [] ∧ t.errors = [] ∧ t.warnings ≠ []
      | .perfect => t.failures = [] ∧ t.errors = [] ∧ t.warnings = []
      | .unknown => False := by
    cases o <;> simp [Location.Deserves, hfailures, herrors, hwarnings, hperfect]
  rw [hdeserves]
  cases hf : t.failures <;> cases he : t.errors <;> cases hw : t.warnings <;> cases o <;>
    simp [outcome, hf, he, hw]

/-- What a table has under a number are the diagnostics of its kind of the import with that number. -/
theorem Indexed.registered_iff_imported (h : t.Indexed) (kind : DiagnosticKind) (n : Nat)
    (ds : List Diagnostic) : Table.get? n (t.registered kind) = some ds ↔
      ∃ node path all marked, t.node? n = some node ∧ node.content = .imported path all marked ∧
        ofKind kind all = ds ∧ ds ≠ [] := by
  refine (h.registered_iff kind n ds).trans ?_
  constructor
  · rintro ⟨hne, he⟩
    have hall : t.diagnostics n ≠ [] := by
      rintro hnil
      rw [hnil] at he
      exact hne he.symm
    cases hnode : t.node? n with
    | none => simp [diagnostics, hnode] at hall
    | some node =>
      rw [diagnostics, hnode, Option.map_some, Option.getD_some] at he hall
      cases hcontent : node.content with
      | imported path all marked =>
        rw [Node.diagnostics, hcontent] at he
        exact ⟨node, path, all, marked, rfl, hcontent, he, hne⟩
      | rule id expression baseTerms =>
        rw [Node.diagnostics, hcontent] at hall
        exact absurd rfl hall
  · rintro ⟨node, path, all, marked, hnode, hcontent, he, hne⟩
    refine ⟨hne, ?_⟩
    rwa [diagnostics, hnode, Option.map_some, Option.getD_some, Node.diagnostics, hcontent]

/-- The table of a kind has the imports with diagnostics of that kind, each with its own, in their order;
the outcome is that of the worst kind; and a file from which an entry is left out has failed, but for
entries that a rule does without. -/
theorem build_routes_diagnostics {resolve : String → AbsPath} {sourceRoot : String} {m : RuleModel}
    (h : RuleModel.build resolve sourceRoot l = .ok m) :
    (∀ n, (m.tree.node? n).map Node.diagnostics = l.preOrder[n]?.map Location.diagnostics) ∧
    (∀ kind, ((m.tree.registered kind).map Prod.fst).Pairwise (· < ·) ∧
      ∀ n ds, Table.get? n (m.tree.registered kind) = some ds ↔ ∃ node path all marked,
        m.tree.node? n = some node ∧ node.content = .imported path all marked ∧
        ofKind kind all = ds ∧ ds ≠ []) ∧
    (∀ o, m.tree.outcome = o ↔ l.Deserves o) ∧
    ∀ text v w, Location.ofText text = .ok l → Value.ofText? text = some v → Location.Lists v w →
      (∃ c, Location.Kept v l w c) ∨ m.tree.outcome = .failed ∨ Location.Overlooked v l w := by
  obtain ⟨t, ht, rfl⟩ := RuleModel.build_eq_ofTree h
  have represents := build_represents ht
  have indexed := build_indexed ht
  have houtcome := represents.outcome_eq_iff indexed
  refine ⟨represents.node?_map (Location.keeps_diagnostics _), fun kind =>
    ⟨indexed.registered_sorted kind, indexed.registered_iff_imported kind⟩, houtcome,
    fun text v w htext hv hw => ?_⟩
  have hconvert : Location.convert v = .ok l := by
    rw [Location.ofText, hv] at htext
    exact Location.convert_of_ofValue htext
  rcases Location.kept_reported_or_overlooked hconvert hw with hkept | hreported | hoverlooked
  · exact .inl hkept
  · exact .inr (.inl ((houtcome .failed).mpr hreported.carries))
  · exact .inr (.inr hoverlooked)

/-- An import with errors and a warning, below one with a warning. -/
def faultyLocation : Location :=
  ⟨"rules", 1, .imported none [⟨.warning, "unused import", 1, 0⟩], [
    ⟨"rate", 2, .rule ⟨31, by decide, by decide⟩ "rate > 0" [], []⟩,
    ⟨"taxes", 3, .imported none
      [⟨.error, "unknown term", 3, 1⟩, ⟨.warning, "unused term", 3, 5⟩, ⟨.error, "no value", 4, 1⟩], []⟩]⟩

theorem build_faulty_routes_diagnostics : ∃ m : RuleModel,
    RuleModel.build (AbsPath.lexical AbsPath.root) "/src" faultyLocation = .ok m ∧
      Table.get? 2 m.tree.errors = some [⟨.error, "unknown term", 3, 1⟩, ⟨.error, "no value", 4, 1⟩] ∧
      Table.get? 1 m.tree.warnings = none ∧ m.tree.outcome = .withErrors := by
  have facts : ((RuleModel.build (AbsPath.lexical AbsPath.root) "/src" faultyLocation).toOption.bind
      fun m => (m.tree.node? 1).bind fun rate => (m.tree.node? 2).map fun taxes =>
        decide (rate.isImport = false ∧ taxes.path?.isSome)) = some true := by
    decide +kernel
  obtain ⟨m, hm, facts⟩ := Option.bind_eq_some_iff.mp facts
  obtain ⟨rate, hrate, facts⟩ := Option.bind_eq_some_iff.mp facts
  obtain ⟨taxes, htaxes, facts⟩ := Option.map_eq_some_iff.mp facts
  obtain ⟨hrule, himport⟩ := of_decide_eq_true facts
  have hbuild := eq_ok_of_toOption hm
  obtain ⟨hnodes, htables, houtcome, -⟩ := build_routes_diagnostics hbuild
  refine ⟨m, hbuild, ?_, ?_, (houtcome .withErrors).mpr ⟨?_, ?_⟩⟩
  · have hdiagnostics := hnodes 2
    rw [htaxes] at hdiagnostics
    cases hcontent : taxes.content with
    | rule id expression baseTerms => simp [Node.path?, hcontent] at himport
    | imported path all marked =>
      rw [Option.map_some, Node.diagnostics, hcontent] at hdiagnostics
      refine ((htables .error).2 2 _).mpr ⟨taxes, path, all, marked, htaxes, hcontent, ?_, by simp⟩
      obtain rfl := Option.some.inj hdiagnostics
      rfl
  · rw [Option.eq_none_iff_forall_ne_some]
    intro ds hds
    obtain ⟨node, path, all, marked, hnode, hcontent, -⟩ := ((htables .warning).2 1 ds).mp hds
    obtain rfl := Option.some.inj (hrate.symm.trans hnode)
    simp [Node.isImport, hcontent] at hrule
  · rw [Location.carries_iff]
    decide
  · rw [Location.carries_iff]
    decide

/-- A rule with a tag on the list of its children. -/
def taggedText : String :=
  "label: main\nchildren:\n  - label: rate\n    id: 1\n    children: !some [ \x7b label: fee, id: 2 \x7d ]\n"

/-- The rule in the list is left out, and the file is perfect. -/
theorem not_left_out_entries_fail : ¬ ∀ (text : String) (v w : Value) (l : Location) (m : RuleModel),
    Value.ofText? text = some v → Location.ofText text = .ok l →
      RuleModel.build (AbsPath.lexical AbsPath.root) "/src" l = .ok m → Location.Lists v w →
      (¬ ∃ c, Location.Kept v l w c) → m.tree.outcome = .failed := by
  intro claim
  have facts : ((Value.ofText? taggedText).bind fun v => (Location.listed v "children")[0]?.bind fun u =>
      (Location.listed u "children")[0]?.bind fun w => (Location.ofText taggedText).toOption.bind fun l =>
        (RuleModel.build (AbsPath.lexical AbsPath.root) "/src" l).toOption.map fun m => decide
          ((Location.labelOf w).toOption = some "fee" ∧ (Location.labelOf v).toOption = some "main" ∧
            (∀ item ∈ Location.listed v "children", (Location.labelOf item).toOption = some "rate") ∧
            (∀ c ∈ l.children, c.children.length = 0) ∧ m.tree.outcome = .perfect)) = some true := by
    decide +kernel
  obtain ⟨v, hv, facts⟩ := Option.bind_eq_some_iff.mp facts
  obtain ⟨u, hu, facts⟩ := Option.bind_eq_some_iff.mp facts
  obtain ⟨w, hw, facts⟩ := Option.bind_eq_some_iff.mp facts
  obtain ⟨l, hl, facts⟩ := Option.bind_eq_some_iff.mp facts
  obtain ⟨m, hm, facts⟩ := Option.map_eq_some_iff.mp facts
  obtain ⟨hfee, hmain, hrate, hnone, houtcome⟩ := of_decide_eq_true facts
  have hlists : Location.Lists v w :=
    .entry (List.mem_of_getElem? hu) (.entry (List.mem_of_getElem? hw) (.self w))
  have hlost : ¬ ∃ c, Location.Kept v l w c := by
    rintro ⟨c, hkept⟩
    cases hkept with
    | self => simp [hmain] at hfee
    | child hitem _ hc hkept =>
      cases hkept with
      | self => simp [hrate _ hitem] at hfee
      | child _ _ hc' _ => simp [List.length_eq_zero_iff.mp (hnone _ hc)] at hc'
  have hfailed := claim taggedText v w l m hv (eq_ok_of_toOption hl) (eq_ok_of_toOption hm) hlists hlost
  rw [houtcome] at hfailed
  cases hfailed

end RuleTree

end RuleScope
