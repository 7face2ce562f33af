import RuleScope.Proofs.Location.Heads

namespace RuleScope.Location

open Yaml

/-- The children of an import, item by item: one that converts is a child, and one that does not is a
parse failure, at its own line or else at that of the import. -/
inductive Sorted (line : Nat) : List Value → List Location → List Diagnostic → Prop
  | nil : Sorted line [] [] []
  | kept {item : Value} {c : Location} {items : List Value} {children : List Location}
      {faults : List Diagnostic} (hitem : convert item = .ok c)
      (rest : Sorted line items children faults) :
      Sorted line (item :: items) (c :: children) faults
  | skipped {item : Value} {e : EntryFault} {items : List Value} {children : List Location}
      {faults : List Diagnostic} (hitem : convert item = .error e)
      (rest : Sorted line items children faults) :
      Sorted line (item :: items) children
        (⟨.parseFailure, e.message, (ownLine? item).getD line, 0⟩ :: faults)

/-- An import that gives account of what its entry lists: of the errors first, and then of the
children. -/
def Accounts (w : Value) (m : Location) : Prop :=
  ∃ path faults, m.kind = .imported path
      ((listed w "errors").map (diagnosed m.line) ++ misplaced w "errors" m.line ++
        misplaced w "children" m.line ++ faults) ∧
    Sorted m.line (listed w "children") m.children faults

/-- A location and all that is below it. -/
inductive Holds : Location → Location → Prop
  | self (l : Location) : Holds l l
  | child {l c m : Location} (hc : c ∈ l.children) (hm : Holds c m) : Holds l m

/-- A value and all entries that are listed in it, at any depth. -/
inductive Lists : Value → Value → Prop
  | self (v : Value) : Lists v v
  | entry {v item w : Value} (hitem : item ∈ listed v "children") (hw : Lists item w) : Lists v w

/-- What is wrong with an entry below a rule. -/
def nestedFault? (label : String) (item : Value) : Option EntryFault :=
  match convert item with
  | .ok c => if c.isImport then some (.importInRule label c.label) else none
  | .error e => some e

/-- The faults of a root: its own, and for a rule the first fault of those right below it. -/
inductive RootFault (v : Value) : TextFault → Prop
  | notMapping (h : v.asMapping? = none) : RootFault v .rootNotMapping
  | head {e : EntryFault} (hmapping : v.asMapping?.isSome) (h : headOf v = .error e) :
      RootFault v (.entry e)
  | nested {label : String} {line : Nat} {id : RuleId} {terms : List String} {e : EntryFault}
      (h : headOf v = .ok (.rule label line id terms))
      (hnested : (nestedItems v).findSome? (nestedFault? label) = some e) :
      RootFault v (.entry e)

theorem sorted_gather (line : Nat) (items : List Value) :
    Sorted line items (gather line (items.map fun item => (item, convert item))).1
      (gather line (items.map fun item => (item, convert item))).2 := by
  induction items with
  | nil => exact .nil
  | cons item rest ih =>
    rw [List.map_cons, gather]
    cases hitem : convert item with
    | ok c => exact .kept hitem ih
    | error e =>
      rw [faultLine_eq]
      exact .skipped hitem ih

theorem Sorted.exists_item {line : Nat} {items : List Value} {children : List Location}
    {faults : List Diagnostic} (h : Sorted line items children faults) {c : Location}
    (hc : c ∈ children) : ∃ item ∈ items, convert item = .ok c := by
  induction h with
  | nil => cases hc
  | kept hitem rest ih =>
    rcases List.mem_cons.mp hc with rfl | hc
    · exact ⟨_, List.mem_cons_self, hitem⟩
    · obtain ⟨item, hmem, hitem⟩ := ih hc
      exact ⟨item, List.mem_cons_of_mem _ hmem, hitem⟩
  | skipped hitem rest ih =>
    obtain ⟨item, hmem, hitem⟩ := ih hc
    exact ⟨item, List.mem_cons_of_mem _ hmem, hitem⟩

theorem nested_eq_ok_iff {label : String} {r : Except EntryFault Location} {c : Location} :
    nested label r = .ok c ↔ r = .ok c ∧ c.isImport = false := by
  unfold nested
  cases r with
  | ok d => cases hd : d.isImport <;> grind
  | error e => simp

theorem nested_eq_error_iff {label : String} {item : Value} {e : EntryFault} :
    nested label (convert item) = .error e ↔ nestedFault? label item = some e := by
  unfold nested nestedFault?
  cases convert item with
  | ok d => cases hd : d.isImport <;> simp [hd]
  | error e => simp

theorem mapM_nested_eq_error_iff {label : String} {items : List Value} {e : EntryFault} :
    (items.mapM fun item => nested label (convert item)) = .error e ↔
      items.findSome? (nestedFault? label) = some e := by
  induction items with
  | nil => simp [pure, Except.pure]
  | cons item rest ih =>
    rw [List.mapM_cons, List.findSome?_cons]
    cases hitem : nested label (convert item) with
    | error e' =>
      rw [nested_eq_error_iff.mp hitem]
      simp [bind, Except.bind]
    | ok c =>
      have hnone : nestedFault? label item = none := by
        cases hf : nestedFault? label item with
        | none => rfl
        | some e' =>
          rw [nested_eq_error_iff.mpr hf] at hitem
          cases hitem
      rw [hnone, ← ih]
      cases rest.mapM fun item => nested label (convert item) <;>
        simp [bind, Except.bind, pure, Except.pure]

/-- An import converts whatever is below it. -/
theorem convert_imported {v : Value} {label : String} {line : Nat} {path : Option String}
    (h : headOf v = .ok (.imported label line path)) :
    ∃ m, convert v = .ok m ∧ m.label = label ∧ m.line = line ∧ m.isImport = true ∧
      Accounts v m := by
  have hsorted := sorted_gather line (listed v "children")
  have hconvert : convert v = complete convert v (.imported label line path) := by
    rw [convert_eq, h]
    rfl
  simp only [complete, childItems_eq, listedDiagnostics_eq] at hconvert
  exact ⟨_, hconvert, rfl, rfl, rfl, path, _, rfl, hsorted⟩

theorem convert_rule {v : Value} {label : String} {line : Nat} {id : RuleId} {terms : List String}
    (h : headOf v = .ok (.rule label line id terms)) :
    convert v = do
      let children ← (nestedItems v).mapM fun item => nested label (convert item)
      return ⟨label, line, .rule id (expressionOf v) terms, children⟩ := by
  rw [convert_eq, h]
  rfl

/-- What converts is an import that gives account, or a rule with rules below it. -/
theorem convert_cases {v : Value} {l : Location} (h : convert v = .ok l) :
    l.line = (ownLine? v).getD 0 ∧
      (l.isImport = true ∧ Accounts v l ∨
        l.isImport = false ∧ ∀ c ∈ l.children, c.isImport = false ∧
          ∃ item ∈ listed v "children", convert item = .ok c) := by
  cases hhead : headOf v with
  | error e =>
    rw [convert_eq, hhead] at h
    cases h
  | ok head =>
    have hline := line_of_headOf hhead
    cases head with
    | imported label line path =>
      obtain ⟨m, hm, -, hmline, himport, haccounts⟩ := convert_imported hhead
      rw [h] at hm
      cases hm
      exact ⟨hmline.trans hline, .inl ⟨himport, haccounts⟩⟩
    | rule label line id terms =>
      rw [convert_rule hhead] at h
      obtain ⟨children, hchildren, h⟩ := exists_of_bind_eq_ok h
      cases h
      refine ⟨hline, .inr ⟨rfl, fun c hc => ?_⟩⟩
      obtain ⟨item, hmem, hnested⟩ := mem_of_mapM_eq_ok hchildren hc
      obtain ⟨hitem, hrule⟩ := nested_eq_ok_iff.mp hnested
      exact ⟨hrule, item, nestedItems_subset hmem, hitem⟩

theorem exists_item_of_mem_children {v : Value} {l c : Location} (h : convert v = .ok l)
    (hc : c ∈ l.children) : ∃ item ∈ listed v "children", convert item = .ok c := by
  obtain ⟨-, ⟨-, path, faults, -, hsorted⟩ | ⟨-, hrules⟩⟩ := convert_cases h
  · exact hsorted.exists_item hc
  · exact (hrules c hc).2

/-- Each node of a tree is the conversion of an entry of its own. -/
theorem Holds.exists_entry {v : Value} {l m : Location} (hm : Holds l m) (h : convert v = .ok l) :
    ∃ w, Lists v w ∧ convert w = .ok m := by
  induction hm generalizing v with
  | self l => exact ⟨v, .self v, h⟩
  | child hc _ ih =>
    obtain ⟨item, hmem, hitem⟩ := exists_item_of_mem_children h hc
    obtain ⟨w, hw, hconvert⟩ := ih hitem
    exact ⟨w, .entry hmem hw, hconvert⟩

theorem Holds.isImport_eq_false {v : Value} {l m : Location} (hm : Holds l m)
    (h : convert v = .ok l) (hl : l.isImport = false) : m.isImport = false := by
  induction hm generalizing v with
  | self l => exact hl
  | child hc _ ih =>
    obtain ⟨-, ⟨himport, -⟩ | ⟨-, hrules⟩⟩ := convert_cases h
    · rw [hl] at himport
      cases himport
    · obtain ⟨hrule, item, -, hitem⟩ := hrules _ hc
      exact ih hitem hrule

/-- An entry does not convert for a fault of its head, or a rule for the first one right below it. -/
theorem convert_eq_error_iff {v : Value} {e : EntryFault} :
    convert v = .error e ↔ headOf v = .error e ∨ ∃ label line id terms,
      headOf v = .ok (.rule label line id terms) ∧
        (nestedItems v).findSome? (nestedFault? label) = some e := by
  cases hhead : headOf v with
  | error e' =>
    rw [convert_eq, hhead]
    simp [bind, Except.bind]
  | ok head =>
    cases head with
    | imported label line path =>
      -- Once its head is read, an import has no way to fail.
      obtain ⟨m, hm, -⟩ := convert_imported hhead
      simp [hm]
    | rule label line id terms =>
      have hnested : convert v = .error e ↔
          ((nestedItems v).mapM fun item => nested label (convert item)) = .error e := by
        rw [convert_rule hhead]
        cases (nestedItems v).mapM fun item => nested label (convert item) <;>
          simp [bind, Except.bind, pure, Except.pure]
      rw [hnested, mapM_nested_eq_error_iff]
      refine ⟨fun h => .inr ⟨label, line, id, terms, rfl, h⟩, fun h => ?_⟩
      obtain h | ⟨_, _, _, _, h, hfault⟩ := h
      · cases h
      · cases h
        exact hfault

theorem ofValue_eq {v : Value} (hmapping : v.asMapping?.isSome) :
    ofValue v = (convert v).mapError .entry := by
  obtain ⟨fields, hfields⟩ := Option.isSome_iff_exists.mp hmapping
  unfold ofValue
  rw [hfields]
  cases convert v <;> rfl

theorem convert_of_ofValue {v : Value} {l : Location} (h : ofValue v = .ok l) :
    convert v = .ok l := by
  unfold ofValue at h
  split at h
  · cases h
  · split at h
    · cases h
      assumption
    · cases h

theorem ofValue_eq_error_iff {v : Value} {f : TextFault} :
    ofValue v = .error f ↔ RootFault v f := by
  cases hmapping : v.asMapping? with
  | none =>
    have hvalue : ofValue v = .error .rootNotMapping := by rw [ofValue, hmapping]; rfl
    have hhead : headOf v = .error .notMapping := by rw [headOf, hmapping]; rfl
    rw [hvalue]
    constructor
    · intro h
      cases h
      exact .notMapping hmapping
    · intro h
      cases h with
      | notMapping => rfl
      | head hsome => simp [hmapping] at hsome
      | nested h => simp [hhead] at h
  | some fields =>
    have hsome : v.asMapping?.isSome := by rw [hmapping]; rfl
    have hentry : ofValue v = .error f ↔ ∃ e, convert v = .error e ∧ f = .entry e := by
      rw [ofValue_eq hsome]
      cases convert v <;> simp [Except.mapError, eq_comm]
    rw [hentry]
    constructor
    · rintro ⟨e, he, rfl⟩
      rcases convert_eq_error_iff.mp he with hhead | ⟨label, line, id, terms, hhead, hnested⟩
      · exact .head hsome hhead
      · exact .nested hhead hnested
    · intro h
      cases h with
      | notMapping h => simp [hmapping] at h
      | head _ h => exact ⟨_, convert_eq_error_iff.mpr (.inl h), rfl⟩
      | nested h hnested => exact ⟨_, convert_eq_error_iff.mpr (.inr ⟨_, _, _, _, h, hnested⟩), rfl⟩

/-- Faults are isolated. A value is refused for a fault of its root alone, which for an import is one of
its head and for a rule may be one of its nested entries; the head is read from fields that hold no
other entry. In a tree that is read, each node is the conversion of an entry by itself, each import
gives account of all that its entry lists, and no import is below a rule. -/
theorem conversion_isolates_faults (v : Value) :
    (∀ text, Value.ofText? text = some v → ofText text = ofValue v) ∧
    (∀ f, ofValue v = .error f ↔ RootFault v f) ∧
    (∀ w, v.asMapping?.isNone = w.asMapping?.isNone →
      (∀ field ∈ headFields, v.get? field = w.get? field) → headOf v = headOf w) ∧
    ∀ l, ofValue v = .ok l → ∀ m, Holds l m →
      (∃ w, Lists v w ∧ convert w = .ok m ∧ m.line = (ownLine? w).getD 0 ∧
        (m.isImport = true → Accounts w m)) ∧
      (m.isImport = false → ∀ c, Holds m c → c.isImport = false) := by
  refine ⟨fun text htext => by rw [ofText, htext], fun f => ofValue_eq_error_iff,
    fun w => headOf_congr, fun l hl m hm => ?_⟩
  have hconvert : convert v = .ok l := convert_of_ofValue hl
  obtain ⟨w, hw, hentry⟩ := hm.exists_entry hconvert
  obtain ⟨hline, hkind⟩ := convert_cases hentry
  refine ⟨⟨w, hw, hentry, hline, fun himport => ?_⟩, fun hrule c hc => ?_⟩
  · rcases hkind with ⟨-, haccounts⟩ | ⟨hrule, -⟩
    · exact haccounts
    · rw [himport] at hrule
      cases hrule
  · exact hc.isImport_eq_false hentry hrule

/-- An import with every kind of fault below it. A child without an id is reported at its own line, one
that is no entry and one whose line is no number at the line of the import; a rule that holds an import
is left out as a whole, and the faults of an inner import stay there. -/
def mixedValue : Value :=
  let rule (label : String) (fields : List (Value × Value)) : Value :=
    .mapping ([(.string "kind", .string "rule"), (.string "label", .string label)] ++ fields)
  let natural (n : Nat) : Value := .number (.integer n)
  .mapping [(.string "label", .string "main"), (.string "line", natural 4),
    (.string "errors", .sequence
      [.mapping [(.string "type", .string "WARNING"), (.string "message", .string "unused")],
        natural 7]),
    (.string "children", .sequence
      [rule "broken" [(.string "line", natural 9)],
        rule "fine" [(.string "id", natural 3),
          (.string "children", .sequence [rule "inner" [(.string "id", natural 5)]])],
        .null,
        rule "early" [(.string "id", natural 6), (.string "line", natural 1 |>.tagged "!l"),
          (.string "children", .sequence [.mapping [(.string "label", .string "sub")]])],
        .mapping [(.string "label", .string "sub"), (.string "children", .string "none"),
          (.string "line", natural 8)]])]

theorem mixedValue_is_read : (∀ f, ¬ RootFault mixedValue f) ∧
    ((ofValue mixedValue).toOption.map fun l => (l.kind, l.children.map (·.label))) = some
      (.imported none
        [⟨.warning, "unused", 0, 0⟩,
          ⟨.parseFailure,
            "unreadable diagnostic: invalid type: integer `7`, expected struct RawDiagnostic", 4, 0⟩,
          ⟨.parseFailure, "rule \"broken\" has no integer 'id'", 9, 0⟩,
          ⟨.parseFailure, "node is not a mapping", 4, 0⟩,
          ⟨.parseFailure, "rule \"early\" contains import \"sub\"", 1, 0⟩],
        ["fine", "sub"]) := by
  obtain ⟨-, hfault, -⟩ := conversion_isolates_faults mixedValue
  have hread : (ofValue mixedValue).isOk := by decide +kernel
  refine ⟨fun f hf => ?_, by decide +kernel⟩
  rw [(hfault f).mpr hf] at hread
  cases hread

end RuleScope.Location
