import RuleScope.Proofs.Location.Isolation
import RuleScope.Proofs.RuleModel.Runs

namespace RuleScope

open Yaml

namespace Yaml.Value

def isKey (key : String) : Value → Bool
  | string s => s = key
  | _ => false

/-- The value without a field. -/
def without (key : String) (v : Value) : Value :=
  match v.asMapping? with
  | some fields => .mapping (fields.filter fun f => !f.1.isKey key)
  | none => v

theorem isKey_iff {key : String} {v : Value} : v.isKey key = true ↔ v = .string key := by
  cases v <;> simp [isKey]

theorem lookup_cons (field : String) (f : Value × Value) (rest : List (Value × Value)) :
    lookup field (f :: rest) = if f.1.isKey field then some f.2 else lookup field rest := by
  obtain ⟨k, v⟩ := f
  cases k <;> simp [lookup, isKey]

theorem lookup_filter (key field : String) (fields : List (Value × Value)) :
    lookup field (fields.filter fun f => !f.1.isKey key) =
      if field = key then none else lookup field fields := by
  induction fields with
  | nil => simp [lookup]
  | cons f rest ih =>
    rw [List.filter_cons, lookup_cons]
    by_cases hkey : f.1.isKey key = true
    · have hfield : f.1.isKey field = true → field = key := fun h =>
        string.inj ((isKey_iff.mp h).symm.trans (isKey_iff.mp hkey))
      simp only [hkey, Bool.not_true, Bool.false_eq_true, if_false, ih]
      split
      next => rfl
      next hne => rw [if_neg (mt hfield hne)]
    · have hfield : f.1.isKey field = true → field ≠ key := by
        rintro h rfl
        exact hkey h
      simp only [hkey, Bool.not_false, if_true, lookup_cons, ih]
      split
      next h => rw [if_neg (hfield h)]
      next => rfl

theorem get?_without (key field : String) (v : Value) :
    (v.without key).get? field = if field = key then none else v.get? field := by
  unfold without get?
  cases hv : v.asMapping? with
  | none => simp [hv]
  | some fields => simp [asMapping?, untag, lookup_filter]

theorem asMapping?_without_isNone (key : String) (v : Value) :
    (v.without key).asMapping?.isNone = v.asMapping?.isNone := by
  unfold without
  cases hv : v.asMapping? with
  | none => rw [hv]
  | some fields => simp [asMapping?, untag]

end Yaml.Value

namespace Location

/-- Whether an entry is read as an import, if that can be told. -/
def importOf? (v : Value) : Option Bool := (importOf v "").toOption

theorem importOf_eq_ok_iff {v : Value} {label : String} {imported : Bool} :
    importOf v label = .ok imported ↔ importOf? v = some imported := by
  unfold importOf? importOf
  cases (v.get? "kind").bind Value.asString? with
  | none => simp [Except.toOption]
  | some kind =>
    dsimp only
    split_ifs <;> simp [Except.toOption]

/-- The parts of an entry that a head is read from. -/
theorem headOf_eq_ok {v : Value} {head : Head} (h : headOf v = .ok head) :
    ∃ label line, labelOf v = .ok label ∧ optionalNatural v "line" = .ok line ∧
      ((importOf? v = some true ∧
          ∃ path, pathOf v label = .ok path ∧ head = .imported label (line.getD 0) path) ∨
        (importOf? v = some false ∧ ∃ id terms, idOf v label = .ok id ∧
          baseTermsOf v label = .ok terms ∧ head = .rule label (line.getD 0) id terms)) := by
  unfold headOf at h
  split at h
  next => cases h
  next =>
    obtain ⟨label, hlabel, h⟩ := exists_of_bind_eq_ok h
    obtain ⟨line, hline, h⟩ := exists_of_bind_eq_ok h
    obtain ⟨imported, himport, h⟩ := exists_of_bind_eq_ok h
    have hkind := importOf_eq_ok_iff.mp himport
    refine ⟨label, line, hlabel, hline, ?_⟩
    cases imported with
    | true =>
      obtain ⟨path, hpath, h⟩ := exists_of_bind_eq_ok h
      cases h
      exact .inl ⟨hkind, path, hpath, rfl⟩
    | false =>
      obtain ⟨id, hid, h⟩ := exists_of_bind_eq_ok h
      obtain ⟨terms, hterms, h⟩ := exists_of_bind_eq_ok h
      cases h
      exact .inr ⟨hkind, id, terms, hid, hterms, rfl⟩

/-- A value of a type that the format does not allow for a field of such an entry. Null stands for an
optional field that is absent. -/
inductive WrongType (v : Value) : String → Prop
  | kind {x : Value} (hx : v.get? "kind" = some x) (h : x.asString? = none) (hnull : x.isNull = false) :
    WrongType v "kind"
  | label {x : Value} (hx : v.get? "label" = some x) (hstring : ∀ s, x ≠ .string s)
      (hnumber : ∀ n, x ≠ .number n) : WrongType v "label"
  | line {x : Value} (hx : v.get? "line" = some x) (h : natural? x = none) (hnull : x ≠ .null) :
    WrongType v "line"
  | path {x : Value} (himport : importOf? v = some true) (hx : v.get? "path" = some x)
      (hstring : ∀ s, x ≠ .string s) (hnull : x ≠ .null) : WrongType v "path"
  | errors {x : Value} (himport : importOf? v = some true) (hx : v.get? "errors" = some x)
      (h : x.asSequence? = none) (hnull : x.isNull = false) : WrongType v "errors"
  | errorItem {item : Value} {e : Schema.Mismatch} (himport : importOf? v = some true)
      (hitem : item ∈ listed v "errors") (h : diagnosticOf item = .error e) : WrongType v "errors"
  | children {x : Value} (hx : v.get? "children" = some x) (h : x.asSequence? = none)
      (hnull : x.isNull = false) : WrongType v "children"
  | id {x : Value} (hrule : importOf? v = some false) (hx : v.get? "id" = some x)
      (h : x.asInteger? = none) : WrongType v "id"
  | expression {x : Value} (hrule : importOf? v = some false) (hx : v.get? "expression" = some x)
      (h : x.asString? = none) (hnull : x.isNull = false) : WrongType v "expression"
  | baseTerms {x : Value} (hrule : importOf? v = some false) (hx : v.get? "baseTerms" = some x)
      (hnull : x ≠ .null) (hterms : ∀ items, x = .sequence items → ∃ t ∈ items, t.asString? = none) :
    WrongType v "baseTerms"

/-- The fields that are not looked at closely. -/
def Unchecked (v : Value) (field : String) : Prop :=
  field = "kind" ∨ field = "expression" ∨ field = "children" ∧ importOf? v = some false

theorem baseTermsOf_ne_ok {v x : Value} (hx : v.get? "baseTerms" = some x) (hnull : x ≠ .null)
    (hterms : ∀ items, x = .sequence items → ∃ t ∈ items, t.asString? = none) (label : String)
    (terms : List String) : baseTermsOf v label ≠ .ok terms := by
  intro h
  unfold baseTermsOf at h
  rw [hx] at h
  split at h
  next items he =>
    obtain ⟨t, ht, hnone⟩ := hterms items (Option.some.inj he)
    obtain ⟨text, -, htext⟩ := exists_of_mapM_eq_ok h ht
    rw [hnone] at htext
    cases htext
  next he => exact hnull (Option.some.inj he)
  next he => cases he
  next => cases h

/-- An entry with a wrong value in a field of its head does not convert. -/
theorem headOf_ne_ok {v : Value} {field : String} (h : WrongType v field)
    (hfield : field ∈ headFields) (hkind : field ≠ "kind") (head : Head) : headOf v ≠ .ok head := by
  intro hhead
  obtain ⟨label, line, hlabel, hline, hparts⟩ := headOf_eq_ok hhead
  cases h with
  | kind => exact hkind rfl
  | label hx hstring hnumber =>
    unfold labelOf at hlabel
    rw [hx] at hlabel
    split at hlabel <;> simp_all
  | line hx h hnull =>
    unfold optionalNatural at hline
    rw [hx] at hline
    split at hline <;> simp_all
  | path himport hx hstring hnull =>
    obtain ⟨-, path, hpath, -⟩ | ⟨hrule, -⟩ := hparts
    · unfold pathOf at hpath
      rw [hx] at hpath
      split at hpath <;> simp_all
    · rw [himport] at hrule
      cases hrule
  | id hrule hx h =>
    obtain ⟨himport, -⟩ | ⟨-, id, terms, hid, -⟩ := hparts
    · rw [hrule] at himport
      cases himport
    · simp [idOf, hx, h] at hid
  | baseTerms hrule hx hnull hterms =>
    obtain ⟨himport, -⟩ | ⟨-, id, terms, -, hok, -⟩ := hparts
    · rw [hrule] at himport
      cases himport
    · exact baseTermsOf_ne_ok hx hnull hterms label terms hok
  | _ => simp [headFields] at hfield

theorem headOf_without {v : Value} {field : String} (h : field ∉ headFields) :
    headOf (v.without field) = headOf v := by
  refine headOf_congr (v.asMapping?_without_isNone field) fun other hother => ?_
  have hne : other ≠ field := by
    rintro rfl
    exact h hother
  rw [Value.get?_without, if_neg hne]

theorem headOf_without_kind {v x : Value} (hx : v.get? "kind" = some x) (h : x.asString? = none) :
    headOf (v.without "kind") = headOf v := by
  have hkind : ((v.without "kind").get? "kind").bind Value.asString? =
      (v.get? "kind").bind Value.asString? := by
    rw [Value.get?_without, if_pos rfl, hx, Option.bind_some, h, Option.bind_none]
  have hother : ∀ field ≠ "kind", (v.without "kind").get? field = v.get? field := fun field hne => by
    rw [Value.get?_without, if_neg hne]
  unfold headOf labelOf optionalNatural importOf pathOf idOf baseTermsOf
  rw [hkind, v.asMapping?_without_isNone, hother "label" (by decide), hother "line" (by decide),
    hother "id" (by decide), hother "path" (by decide), hother "baseTerms" (by decide)]

theorem convert_congr {v w : Value} (hhead : headOf w = headOf v)
    (hcomplete : ∀ head, headOf v = .ok head → complete convert w head = complete convert v head) :
    convert w = convert v := by
  rw [convert_eq, convert_eq, hhead]
  cases h : headOf v with
  | error e => rfl
  | ok head => exact hcomplete head h

/-- What is below an entry is read from two fields, and the expression of a rule from a third. -/
theorem complete_congr {v w : Value} {below : Value → Except EntryFault Location} {head : Head}
    (hchildren : w.get? "children" = v.get? "children") (herrors : w.get? "errors" = v.get? "errors")
    (hexpression : expressionOf w = expressionOf v) : complete below w head = complete below v head := by
  unfold complete childItems listedDiagnostics nestedItems
  rw [hchildren, herrors, hexpression]

/-- A rule does without its children if they are no plain list. -/
theorem convert_without_children {v : Value} (hrule : importOf? v = some false)
    (h : nestedItems v = []) : convert (v.without "children") = convert v := by
  refine convert_congr (headOf_without (by decide)) fun head hhead => ?_
  obtain ⟨label, line, -, -, ⟨himport, -⟩ | ⟨-, id, terms, -, -, rfl⟩⟩ := headOf_eq_ok hhead
  · rw [hrule] at himport
    cases himport
  · have hnone : nestedItems (v.without "children") = [] := by
      unfold nestedItems
      rw [Value.get?_without, if_pos rfl]
    have hexpression : expressionOf (v.without "children") = expressionOf v := by
      unfold expressionOf
      rw [Value.get?_without, if_neg (by decide)]
    simp only [complete, hnone, h, hexpression]

/-- With a wrong value, a field that is not looked at closely counts as absent. -/
theorem convert_without {v : Value} {field : String} (h : WrongType v field)
    (hunchecked : Unchecked v field) : convert (v.without field) = convert v := by
  have hother : ∀ other ≠ field, (v.without field).get? other = v.get? other := fun other hne => by
    rw [Value.get?_without, if_neg hne]
  cases h with
  | kind hx hstring hnull =>
    refine convert_congr (headOf_without_kind hx hstring) fun head _ => complete_congr
      (hother "children" (by decide)) (hother "errors" (by decide)) ?_
    unfold expressionOf
    rw [hother "expression" (by decide)]
  | expression hrule hx hstring hnull =>
    refine convert_congr (headOf_without (by decide)) fun head _ => complete_congr
      (hother "children" (by decide)) (hother "errors" (by decide)) ?_
    unfold expressionOf
    rw [Value.get?_without, if_pos rfl, hx, Option.bind_some, hstring, Option.bind_none]
  | children hx hlist hnull =>
    have hrule : importOf? v = some false := by simpa [Unchecked] using hunchecked
    refine convert_without_children hrule ?_
    unfold nestedItems
    rw [hx]
    split
    next items he =>
      obtain rfl := Option.some.inj he
      cases hlist
    next => rfl
  | _ => simp [Unchecked] at hunchecked

/-- An entry of a value, with the node of the tree that it is converted to. -/
inductive Kept : Value → Location → Value → Location → Prop
  | self (v : Value) (l : Location) : Kept v l v l
  | child {v item w : Value} {l c m : Location} (hitem : item ∈ listed v "children")
      (hconvert : convert item = .ok c) (hc : c ∈ l.children) (hw : Kept item c w m) : Kept v l w m

/-- A kept import has a parse failure for the entry: for a field of its own that is no list, for an item of
its errors that is no diagnostic, or for the entry below it that was given up, which is this one or
holds it. -/
inductive Reported (v : Value) (l : Location) (w : Value) : Prop
  | ofField {m : Location} {path : Option String} {diagnostics : List Diagnostic} {field : String}
      (kept : Kept v l w m) (hkind : m.kind = .imported path diagnostics)
      (hd : ⟨.parseFailure, "field '" ++ field ++ "' is not a list", m.line, 0⟩ ∈ diagnostics) :
      Reported v l w
  | ofItem {m : Location} {path : Option String} {diagnostics : List Diagnostic} {e : Schema.Mismatch}
      (kept : Kept v l w m) (hkind : m.kind = .imported path diagnostics)
      (hd : ⟨.parseFailure, "unreadable diagnostic: " ++ e.message wording, m.line, 0⟩ ∈ diagnostics) :
      Reported v l w
  | ofEntry {u item : Value} {m : Location} {path : Option String} {diagnostics : List Diagnostic}
      {e : EntryFault} (kept : Kept v l u m) (hitem : item ∈ listed u "children")
      (hw : Lists item w) (he : convert item = .error e) (hkind : m.kind = .imported path diagnostics)
      (hd : ⟨.parseFailure, e.message, (ownLine? item).getD m.line, 0⟩ ∈ diagnostics) :
      Reported v l w

/-- The entry stands among children of a kept rule that the rule does without. -/
def Overlooked (v : Value) (l : Location) (w : Value) : Prop :=
  ∃ u m item, Kept v l u m ∧ m.isImport = false ∧ item ∈ listed u "children" ∧ Lists item w ∧
    convert (u.without "children") = convert u

theorem Reported.child {v item w : Value} {l c : Location} (hitem : item ∈ listed v "children")
    (hconvert : convert item = .ok c) (hc : c ∈ l.children) (h : Reported item c w) :
    Reported v l w := by
  cases h with
  | ofField kept hkind hd => exact .ofField (.child hitem hconvert hc kept) hkind hd
  | ofItem kept hkind hd => exact .ofItem (.child hitem hconvert hc kept) hkind hd
  | ofEntry kept hbelow hw he hkind hd =>
    exact .ofEntry (.child hitem hconvert hc kept) hbelow hw he hkind hd

theorem Overlooked.child {v item w : Value} {l c : Location} (hitem : item ∈ listed v "children")
    (hconvert : convert item = .ok c) (hc : c ∈ l.children) (h : Overlooked item c w) :
    Overlooked v l w := by
  obtain ⟨u, m, below, kept, h⟩ := h
  exact ⟨u, m, below, .child hitem hconvert hc kept, h⟩

/-- Each item of an import is a child of it, or a parse failure. -/
theorem Sorted.of_mem {line : Nat} {items : List Value} {children : List Location}
    {faults : List Diagnostic} (h : Sorted line items children faults) {item : Value}
    (hitem : item ∈ items) : (∃ c ∈ children, convert item = .ok c) ∨
      ∃ e, convert item = .error e ∧
        ⟨.parseFailure, e.message, (ownLine? item).getD line, 0⟩ ∈ faults := by
  induction h with
  | nil => cases hitem
  | kept hfirst rest ih =>
    rcases List.mem_cons.mp hitem with rfl | hitem
    · exact .inl ⟨_, List.mem_cons_self, hfirst⟩
    · rcases ih hitem with ⟨c, hc, hok⟩ | hfault
      · exact .inl ⟨c, List.mem_cons_of_mem _ hc, hok⟩
      · exact .inr hfault
  | skipped hfirst rest ih =>
    rcases List.mem_cons.mp hitem with rfl | hitem
    · exact .inr ⟨_, hfirst, List.mem_cons_self⟩
    · rcases ih hitem with hkept | ⟨e, he, hd⟩
      · exact .inl hkept
      · exact .inr ⟨e, he, List.mem_cons_of_mem _ hd⟩

theorem importOf?_of_convert {v : Value} {l : Location} (h : convert v = .ok l) :
    importOf? v = some l.isImport := by
  rw [convert_eq] at h
  obtain ⟨head, hhead, h⟩ := exists_of_bind_eq_ok h
  obtain ⟨label, line, -, -, ⟨himport, path, -, rfl⟩ | ⟨hrule, id, terms, -, -, rfl⟩⟩ :=
    headOf_eq_ok hhead
  · cases h
    exact himport
  · obtain ⟨children, -, h⟩ := exists_of_bind_eq_ok h
    cases h
    exact hrule

/-- A rule that converts has all entries that it looks at. -/
theorem exists_child_of_mem_nestedItems {v item : Value} {l : Location} (h : convert v = .ok l)
    (hl : l.isImport = false) (hitem : item ∈ nestedItems v) :
    ∃ c ∈ l.children, convert item = .ok c := by
  have hrule := importOf?_of_convert h
  rw [hl] at hrule
  rw [convert_eq] at h
  obtain ⟨head, hhead, h⟩ := exists_of_bind_eq_ok h
  obtain ⟨label, line, -, -, ⟨himport, -⟩ | ⟨-, id, terms, -, -, rfl⟩⟩ := headOf_eq_ok hhead
  · rw [hrule] at himport
    cases himport
  · obtain ⟨children, hchildren, h⟩ := exists_of_bind_eq_ok h
    cases h
    obtain ⟨c, hc, hnested⟩ := exists_of_mapM_eq_ok hchildren hitem
    exact ⟨c, hc, (nested_eq_ok_iff.mp hnested).1⟩

/-- A list of children is looked at as a whole or, below a rule, not at all. -/
theorem nestedItems_eq (v : Value) :
    nestedItems v = listed v "children" ∨ nestedItems v = [] := by
  unfold nestedItems
  split
  next items hget => exact .inl (by simp [listed, hget, Value.asSequence?, Value.untag])
  next => exact .inr rfl

/-- Of what is written in an entry that converts, nothing is lost but children that a rule does without. -/
theorem kept_reported_or_overlooked {v w : Value} {l : Location} (h : convert v = .ok l)
    (hw : Lists v w) : (∃ m, Kept v l w m) ∨ Reported v l w ∨ Overlooked v l w := by
  induction hw generalizing l with
  | self v => exact .inl ⟨l, .self v l⟩
  | @entry v item w hitem hw ih =>
    have hchild : ∀ c ∈ l.children, convert item = .ok c →
        (∃ m, Kept v l w m) ∨ Reported v l w ∨ Overlooked v l w := fun c hc hconvert => by
      rcases ih hconvert with ⟨m, hkept⟩ | hreported | hoverlooked
      · exact .inl ⟨m, .child hitem hconvert hc hkept⟩
      · exact .inr (.inl (hreported.child hitem hconvert hc))
      · exact .inr (.inr (hoverlooked.child hitem hconvert hc))
    obtain ⟨-, ⟨himport, path, faults, hkind, hsorted⟩ | ⟨hrule, -⟩⟩ := convert_cases h
    · rcases hsorted.of_mem hitem with ⟨c, hc, hconvert⟩ | ⟨e, he, hd⟩
      · exact hchild c hc hconvert
      · exact .inr (.inl (.ofEntry (.self v l) hitem hw he hkind (List.mem_append_right _ hd)))
    · have hkind := importOf?_of_convert h
      rw [hrule] at hkind
      rcases nestedItems_eq v with hitems | hnone
      · obtain ⟨c, hc, hconvert⟩ := exists_child_of_mem_nestedItems h hrule (hitems ▸ hitem)
        exact hchild c hc hconvert
      · exact .inr (.inr ⟨v, l, item, .self v l, hrule, hitem, hw,
          convert_without_children hkind hnone⟩)

theorem misplaced_eq {v x : Value} {field : String} (hx : v.get? field = some x)
    (h : x.asSequence? = none) (hnull : x.isNull = false) (line : Nat) :
    misplaced v field line = [⟨.parseFailure, "field '" ++ field ++ "' is not a list", line, 0⟩] := by
  simp [misplaced, hx, h, hnull]

theorem accounts_of_convert {v : Value} {l : Location} (h : convert v = .ok l)
    (hl : l.isImport = true) : Accounts v l := by
  obtain ⟨-, ⟨-, haccounts⟩ | ⟨hrule, -⟩⟩ := convert_cases h
  · exact haccounts
  · rw [hl] at hrule
    cases hrule

/-- An import that converts has a diagnostic for a wrong value in a field of its own. -/
theorem reported_of_kept {v w : Value} {l m : Location} {field : String} (kept : Kept v l w m)
    (h : convert w = .ok m) (hwrong : WrongType w field) (hchecked : ¬ Unchecked w field) :
    Reported v l w := by
  have hkind := importOf?_of_convert h
  have hfield : field ∉ headFields := fun hfield => by
    obtain ⟨head, hhead, -⟩ := exists_of_bind_eq_ok ((convert_eq w).symm.trans h)
    exact headOf_ne_ok hwrong hfield (fun he => hchecked (.inl he)) head hhead
  have hlist : ∀ x, w.get? field = some x → field = "errors" ∨ field = "children" →
      x.asSequence? = none → x.isNull = false → m.isImport = true → Reported v l w := by
    intro x hx hname hitems hnull himport
    have hmisplaced := misplaced_eq hx hitems hnull m.line
    obtain ⟨path, faults, hm, -⟩ := accounts_of_convert h himport
    have hd : ⟨.parseFailure, "field '" ++ field ++ "' is not a list", m.line, 0⟩ ∈
        (listed w "errors").map (diagnosed m.line) ++ misplaced w "errors" m.line ++
          misplaced w "children" m.line ++ faults := by
      rcases hname with rfl | rfl <;> simp [hmisplaced]
    exact .ofField kept hm hd
  cases hwrong with
  | errors himport hx hitems hnull =>
    exact hlist _ hx (.inl rfl) hitems hnull (Option.some.inj (hkind.symm.trans himport))
  | @errorItem item e himport hitem he =>
    obtain ⟨path, faults, hm, -⟩ :=
      accounts_of_convert h (Option.some.inj (hkind.symm.trans himport))
    have hdiagnosed : diagnosed m.line item =
        ⟨.parseFailure, "unreadable diagnostic: " ++ e.message wording, m.line, 0⟩ := by
      rw [diagnosed, he]
    have hd := List.mem_map_of_mem (f := diagnosed m.line) hitem
    rw [hdiagnosed] at hd
    exact .ofItem kept hm
      (List.mem_append_left _ (List.mem_append_left _ (List.mem_append_left _ hd)))
  | children hx hitems hnull =>
    refine hlist _ hx (.inr rfl) hitems hnull ?_
    by_contra hm
    rw [Bool.eq_false_iff.mpr hm] at hkind
    exact hchecked (.inr (.inr ⟨rfl, hkind⟩))
  | expression => exact absurd (.inr (.inl rfl)) hchecked
  | _ => simp [headFields] at hfield

theorem Kept.convert_eq_ok {v w : Value} {l m : Location} (h : Kept v l w m)
    (hl : convert v = .ok l) : convert w = .ok m := by
  induction h with
  | self => exact hl
  | child _ hconvert _ _ ih => exact ih hconvert

/-- In a text that is read, every entry is kept or reported, or stands where a rule does without its
children. A wrong value is reported, or in an entry that is overlooked, or else it is in one of the three
fields that are not looked at closely: then the entry converts as if it did not have the field. -/
theorem wrong_types_are_reported_or_unchecked {text : String} {l : Location}
    (h : ofText text = .ok l) : ∃ v, Value.ofText? text = some v ∧ ∀ w, Lists v w →
      ((∃ m, Kept v l w m) ∨ Reported v l w ∨ Overlooked v l w) ∧
      ∀ field, WrongType w field →
        (Unchecked w field → convert (w.without field) = convert w) ∧
        (¬ Unchecked w field → Reported v l w ∨ Overlooked v l w) := by
  obtain ⟨v, hv, hvalue⟩ : ∃ v, Value.ofText? text = some v ∧ ofValue v = .ok l := by
    unfold ofText at h
    cases hv : Value.ofText? text with
    | none =>
      rw [hv] at h
      cases h
    | some v =>
      rw [hv] at h
      exact ⟨v, rfl, h⟩
  have hconvert := convert_of_ofValue hvalue
  refine ⟨v, hv, fun w hw => ?_⟩
  have hall := kept_reported_or_overlooked hconvert hw
  refine ⟨hall, fun field hwrong => ⟨convert_without hwrong, fun hchecked => ?_⟩⟩
  rcases hall with ⟨m, kept⟩ | hlost
  · exact .inl (reported_of_kept kept (kept.convert_eq_ok hconvert) hwrong hchecked)
  · exact hlost

/-- A rule with a list for an expression, beside one with a word for an id. -/
def mistypedText : String :=
  "label: main\nchildren: [\x7blabel: rate, id: 1, expression: [a]\x7d, \x7blabel: fee, id: one\x7d]"

theorem wrong_types_are_reported_or_unchecked_mistyped : ∃ v l rate fee,
    Value.ofText? mistypedText = some v ∧ ofText mistypedText = .ok l ∧
      WrongType rate "expression" ∧ convert (rate.without "expression") = convert rate ∧
      WrongType fee "id" ∧ (Reported v l fee ∨ Overlooked v l fee) := by
  have facts : ((Value.ofText? mistypedText).bind fun v => (listed v "children")[0]?.bind fun rate =>
      (listed v "children")[1]?.bind fun fee => (rate.get? "expression").bind fun expression =>
      (fee.get? "id").bind fun id => (ofText mistypedText).toOption.map fun _ => decide
        (importOf? rate = some false ∧ expression.asString? = none ∧ expression.isNull = false ∧
          importOf? fee = some false ∧ id.asInteger? = none)) = some true := by
    decide +kernel
  obtain ⟨v, hv, facts⟩ := Option.bind_eq_some_iff.mp facts
  obtain ⟨rate, hrate, facts⟩ := Option.bind_eq_some_iff.mp facts
  obtain ⟨fee, hfee, facts⟩ := Option.bind_eq_some_iff.mp facts
  obtain ⟨expression, hexpression, facts⟩ := Option.bind_eq_some_iff.mp facts
  obtain ⟨id, hid, facts⟩ := Option.bind_eq_some_iff.mp facts
  obtain ⟨l, hl, facts⟩ := Option.map_eq_some_iff.mp facts
  obtain ⟨hrule, hstring, hnull, hrule', hinteger⟩ := of_decide_eq_true facts
  have hok : ofText mistypedText = .ok l := eq_ok_of_toOption hl
  obtain ⟨v', hv', hall⟩ := wrong_types_are_reported_or_unchecked hok
  obtain rfl : v = v' := Option.some.inj (hv.symm.trans hv')
  have hwrong : WrongType rate "expression" := .expression hrule hexpression hstring hnull
  have hwrong' : WrongType fee "id" := .id hrule' hid hinteger
  have hsame := (hall rate (.entry (List.mem_of_getElem? hrate) (.self rate))).2 _ hwrong
  have hreport := (hall fee (.entry (List.mem_of_getElem? hfee) (.self fee))).2 _ hwrong'
  exact ⟨v, l, rate, fee, hv, hok, hwrong, hsame.1 (.inr (.inl rfl)), hwrong',
    hreport.2 (by simp [Unchecked])⟩

/-- A rule with a mapping for children. -/
def misnestedText : String :=
  "label: main\nchildren:\n  - label: rate\n    id: 1\n    children: \x7b label: fee, id: 2 \x7d\n"

/-- It is read without a diagnostic, and the rule inside is lost. -/
theorem not_wrong_types_are_reported_misnested : ¬ ∀ (text : String) (v w : Value) (l : Location)
    (field : String), Value.ofText? text = some v → ofText text = .ok l →
      (∃ item ∈ listed v "children", Lists item w) → WrongType w field →
      ∃ m path diagnostics d, Holds l m ∧ m.kind = .imported path diagnostics ∧ d ∈ diagnostics ∧
        d.kind = .parseFailure := by
  intro claim
  have facts : ((Value.ofText? misnestedText).bind fun v => (listed v "children")[0]?.bind fun w =>
      (w.get? "children").bind fun x => (ofText misnestedText).toOption.map fun l => decide
        (x.asSequence?.isNone ∧ x.isNull = false ∧ l.kind = .imported none [] ∧
          ∀ c ∈ l.children, c.isImport = false ∧ c.children.length = 0)) = some true := by
    decide +kernel
  obtain ⟨v, hv, facts⟩ := Option.bind_eq_some_iff.mp facts
  obtain ⟨w, hw, facts⟩ := Option.bind_eq_some_iff.mp facts
  obtain ⟨x, hx, facts⟩ := Option.bind_eq_some_iff.mp facts
  obtain ⟨l, hl, facts⟩ := Option.map_eq_some_iff.mp facts
  obtain ⟨hlist, hnull, hkind, hchildren⟩ := of_decide_eq_true facts
  have hwrong : WrongType w "children" := .children hx (Option.isNone_iff_eq_none.mp hlist) hnull
  obtain ⟨m, path, diagnostics, d, hm, himported, hd, -⟩ := claim misnestedText v w l "children" hv
    (eq_ok_of_toOption hl) ⟨w, List.mem_of_getElem? hw, .self w⟩ hwrong
  cases hm with
  | self =>
    rw [hkind] at himported
    cases himported
    cases hd
  | @child _ c _ hc hm =>
    obtain ⟨hrule, hnone⟩ := hchildren c hc
    cases hm with
    | self => simp [Location.isImport, himported, LocationKind.isImport] at hrule
    | child hc' => simp [List.length_eq_zero_iff.mp hnone] at hc'

end Location

end RuleScope
