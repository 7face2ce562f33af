import RuleScope.Proofs.Location.Nesting

namespace RuleScope

open Yaml

namespace Yaml.Value

theorem one_le_height (v : Value) : 1 ≤ v.height := by
  cases v <;> simp only [height] <;> omega

theorem height_untag_le (v : Value) : v.untag.height ≤ v.height := by
  induction v using untag.induct with
  | case1 tag v ih =>
    rw [untag, height]
    omega
  | case2 v hv =>
    exact Nat.le_of_eq (congrArg height (untag.eq_2 v hv))

theorem height_of_asMapping? {v : Value} {fields : List (Value × Value)}
    (h : v.asMapping? = some fields) : 1 + heightFields fields ≤ v.height := by
  unfold asMapping? at h
  split at h
  next hv =>
    cases h
    have hle := height_untag_le v
    rwa [hv, height] at hle
  next => cases h

theorem height_of_asSequence? {v : Value} {items : List Value} (h : v.asSequence? = some items) :
    1 + heightItems items ≤ v.height := by
  unfold asSequence? at h
  split at h
  next hv =>
    cases h
    have hle := height_untag_le v
    rwa [hv, height] at hle
  next => cases h

theorem height_le_heightItems {v : Value} {items : List Value} (h : v ∈ items) :
    v.height ≤ heightItems items := by
  induction items with
  | nil => cases h
  | cons w rest ih =>
    rw [heightItems]
    rcases List.mem_cons.mp h with rfl | h
    · exact Nat.le_max_left _ _
    · exact Nat.le_trans (ih h) (Nat.le_max_right _ _)

theorem height_lookup {key : String} {fields : List (Value × Value)} {v : Value}
    (h : lookup key fields = some v) : v.height ≤ heightFields fields := by
  induction fields using lookup.induct key with
  | case1 => cases h
  | case2 w rest =>
    rw [lookup, if_pos rfl] at h
    cases h
    rw [heightFields]
    omega
  | case3 s w rest hne ih =>
    rw [lookup, if_neg hne] at h
    have := ih h
    rw [heightFields]
    omega
  | case4 f rest hs ih =>
    rw [lookup] at h
    · have hrest := ih h
      have hmax : heightFields (f :: rest) =
          max (max f.1.height f.2.height) (heightFields rest) := rfl
      omega
    · exact hs

theorem height_get?_lt {v w : Value} {key : String} (h : v.get? key = some w) :
    w.height < v.height := by
  obtain ⟨fields, hfields, hlookup⟩ := Option.bind_eq_some_iff.mp h
  have hle := height_lookup hlookup
  have hfields := height_of_asMapping? hfields
  omega

end Yaml.Value

namespace Location

/-- The items of the list in a field, looking through tags. A field that is no list has none. -/
def listed (v : Value) (field : String) : List Value :=
  ((v.get? field).bind Value.asSequence?).getD []

/-- The parse failure of a field that is neither null nor a list. -/
def misplaced (v : Value) (field : String) (line : Nat) : List Diagnostic :=
  match v.get? field with
  | some w =>
    if w.isNull || w.asSequence?.isSome then []
    else [⟨.parseFailure, "field '" ++ field ++ "' is not a list", line, 0⟩]
  | none => []

/-- The line an entry has, if that can be read. -/
def ownLine? (v : Value) : Option Nat := (v.get? "line").bind natural?

theorem height_listed_lt {v item : Value} {field : String} (h : item ∈ listed v field) :
    item.height < v.height := by
  unfold listed at h
  cases hw : (v.get? field).bind Value.asSequence? with
  | none => simp [hw] at h
  | some items =>
    obtain ⟨w, hget, hitems⟩ := Option.bind_eq_some_iff.mp hw
    rw [hw, Option.getD_some] at h
    have hinside := Value.height_get?_lt hget
    have hseq := Value.height_of_asSequence? hitems
    have hitem := Value.height_le_heightItems h
    omega

theorem childItems_eq (v : Value) (line : Nat) :
    childItems v line = (listed v "children", misplaced v "children" line) := by
  unfold childItems listed misplaced
  cases v.get? "children" with
  | none => rfl
  | some w =>
    cases hw : w.asSequence? with
    | some items => simp [hw]
    | none =>
      cases hn : w.isNull <;> simp [hw, hn]
      rfl

/-- What an item under errors becomes: a diagnostic, or a parse failure at the line of the import. -/
def diagnosed (line : Nat) (item : Value) : Diagnostic :=
  match diagnosticOf item with
  | .ok d => d
  | .error m => ⟨.parseFailure, "unreadable diagnostic: " ++ m.message wording, line, 0⟩

theorem listedDiagnostics_eq (v : Value) (line : Nat) :
    listedDiagnostics v line =
      (listed v "errors").map (diagnosed line) ++ misplaced v "errors" line := by
  unfold listedDiagnostics listed misplaced
  cases v.get? "errors" with
  | none => rfl
  | some w =>
    cases hw : w.asSequence? with
    | some items =>
      simp only [hw, Option.bind_some, Option.getD_some, Option.isSome_some, Bool.or_true, if_true,
        List.append_nil]
      rfl
    | none =>
      cases hn : w.isNull <;> simp [hw, hn]
      rfl

theorem faultLine_eq (v : Value) (line : Nat) : faultLine v line = (ownLine? v).getD line := by
  unfold faultLine optionalNatural ownLine?
  cases v.get? "line" with
  | none => rfl
  | some w =>
    cases hw : natural? w with
    | some n =>
      have hnull : w ≠ .null := by
        rintro rfl
        cases hw
      simp [hw]
    | none => cases w <;> simp [hw]

theorem nestedItems_subset {v item : Value} (h : item ∈ nestedItems v) :
    item ∈ listed v "children" := by
  unfold nestedItems at h
  split at h
  next items hget => simpa [listed, hget, Value.asSequence?, Value.untag] using h
  next => cases h

/-- What an entry says of itself. -/
inductive Head where
  | imported (label : String) (line : Nat) (path : Option String)
  | rule (label : String) (line : Nat) (id : RuleId) (terms : List String)
  deriving DecidableEq, Repr

def Head.line : Head → Nat
  | .imported _ line _ => line
  | .rule _ line _ _ => line

/-- Reads an entry without what is below it. -/
def headOf (v : Value) : Except EntryFault Head := do
  if v.asMapping?.isNone then .error .notMapping
  let label ← labelOf v
  let line := (← optionalNatural v "line").getD 0
  if ← importOf v label then
    return .imported label line (← pathOf v label)
  else
    let id ← idOf v label
    return .rule label line id (← baseTermsOf v label)

/-- The fields that a head is read from. -/
def headFields : List String := ["label", "line", "kind", "id", "path", "baseTerms"]

/-- A head is read from its own fields: neither children nor errors have a part in it. -/
theorem headOf_congr {v w : Value} (hmapping : v.asMapping?.isNone = w.asMapping?.isNone)
    (h : ∀ field ∈ headFields, v.get? field = w.get? field) : headOf v = headOf w := by
  simp only [headFields, List.forall_mem_cons, List.not_mem_nil, false_implies, implies_true,
    and_true] at h
  obtain ⟨hlabel, hline, hkind, hid, hpath, hterms⟩ := h
  unfold headOf labelOf optionalNatural importOf pathOf idOf baseTermsOf
  rw [hmapping, hlabel, hline, hkind, hid, hpath, hterms]

theorem ownLine?_of_optionalNatural {v : Value} {line : Option Nat}
    (h : optionalNatural v "line" = .ok line) : ownLine? v = line := by
  unfold optionalNatural at h
  unfold ownLine?
  cases hget : v.get? "line" with
  | none =>
    rw [hget] at h
    cases h
    rfl
  | some w =>
    rw [hget] at h
    rw [Option.bind_some]
    by_cases hnull : w = .null
    · subst hnull
      cases h
      rfl
    · cases hw : natural? w with
      | none => simp [hw] at h
      | some n => simpa [hw] using h

/-- An entry with no line is at line 0. -/
theorem line_of_headOf {v : Value} {head : Head} (h : headOf v = .ok head) :
    head.line = (ownLine? v).getD 0 := by
  unfold headOf at h
  split at h
  next => cases h
  next =>
    obtain ⟨label, -, h⟩ := exists_of_bind_eq_ok h
    obtain ⟨line, hline, h⟩ := exists_of_bind_eq_ok h
    obtain ⟨imported, -, h⟩ := exists_of_bind_eq_ok h
    rw [ownLine?_of_optionalNatural hline]
    split at h
    · obtain ⟨path, -, h⟩ := exists_of_bind_eq_ok h
      cases h
      rfl
    · obtain ⟨id, -, h⟩ := exists_of_bind_eq_ok h
      obtain ⟨terms, -, h⟩ := exists_of_bind_eq_ok h
      cases h
      rfl

/-- An entry with this head and with what is below it. -/
def complete (below : Value → Except EntryFault Location) (v : Value) :
    Head → Except EntryFault Location
  | .imported label line path =>
    let (items, fault) := childItems v line
    let (children, skipped) := gather line (items.map fun item => (item, below item))
    .ok ⟨label, line, .imported path (listedDiagnostics v line ++ fault ++ skipped), children⟩
  | .rule label line id terms => do
    let children ← (nestedItems v).mapM fun item => nested label (below item)
    return ⟨label, line, .rule id (expressionOf v) terms, children⟩

theorem convertWith_eq (below : Value → Except EntryFault Location) (v : Value) :
    convertWith below v = headOf v >>= complete below v := by
  unfold convertWith headOf
  cases v.asMapping?.isNone with
  | true => rfl
  | false =>
    cases hlabel : labelOf v with
    | error e => rfl
    | ok label =>
      cases hline : optionalNatural v "line" with
      | error e => rfl
      | ok line =>
        cases himport : importOf v label with
        | error e => simp [himport, bind, Except.bind]
        | ok imported =>
          cases imported with
          | true =>
            cases hpath : pathOf v label with
            | error e => simp [himport, hpath, bind, Except.bind]
            | ok path => simp [himport, hpath, bind, Except.bind, pure, Except.pure, complete]
          | false =>
            cases hid : idOf v label with
            | error e => simp [himport, hid, bind, Except.bind]
            | ok id =>
              cases hterms : baseTermsOf v label with
              | error e => simp [himport, hid, hterms, bind, Except.bind]
              | ok terms =>
                simp [himport, hid, hterms, bind, Except.bind, pure, Except.pure, complete]

theorem mapM_congr {ε α β : Type} {f g : α → Except ε β} {as : List α}
    (h : ∀ a ∈ as, f a = g a) : as.mapM f = as.mapM g := by
  induction as with
  | nil => rfl
  | cons a rest ih =>
    rw [List.mapM_cons, List.mapM_cons, h a List.mem_cons_self,
      ih fun b hb => h b (List.mem_cons_of_mem a hb)]

/-- A conversion looks at what the entry lists and at nothing else below. -/
theorem convertWith_congr {f g : Value → Except EntryFault Location} {v : Value}
    (h : ∀ item ∈ listed v "children", f item = g item) : convertWith f v = convertWith g v := by
  rw [convertWith_eq, convertWith_eq]
  congr 1
  funext head
  cases head with
  | imported label line path =>
    have hitems : ((listed v "children").map fun item => (item, f item)) =
        (listed v "children").map fun item => (item, g item) :=
      List.map_congr_left fun item hitem => by rw [h item hitem]
    simp only [complete, childItems_eq, hitems]
  | rule label line id terms =>
    have hitems : ((nestedItems v).mapM fun item => nested label (f item)) =
        (nestedItems v).mapM fun item => nested label (g item) :=
      mapM_congr fun item hitem => by rw [h item (nestedItems_subset hitem)]
    simp only [complete, hitems]

theorem convertWithin_congr {n m : Nat} {v : Value} (hn : v.height ≤ n) (hm : v.height ≤ m) :
    convertWithin n v = convertWithin m v := by
  induction n generalizing m v with
  | zero =>
    have := v.one_le_height
    omega
  | succ n ih =>
    cases m with
    | zero =>
      have := v.one_le_height
      omega
    | succ m =>
      refine convertWith_congr fun item hitem => ?_
      have hlt := height_listed_lt hitem
      exact ih (by omega) (by omega)

/-- Conversion is one function for all heights. -/
theorem convert_eq (v : Value) : convert v = headOf v >>= complete convert v := by
  rw [← convertWith_eq]
  unfold convert
  cases hv : v.height with
  | zero =>
    have := v.one_le_height
    omega
  | succ n =>
    refine convertWith_congr fun item hitem => ?_
    have hlt := height_listed_lt hitem
    exact convertWithin_congr (by omega) (Nat.le_refl _)

end Location

end RuleScope
