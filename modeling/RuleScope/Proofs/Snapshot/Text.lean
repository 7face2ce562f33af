import RuleScope.Proofs.Json.Layout
import RuleScope.Proofs.Json.Values
import RuleScope.Proofs.Snapshot.Reading

namespace RuleScope

namespace Json

variable {lay : Layout} {level : Nat}

theorem Doc.keyed?_docFields (fields : List (String × Json)) :
    Doc.keyed? (docFields lay level fields) =
      some (fields.map fun f => (f.1, doc lay (level + 1) f.2)) := by
  induction fields with
  | nil => rfl
  | cons f rest ih =>
    rw [Doc.keyed?] at ih
    cases rest <;> simp_all [docFields, Doc.keyed?, StringText.text?_ofText]

/-- The written fields are read in order, where each is read by its key. -/
theorem Reader.outcome_docFields {σ : Type} {d : Nat} {s : List Char} {step : σ → String → Reader σ}
    {f : σ → String → Option σ} {fields : List (String × Json)}
    (h : ∀ x ∈ fields, ∀ a, FieldDenotes (step a x.1) d (doc lay (level + 1) x.2) (f a x.1))
    (start : σ) (inside : Blanks) :
    Outcome (Reader.fields step start) d
      (inside.chars ++ (Doc.fieldsFrom true (docFields lay level fields) ++ '\x7d' :: s))
      ((fields.map Prod.fst).foldlM f start) ('\x7d' :: s) := by
  have hstep : ∀ x ∈ docFields lay level fields, ∀ a k, x.1.key.text? = some k →
      FieldDenotes (step a k) d x.2 (f a k) := by
    intro x hx a k hk
    obtain ⟨y, hy, hkey, hvalue⟩ := mem_docFields hx
    rw [hkey, StringText.text?_ofText] at hk
    cases hk
    rw [hvalue]
    exact h y hy a
  have hfields := outcome_fields (s := s) (f := fun a k _ => f a k) hstep start inside
  rwa [Doc.keyed?_docFields, Option.bind_some, List.foldlM_map, ← List.foldlM_map] at hfields

end Json

namespace Snapshot

open Json Json.Reader

mutual
/-- The number of entries on the longest way down, this one included. -/
def Entry.height : Entry → Nat
  | ⟨_, _, _, children⟩ => 1 + heightAll children

def heightAll : List (String × Entry) → Nat
  | [] => 0
  | (_, e) :: rest => max e.height (heightAll rest)
end

theorem Entry.height_eq (e : Entry) : e.height = 1 + heightAll e.children := by
  cases e
  rw [Entry.height]

theorem heightAll_le_iff {entries : List (String × Entry)} {n : Nat} :
    heightAll entries ≤ n ↔ ∀ c ∈ entries, c.2.height ≤ n := by
  induction entries with
  | nil => simp [heightAll]
  | cons c rest ih =>
    have hmax : heightAll (c :: rest) = max c.2.height (heightAll rest) := rfl
    rw [hmax, List.forall_mem_cons, ← ih]
    omega

/-- The entry, where so many nested containers have room for it. -/
def Entry.within? (d : Nat) (e : Entry) : Option Entry := if 2 * e.height ≤ d then some e else none

section

variable {α : Type} {entries : List (String × α)}

theorem Sorted.find?_of_mem (h : Sorted entries) {c : String × α} (hc : c ∈ entries) :
    find? c.1 entries = some c.2 := by
  induction entries with
  | nil => cases hc
  | cons b rest ih =>
    obtain ⟨hb, hrest⟩ := List.pairwise_cons.mp h
    rcases List.mem_cons.mp hc with rfl | hc
    · simp [find?]
    · have hne : c.1 ≠ b.1 := (hb c hc).ne'
      rw [find?, if_neg hne]
      exact ih hrest hc

/-- What comes behind all labels is entered at the end. -/
theorem insert_eq_append {label : String} {a : α} (h : ∀ b ∈ entries, b.1 < label) :
    insert label a entries = entries ++ [(label, a)] := by
  induction entries with
  | nil => rfl
  | cons b rest ih =>
    have hlt := h b List.mem_cons_self
    have hrest := ih fun c hc => h c (List.mem_cons_of_mem _ hc)
    rw [insert, if_neg (lt_asymm hlt), if_neg hlt.ne', hrest, List.cons_append]

/-- Values whose labels are in order are entered one by one as they stand. -/
theorem foldlM_insert (g : String → Option α) (p : α → Prop) [DecidablePred p]
    (seen : List (String × α)) (hs : Sorted (seen ++ entries))
    (hg : ∀ c ∈ entries, g c.1 = if p c.2 then some c.2 else none) :
    (entries.map Prod.fst).foldlM (fun seen label => (g label).map fun a => insert label a seen) seen =
      if ∀ c ∈ entries, p c.2 then some (seen ++ entries) else none := by
  induction entries generalizing seen with
  | nil => simp
  | cons c rest ih =>
    obtain ⟨hc, hrest⟩ := List.forall_mem_cons.mp hg
    rw [List.map_cons, List.foldlM_cons, hc]
    by_cases hp : p c.2
    · have hlast : ∀ b ∈ seen, b.1 < c.1 := fun b hb =>
        (List.pairwise_append.mp hs).2.2 b hb c List.mem_cons_self
      have hnext := ih (seen ++ [c]) (by simpa using hs) hrest
      rw [if_pos hp, Option.map_some, Option.bind_eq_bind, Option.bind_some, insert_eq_append hlast]
      simp only [List.forall_mem_cons, hp, true_and]
      simpa using hnext
    · simp [hp]

end

theorem Entry.map_fst_toFields (entries : List (String × Entry)) :
    (toFields entries).map Prod.fst = entries.map Prod.fst := by
  induction entries with
  | nil => rfl
  | cons c rest ih => rw [toFields, List.map_cons, ih, List.map_cons]

theorem Entry.mem_toFields {entries : List (String × Entry)} {f : String × Json}
    (h : f ∈ toFields entries) : ∃ c ∈ entries, f = (c.1, c.2.toJson) := by
  induction entries with
  | nil => cases h
  | cons c rest ih =>
    rw [toFields] at h
    rcases List.mem_cons.mp h with rfl | h
    · exact ⟨c, List.mem_cons_self, rfl⟩
    · obtain ⟨b, hb, he⟩ := ih h
      exact ⟨b, List.mem_cons_of_mem _ hb, he⟩

variable {lay : Layout} {level d : Nat}

theorem denotes_childrenReader {r : Reader Entry} {children : List (String × Entry)}
    (hs : Sorted children)
    (h : ∀ c ∈ children, Denotes r (d - 1) (doc lay (level + 1) c.2.toJson) (c.2.within? (d - 1))) :
    Denotes (childrenReader r) d (doc lay level (.object (Entry.toFields children)))
      (if 1 < d ∧ 2 * heightAll children < d then some children else none) := by
  have hfield : ∀ x ∈ Entry.toFields children, ∀ seen : List (String × Entry),
      FieldDenotes (do
          colon
          let e ← r
          pure (insert x.1 e seen)) (d - 1) (doc lay (level + 1) x.2)
        (((find? x.1 children).bind (Entry.within? (d - 1))).map fun e => insert x.1 e seen) := by
    intro x hx seen
    obtain ⟨c, hc, rfl⟩ := Entry.mem_toFields hx
    have hread : Denotes (do
        let e ← r
        pure (insert c.1 e seen)) (d - 1) (doc lay (level + 1) c.2.toJson)
        ((c.2.within? (d - 1)).map fun e => insert c.1 e seen) := (h c hc).map _
    rw [hs.find?_of_mem hc, Option.bind_some]
    exact hread.field
  have hfold := foldlM_insert (fun label => (find? label children).bind (Entry.within? (d - 1)))
    (fun e => 2 * e.height ≤ d - 1) [] hs fun c hc => by
      rw [hs.find?_of_mem hc, Option.bind_some, Entry.within?]
  have hdeep : (∀ c ∈ children, 2 * c.2.height ≤ d - 1) ↔ 2 * heightAll children ≤ d - 1 := by
    have hhalf : heightAll children ≤ (d - 1) / 2 ↔ ∀ c ∈ children, c.2.height ≤ (d - 1) / 2 :=
      heightAll_le_iff
    simp only [Nat.le_div_iff_mul_le Nat.zero_lt_two, Nat.mul_comm _ 2] at hhalf
    exact hhalf.symm
  have hmap : Denotes (childrenReader r) d (doc lay level (.object (Entry.toFields children)))
      (if 1 < d then ((Entry.toFields children).map Prod.fst).foldlM (fun seen label =>
        ((find? label children).bind (Entry.within? (d - 1))).map fun e => insert label e seen) []
      else none) :=
    denotes_map .none fun s _ => outcome_docFields hfield [] .none
  rw [Entry.map_fst_toFields, hfold] at hmap
  convert hmap using 1
  simp only [hdeep, List.nil_append]
  split_ifs <;> first | rfl | omega

theorem fieldDenotes_once {σ α : Type} {r : Reader α} {v : Doc} {o : Option α} (name : String)
    (before : Option α) (f : Option α → σ) (h : Denotes r d v o) :
    FieldDenotes (do
        let a ← once name before r
        pure (f a)) d v ((if before.isSome then none else o.map some).map f) :=
  fun middle gap s hs => (h.once name before middle gap s hs).map f

/-- The written field of an entry, added to those read before it. Only the children can be too much
to be read. -/
def EntryFields.add? (e : Entry) (children : Option (List (String × Entry))) (f : EntryFields)
    (key : String) : Option EntryFields :=
  if key = "expanded" then (if f.expanded.isSome then none else some (some e.expanded)).map fun o =>
    { f with expanded := o }
  else if key = "state" then (if f.state.isSome then none else some (some e.state)).map fun o =>
    { f with state := o }
  else if key = "is_import" then
    (if f.isImport.isSome then none else some (some e.isImport)).map fun o => { f with isImport := o }
  else (if f.children.isSome then none else children.map some).map fun o => { f with children := o }

/-- The fields of an entry; the children are left out of the text where there are none. -/
def Entry.fields (e : Entry) : List (String × Json) :=
  [("expanded", .boolean e.expanded), ("state", .string e.state.key),
    ("is_import", .boolean e.isImport), ("children", .object (toFields e.children))]

theorem Entry.toJson_eq (e : Entry) :
    e.toJson = .object (if e.children = [] then e.fields.take 3 else e.fields) := by
  obtain ⟨expanded, state, isImport, children⟩ := e
  cases children <;> rfl

theorem fieldDenotes_entryField {r : Reader Entry} {e : Entry} {o : Option (List (String × Entry))}
    (h : Denotes (childrenReader r) d (doc lay level (.object (Entry.toFields e.children))) o) :
    ∀ x ∈ e.fields, ∀ f, FieldDenotes (entryField r f x.1) d (doc lay level x.2) (f.add? e o x.1) := by
  have hboolean : ∀ b, Denotes boolean d (doc lay level (.boolean b)) (some b) :=
    fun b => denotes_boolean (.boolean b)
  have hstate : Denotes stateReader d (doc lay level (.string e.state.key)) (some e.state) := by
    have hread := denotes_variant_string (d := d) stateNames LoggingState.ofKey? (.ofText e.state.key)
    rwa [StringText.text?_ofText, Option.bind_some, LoggingState.ofKey?_key] at hread
  simp only [Entry.fields, List.forall_mem_cons, List.not_mem_nil, false_imp_iff, implies_true,
    and_true]
  exact ⟨fun _ => fieldDenotes_once _ _ _ (hboolean e.expanded),
    fun _ => fieldDenotes_once _ _ _ hstate,
    fun _ => fieldDenotes_once _ _ _ (hboolean e.isImport), fun _ => fieldDenotes_once _ _ _ h⟩

theorem foldlM_add? (e : Entry) (o : Option (List (String × Entry))) :
    ((((if e.children = [] then e.fields.take 3 else e.fields).map Prod.fst).foldlM
        (EntryFields.add? e o) ⟨none, none, none, none⟩).bind fun f => f.state.map f.toEntry) =
      if e.children = [] then some e else o.map fun l => { e with children := l } := by
  obtain ⟨expanded, state, isImport, children⟩ := e
  cases children with
  | nil => simp [Entry.fields, EntryFields.add?, EntryFields.toEntry]
  | cons c rest => cases o <;> simp [Entry.fields, EntryFields.add?, EntryFields.toEntry]

/-- An entry takes two containers for each level of entries. -/
theorem denotes_entryReader {levels : Nat} {e : Entry} (hd : d ≤ levels) (h : e.Ordered) :
    Denotes (entryReader levels) d (doc lay level e.toJson) (e.within? d) := by
  induction levels generalizing d level e with
  | zero =>
    have hnone : e.within? d = none := by
      have hpos := e.height_eq
      rw [Entry.within?, if_neg (by omega)]
    rw [hnone]
    exact fun _ _ _ => Refuses.failAhead _
  | succ levels ih =>
    have hordered := Entry.ordered_iff.mp h
    have hchildren : Denotes (childrenReader (entryReader levels)) (d - 1)
        (doc lay (level + 1) (.object (Entry.toFields e.children)))
        (if 1 < d - 1 ∧ 2 * heightAll e.children < d - 1 then some e.children else none) := by
      apply denotes_childrenReader hordered.1
      intro c hc
      have hc' := hordered.2 c.1 c.2 (hordered.1.find?_of_mem hc)
      exact ih (by omega) hc'
    have hfield : ∀ x ∈ if e.children = [] then e.fields.take 3 else e.fields, x ∈ e.fields := by
      intro x hx
      split at hx
      · exact List.mem_of_mem_take hx
      · exact hx
    have hread : Denotes (entryReader (levels + 1)) d (doc lay level e.toJson)
        (if 1 < d then if e.children = [] then some e
          else (if 1 < d - 1 ∧ 2 * heightAll e.children < d - 1 then some e.children else none).map
            fun l => { e with children := l }
        else none) := by
      rw [← foldlM_add?, Entry.toJson_eq, doc]
      refine denotes_record _ .none fun s _ => (outcome_docFields
        (fun x hx => fieldDenotes_entryField hchildren x (hfield x hx)) _ .none).bind fun f _ => ?_
      cases f.state with
      | some state => exact .pure _
      | none => exact Refuses.failData _
    convert hread using 1
    have hheight := e.height_eq
    rw [Entry.within?]
    by_cases hnone : e.children = []
    · rw [hnone, heightAll] at hheight
      rw [if_pos hnone]
      split_ifs <;> first | rfl | omega
    · have hpos : 1 ≤ heightAll e.children := by
        obtain ⟨c, hc⟩ := List.exists_mem_of_ne_nil _ hnone
        have hle := heightAll_le_iff.mp (Nat.le_refl _) c hc
        have := c.2.height_eq
        omega
      rw [if_neg hnone]
      cases e
      split_ifs <;> first | rfl | omega

/-- The number of entries on the longest way down. -/
def height (s : Snapshot) : Nat := (s.root.map Entry.height).getD 0

/-- The written field of a snapshot, added to those read before it. Only the root can be too much to
be read. -/
def Fields.add? (s : Snapshot) (root : Option (Option Entry)) (f : Fields) (key : String) :
    Option Fields :=
  if key = "version" then (if f.version.isSome then none else some (some s.version)).map fun o =>
    { f with version := o }
  else if key = "root_label" then
    (if f.rootLabel.isSome then none else some (some s.rootLabel)).map fun o => { f with rootLabel := o }
  else (if f.root.isSome then none else root.map some).map fun o => { f with root := o }

theorem denotes_versionReader {n : Nat} (h : n ≤ Text.maxNat32) :
    Denotes versionReader d (doc lay level (.integer n)) (some n) := by
  have hle : (n : Int) ≤ Text.maxNat32 := by exact_mod_cast h
  have hbig : (n : Int) ≤ Text.maxNat64 := hle.trans (by decide)
  have hsmall : -(Text.maxInt64 : Int) - 1 ≤ n := by omega
  have hvalue := (takes_number_numeral? (.ofInt n)).1.of_integer n (NumberText.integer?_ofInt n)
    hsmall hbig
  have hread : Denotes versionReader d (doc lay level (.integer n)) _ := denotes_numeral "u32" _
  have hnatural : numeralOf n = .natural n := by simp [numeralOf]
  rw [doc, Doc.numeral?, hvalue, hnatural, Option.bind_some, Numeral.toIntWithin, if_pos hle] at hread
  exact hread

/-- A value that is written as absent where there is none. -/
theorem denotes_optional_getD {α β : Type} {r : Reader β} {f : α → Json} {g : α → Option β}
    {o : Option α} (h : ∀ a ∈ o, Denotes r d (doc lay level (f a)) (g a))
    (hf : ∀ a, doc lay level (f a) ≠ .null) :
    Denotes (optional r) d (doc lay level ((o.map f).getD .null))
      (o.elim (some none) fun a => (g a).map some) := by
  cases o with
  | none => exact denotes_optional_null
  | some a => exact (h a rfl).optional (hf a)

/-- The fields of a snapshot stand one container deep, so the entries have 127 left. -/
theorem denotes_reader {s : Snapshot} (h : s.Ordered) (hv : s.version ≤ Text.maxNat32) :
    Denotes reader depthLimit (doc lay level s.toJson) (if s.height ≤ 63 then some s else none) := by
  have hlabel : Denotes (optional string) 127
      (doc lay (level + 1) ((s.rootLabel.map Json.string).getD .null)) (some s.rootLabel) := by
    have hstring : ∀ label ∈ s.rootLabel,
        Denotes string 127 (doc lay (level + 1) (.string label)) (some label) := by
      intro label _
      have hread := denotes_string (d := 127) (doc lay (level + 1) (.string label))
      rwa [doc, Doc.text?, StringText.text?_ofText] at hread
    have hoptional := denotes_optional_getD hstring fun label => by simp [doc]
    cases hl : s.rootLabel <;> rw [hl] at hoptional <;> exact hoptional
  have hroot : Denotes (optional rootReader) 127
      (doc lay (level + 1) ((s.root.map Entry.toJson).getD .null))
      (if s.height ≤ 63 then some s.root else none) := by
    have hentry : ∀ e ∈ s.root, Denotes rootReader 127 (doc lay (level + 1) e.toJson)
        (e.within? 127) := fun e he => denotes_entryReader (by decide) (h e he)
    have hoptional := denotes_optional_getD hentry fun e => by simp [Entry.toJson_eq, doc]
    convert hoptional using 1
    rw [height]
    cases s.root with
    | none => rfl
    | some e =>
      simp only [Option.map_some, Option.getD_some, Option.elim_some, Entry.within?]
      split_ifs <;> first | rfl | omega
  have hfield : ∀ x ∈ [("version", Json.integer s.version),
      ("root_label", (s.rootLabel.map Json.string).getD .null),
      ("root", (s.root.map Entry.toJson).getD .null)], ∀ f : Fields,
        FieldDenotes (field f x.1) 127 (doc lay (level + 1) x.2)
          (f.add? s (if s.height ≤ 63 then some s.root else none) x.1) := by
    simp only [List.forall_mem_cons, List.not_mem_nil, false_imp_iff, implies_true, and_true]
    exact ⟨fun _ => fieldDenotes_once _ _ _ (denotes_versionReader hv),
      fun _ => fieldDenotes_once _ _ _ hlabel, fun _ => fieldDenotes_once _ _ _ hroot⟩
  have hread : Denotes reader depthLimit (doc lay level s.toJson) (if 1 < depthLimit then
      (["version", "root_label", "root"].foldlM
        (Fields.add? s (if s.height ≤ 63 then some s.root else none)) ⟨none, none, none⟩).map
          Fields.toSnapshot else none) :=
    denotes_record _ .none fun _ _ => (outcome_docFields hfield _ .none).map Fields.toSnapshot
  rw [if_pos (by decide)] at hread
  convert hread using 1
  split_ifs <;> simp [Fields.add?, Fields.toSnapshot]

/-- A snapshot is read back from its text exactly if it is not too high. -/
theorem ofText_toText {s : Snapshot} (h : s.Ordered) (hv : s.version ≤ Text.maxNat32) :
    (ofText s.toText).toOption = if s.height ≤ 63 then some s else none := by
  have hchars : s.toText.toList = (doc .pretty 0 s.toJson).chars := by
    rw [chars_doc_pretty, toText, pretty, String.toList_ofList]
  apply run_of_outcome .none
  have hdenotes : Denotes reader depthLimit (doc .pretty 0 s.toJson)
      (if s.height ≤ 63 then some s else none) := denotes_reader h hv
  have hread := hdenotes .none [] (by simp [EndsNumber])
  simpa [hchars, Blanks.none] using hread

end Snapshot

end RuleScope
