import RuleScope.Proofs.Json.Document
import RuleScope.Proofs.Text.Digits

namespace RuleScope.Json

open Text

theorem hexValue?_digitChar : ∀ d < 16, hexValue? (digitChar d) = some d := by decide

theorem hexFour?_digitChars {n : Nat} (h : n < 256) :
    Reader.hexFour? '0' '0' (digitChar (n / 16 % 16)) (digitChar (n % 16)) = some n := by
  have hzero : hexValue? '0' = some 0 := rfl
  simp only [Reader.hexFour?, hzero, hexValue?_digitChar _ (Nat.mod_lt _ (by decide : 16 > 0)),
    Option.bind_eq_bind, Option.bind_some, Option.pure_def, Option.some.injEq]
  omega

/-- The character as it is written in a string. -/
def Glyph.ofChar (c : Char) : Glyph :=
  if hq : c = '"' then .short '"' '"' rfl
  else if hb : c = '\\' then .short '\\' '\\' rfl
  else if c = '\n' then .short 'n' '\n' rfl
  else if c = '\r' then .short 'r' '\r' rfl
  else if c = '\t' then .short 't' '\t' rfl
  else if c = '\x08' then .short 'b' '\x08' rfl
  else if c = '\x0c' then .short 'f' '\x0c' rfl
  else if hc : c.toNat < 32 then
    .unit '0' '0' (digitChar (c.toNat / 16 % 16)) (digitChar (c.toNat % 16)) c.toNat
      (hexFour?_digitChars (by omega))
  else .plain c (by omega) hq hb

theorem Glyph.chars_ofChar (c : Char) : (Glyph.ofChar c).chars = escapeChar c := by
  unfold Glyph.ofChar escapeChar
  split_ifs <;> rfl

theorem Glyph.decode?_ofChar (c : Char) (rest : List Glyph) :
    decode? (Glyph.ofChar c :: rest) = (decode? rest).map (c :: ·) := by
  unfold Glyph.ofChar
  by_cases hc : c.toNat < 32
  · have hleading : ¬IsLeading c.toNat := by unfold IsLeading; omega
    have htrailing : ¬IsTrailing c.toNat := by unfold IsTrailing; omega
    split_ifs <;> first
      | (subst_vars; rfl)
      | (rw [decode?.eq_def]; simp only [if_neg htrailing, if_pos hleading, Char.ofNat_toNat])
  · split_ifs <;> first | rfl | (subst_vars; rfl)

def StringText.ofText (text : String) : StringText := ⟨text.toList.map Glyph.ofChar⟩

theorem StringText.chars_ofText (text : String) : (StringText.ofText text).chars = stringChars text := by
  have hglyphs : (text.toList.map Glyph.ofChar).flatMap Glyph.chars =
      text.toList.flatMap escapeChar := by
    rw [List.flatMap_map]
    exact congrArg (text.toList.flatMap ·) (funext Glyph.chars_ofChar)
  rw [StringText.chars, StringText.ofText, hglyphs, stringChars]

theorem StringText.text?_ofText (text : String) : (StringText.ofText text).text? = some text := by
  have hdecode : ∀ cs : List Char, Glyph.decode? (cs.map Glyph.ofChar) = some cs := by
    intro cs
    induction cs with
    | nil => rfl
    | cons c rest ih => rw [List.map_cons, Glyph.decode?_ofChar, ih, Option.map_some]
  rw [StringText.text?, StringText.ofText, hdecode, Option.map_some, String.ofList_toList]

def NumberText.ofInt (i : Int) : NumberText := ⟨decide (i < 0), i.natAbs, none, none⟩

theorem NumberText.chars_ofInt (i : Int) : (NumberText.ofInt i).chars = intChars i := by
  have htail : (NumberText.ofInt i).tail = [] := rfl
  have hunsigned : (NumberText.ofInt i).unsigned = natChars i.natAbs := by
    rw [NumberText.unsigned, htail, List.append_nil]
    rfl
  rw [NumberText.chars, hunsigned]
  cases i with
  | ofNat n => rfl
  | negSucc n =>
    have hnegative : (NumberText.ofInt (Int.negSucc n)).negative = true :=
      decide_eq_true (Int.negSucc_lt_zero n)
    rw [hnegative, if_pos rfl]
    rfl

theorem NumberText.integer?_ofInt (i : Int) : (NumberText.ofInt i).integer? = some i := by
  unfold NumberText.integer? NumberText.ofInt
  by_cases h : i < 0
  · have hne : i.natAbs ≠ 0 := by omega
    simp only [Option.isSome_none, Bool.false_eq_true, h, decide_true, hne, and_false, or_self,
      if_false, if_true, Option.some.injEq]
    omega
  · simp only [Option.isSome_none, Bool.false_eq_true, h, decide_false, false_and, or_self,
      if_false, Option.some.injEq]
    omega

/-- The blanks that stand before an item at each level, and behind a colon. -/
structure Layout where
  line : Nat → Blanks
  gap : Blanks

def Layout.compact : Layout := ⟨fun _ => .none, .none⟩

def Layout.pretty : Layout :=
  ⟨fun level => ⟨newline level, by simp [newline, Reader.isSpace]⟩, ⟨[' '], by simp [Reader.isSpace]⟩⟩

mutual
/-- The document that is written for a value at a level. -/
def doc (lay : Layout) (level : Nat) : Json → Doc
  | null => .null
  | boolean b => .boolean b
  | integer i => .number (.ofInt i)
  | string s => .string (.ofText s)
  | list items => .list .none (docItems lay level items)
  | object fields => .object .none (docFields lay level fields)

def docItems (lay : Layout) (level : Nat) : List Json → List (Margins × Doc)
  | [] => []
  | [x] => [(⟨lay.line (level + 1), lay.line level⟩, doc lay (level + 1) x)]
  | x :: y :: rest =>
    (⟨lay.line (level + 1), .none⟩, doc lay (level + 1) x) :: docItems lay level (y :: rest)

def docFields (lay : Layout) (level : Nat) : List (String × Json) → List (Label × Doc)
  | [] => []
  | [(k, v)] =>
    [(⟨lay.line (level + 1), .ofText k, .none, lay.gap, lay.line level⟩, doc lay (level + 1) v)]
  | (k, v) :: f :: rest =>
    (⟨lay.line (level + 1), .ofText k, .none, lay.gap, .none⟩, doc lay (level + 1) v) ::
      docFields lay level (f :: rest)
end

theorem docItems_ne_nil (lay : Layout) (level : Nat) (x : Json) (rest : List Json) :
    docItems lay level (x :: rest) ≠ [] := by
  cases rest <;> simp [docItems]

theorem docFields_ne_nil (lay : Layout) (level : Nat) (f : String × Json)
    (rest : List (String × Json)) : docFields lay level (f :: rest) ≠ [] := by
  cases rest <;> simp [docFields]

theorem map_snd_docItems (lay : Layout) (level : Nat) (items : List Json) :
    (docItems lay level items).map Prod.snd = items.map (doc lay (level + 1)) := by
  induction items with
  | nil => rfl
  | cons x rest ih =>
    cases rest with
    | nil => rfl
    | cons y rest => exact congrArg _ ih

theorem mem_docFields {lay : Layout} {level : Nat} {fields : List (String × Json)}
    {x : Label × Doc} (h : x ∈ docFields lay level fields) :
    ∃ f ∈ fields, x.1.key = .ofText f.1 ∧ x.2 = doc lay (level + 1) f.2 := by
  induction fields with
  | nil => cases h
  | cons f rest ih =>
    cases rest with
    | nil =>
      obtain rfl := List.mem_singleton.mp h
      exact ⟨f, List.mem_cons_self, rfl, rfl⟩
    | cons g rest =>
      rw [docFields] at h
      rcases List.mem_cons.mp h with rfl | h
      · exact ⟨f, List.mem_cons_self, rfl, rfl⟩
      · obtain ⟨f', hf', hx⟩ := ih h
        exact ⟨f', List.mem_cons_of_mem _ hf', hx⟩

theorem Doc.itemsChars_eq_cons {items : List (Margins × Doc)} (h : items ≠ []) :
    Doc.itemsChars items = ',' :: (Doc.itemsChars items).tail := by
  cases items with
  | nil => exact absurd rfl h
  | cons x rest => rfl

theorem Doc.fieldsChars_eq_cons {fields : List (Label × Doc)} (h : fields ≠ []) :
    Doc.fieldsChars fields = ',' :: (Doc.fieldsChars fields).tail := by
  cases fields with
  | nil => exact absurd rfl h
  | cons x rest => rfl

mutual
theorem chars_doc_compact (level : Nat) : ∀ j : Json, (doc .compact level j).chars = compactChars j
  | null => rfl
  | boolean b => rfl
  | integer i => NumberText.chars_ofInt i
  | string s => StringText.chars_ofText s
  | list items => by
    rw [doc, compactChars, ← itemsChars_compact level items, Doc.chars]
    rfl
  | object fields => by
    rw [doc, compactChars, ← fieldsChars_compact level fields, Doc.chars]
    rfl

theorem itemsChars_compact (level : Nat) : ∀ items : List Json,
    (Doc.itemsChars (docItems .compact level items)).tail = compactItems items
  | [] => rfl
  | [x] => by
    rw [docItems, Doc.itemsChars, List.tail_cons, chars_doc_compact, compactItems]
    simp [Doc.itemsChars, Layout.compact, Blanks.none]
  | x :: y :: rest => by
    rw [docItems, Doc.itemsChars, List.tail_cons, chars_doc_compact, compactItems,
      Doc.itemsChars_eq_cons (docItems_ne_nil _ _ y rest), itemsChars_compact level (y :: rest)]
    rfl

theorem fieldsChars_compact (level : Nat) : ∀ fields : List (String × Json),
    (Doc.fieldsChars (docFields .compact level fields)).tail = compactFields fields
  | [] => rfl
  | [(k, v)] => by
    rw [docFields, Doc.fieldsChars, List.tail_cons, chars_doc_compact, compactFields]
    simp [Doc.fieldsChars, Layout.compact, Blanks.none, StringText.chars_ofText]
  | (k, v) :: f :: rest => by
    rw [docFields, Doc.fieldsChars, List.tail_cons, chars_doc_compact, compactFields,
      Doc.fieldsChars_eq_cons (docFields_ne_nil _ _ f rest), fieldsChars_compact level (f :: rest)]
    simp [Layout.compact, Blanks.none, StringText.chars_ofText]
end

mutual
theorem chars_doc_pretty (level : Nat) : ∀ j : Json, (doc .pretty level j).chars = prettyChars level j
  | null => rfl
  | boolean b => rfl
  | integer i => NumberText.chars_ofInt i
  | string s => StringText.chars_ofText s
  | list items => by
    have hitems := itemsChars_pretty level items
    cases items with
    | nil => rfl
    | cons x rest =>
      rw [doc, prettyChars, Doc.chars, hitems (by simp)]
      simp [Blanks.none]
  | object fields => by
    have hfields := fieldsChars_pretty level fields
    cases fields with
    | nil => rfl
    | cons f rest =>
      rw [doc, prettyChars, Doc.chars, hfields (by simp)]
      simp [Blanks.none]

theorem itemsChars_pretty (level : Nat) : ∀ items : List Json, items ≠ [] →
    (Doc.itemsChars (docItems .pretty level items)).tail =
      newline (level + 1) ++ (prettyItems (level + 1) items ++ newline level)
  | [], h => absurd rfl h
  | [x], _ => by
    rw [docItems, Doc.itemsChars, List.tail_cons, chars_doc_pretty, prettyItems]
    simp [Doc.itemsChars, Layout.pretty]
  | x :: y :: rest, _ => by
    rw [docItems, Doc.itemsChars, List.tail_cons, chars_doc_pretty, prettyItems,
      Doc.itemsChars_eq_cons (docItems_ne_nil _ _ y rest),
      itemsChars_pretty level (y :: rest) (by simp)]
    simp [Layout.pretty, Blanks.none]

theorem fieldsChars_pretty (level : Nat) : ∀ fields : List (String × Json), fields ≠ [] →
    (Doc.fieldsChars (docFields .pretty level fields)).tail =
      newline (level + 1) ++ (prettyFields (level + 1) fields ++ newline level)
  | [], h => absurd rfl h
  | [(k, v)], _ => by
    rw [docFields, Doc.fieldsChars, List.tail_cons, chars_doc_pretty, prettyFields]
    simp [Doc.fieldsChars, Layout.pretty, Blanks.none, StringText.chars_ofText]
  | (k, v) :: f :: rest, _ => by
    rw [docFields, Doc.fieldsChars, List.tail_cons, chars_doc_pretty, prettyFields,
      Doc.fieldsChars_eq_cons (docFields_ne_nil _ _ f rest),
      fieldsChars_pretty level (f :: rest) (by simp)]
    simp [Layout.pretty, Blanks.none, StringText.chars_ofText]
end

end RuleScope.Json
