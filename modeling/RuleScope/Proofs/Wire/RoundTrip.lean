import RuleScope.Proofs.Json.Layout
import RuleScope.Proofs.Wire.Lines

namespace RuleScope.Wire

open Json

/-- The compact text of an object is decoded as what its fields say. -/
theorem decode_compact_iff (fields : List (String × Json)) (r : Option Message) :
    decode (Json.object fields).compact = .ok r ↔
      Legible (docFields .compact 0 fields) ∧ Says (docFields .compact 0 fields) r := by
  have hdecode := decode_object_ok_iff .none .none .none (docFields .compact 0 fields) r
  have htext : (Blanks.none.chars ++ ((Doc.object .none (docFields .compact 0 fields)).chars ++
      Blanks.none.chars)) = compactChars (.object fields) := by
    rw [← chars_doc_compact 0, doc]
    exact (List.nil_append _).trans (List.append_nil _)
  rwa [htext] at hdecode

theorem legible_docFields (fields : List (String × Json)) :
    Legible (docFields .compact 0 fields) := by
  intro x hx
  obtain ⟨f, _, hkey, _⟩ := mem_docFields hx
  rw [hkey, StringText.text?_ofText]
  rfl

theorem valuesOf_envelope (method : String) (params : List Json) :
    valuesOf "method" (docFields .compact 0 [("method", .string method), ("params", .list params)]) =
        [.string (.ofText method)] ∧
      valuesOf "params" (docFields .compact 0 [("method", .string method), ("params", .list params)]) =
        [.list .none (docItems .compact 1 params)] := by
  simp [valuesOf, docFields, StringText.text?_ofText, doc]

theorem map_snd_docItems_booleans (lay : Layout) (level : Nat) (bs : List Bool) :
    (docItems lay level (bs.map .boolean)).map Prod.snd = bs.map .boolean := by
  rw [map_snd_docItems, List.map_map]
  rfl

/-- The line of a message is read as that message. -/
theorem decode_of_encode {m : Message} {line : String} (h : m.encode = .ok line) :
    decode line = .ok (some m) := by
  cases m with
  | state m =>
    cases hcode : m.state.wireCode with
    | none =>
      simp only [Message.encode, hcode] at h
      cases h
    | some code =>
      simp only [Message.encode, hcode] at h
      cases h
      obtain ⟨hmethod, hparams⟩ :=
        valuesOf_envelope stateMethod [.integer m.rule.value, .integer code]
      refine (decode_compact_iff _ _).mpr ⟨legible_docFields _, ?_⟩
      exact ⟨⟨_, hmethod, StringText.text?_ofText _⟩, _, _, _, _, _, code, hparams,
        NumberText.integer?_ofInt _, NumberText.integer?_ofInt _, hcode⟩
  | log m =>
    cases h
    obtain ⟨hmethod, hparams⟩ :=
      valuesOf_envelope logMethod [.integer m.rule.value, .list (m.results.map .boolean)]
    refine (decode_compact_iff _ _).mpr ⟨legible_docFields _, ?_⟩
    exact ⟨⟨_, hmethod, StringText.text?_ofText _⟩, _, _, _, _, _, _, hparams,
      NumberText.integer?_ofInt _, map_snd_docItems_booleans _ _ _⟩

theorem encode_eq_error_iff (m : Message) :
    (∃ s, m.encode = .error s) ↔ ∃ x, m = .state x ∧ x.state.isDerived = true := by
  cases m with
  | log m => simp [Message.encode]
  | state m =>
    have hiff := LoggingState.wireCode_isSome_iff m.state
    cases hcode : m.state.wireCode with
    | none =>
      have hderived : m.state.isDerived = true := by
        rw [hcode] at hiff
        simpa using hiff
      simp [Message.encode, hcode, hderived]
    | some code =>
      have hderived : m.state.isDerived = false := hiff.mp (by rw [hcode]; rfl)
      simp [Message.encode, hcode, hderived]

/-- The line of a state arrives as what was sent. -/
theorem decode_encode_state {m : StateMessage} (h : m.state.isDerived = false) : ∃ line,
    (Message.state m).encode = .ok line ∧ decode line = .ok (some (.state m)) := by
  cases hencode : (Message.state m).encode with
  | error s =>
    obtain ⟨x, hx, hderived⟩ := (encode_eq_error_iff _).mp ⟨s, hencode⟩
    cases hx
    rw [h] at hderived
    cases hderived
  | ok line => exact ⟨line, rfl, decode_of_encode hencode⟩

/-- Only a state that can be sent is read from a line. -/
theorem isDerived_of_decode {line : String} {m : StateMessage}
    (h : decode line = .ok (some (.state m))) : m.state.isDerived = false := by
  have hparams : ∃ params : Params, params.toMessage = .ok (.state m) := by
    unfold decode at h
    split at h
    · cases h
    · split at h
      · cases h
      · split at h
        · cases h
        · next params _ =>
          refine ⟨params, ?_⟩
          cases hm : params.toMessage with
          | error e =>
            rw [hm] at h
            cases h
          | ok message =>
            rw [hm] at h
            cases h
            rfl
  obtain ⟨params, hm⟩ := hparams
  cases params with
  | log rule results => cases hm
  | state rule code =>
    cases hs : LoggingState.ofWireCode? code with
    | none =>
      simp only [Params.toMessage, hs] at hm
      cases hm
    | some state =>
      simp only [Params.toMessage, hs] at hm
      cases hm
      refine (LoggingState.wireCode_isSome_iff state).mp ?_
      rw [ofWireCode?_eq_some_iff.mp hs]
      rfl

/-- Characters of one byte that are printed as themselves; no line break is one. -/
def Printable (c : Char) : Prop := 32 ≤ c.toNat ∧ c.toNat < 127

instance (c : Char) : Decidable (Printable c) := inferInstanceAs (Decidable (_ ∧ _))

theorem printable_of_all {cs : List Char} (h : cs.all (fun c => decide (Printable c)) = true) :
    ∀ c ∈ cs, Printable c := fun c hc => of_decide_eq_true (List.all_eq_true.mp h c hc)

theorem printable_intChars (i : Int) : ∀ c ∈ Text.intChars i, Printable c := by
  have hdigit : ∀ n, ∀ c ∈ Text.natChars n, Printable c := by
    intro n c hc
    have hbounds := Text.isDigit_bounds (Text.natChars_isDigit n c hc)
    unfold Printable
    omega
  cases i with
  | ofNat n => exact hdigit n
  | negSucc n => exact List.forall_mem_cons.mpr ⟨by decide, hdigit (n + 1)⟩

theorem printable_compactItems {params : List Json}
    (h : ∀ j ∈ params, ∀ c ∈ compactChars j, Printable c) :
    ∀ c ∈ compactItems params, Printable c := by
  induction params with
  | nil => simp [compactItems]
  | cons j rest ih =>
    have hj := h j List.mem_cons_self
    have hrest := ih fun k hk => h k (List.mem_cons_of_mem _ hk)
    cases rest with
    | nil => simpa [compactItems] using hj
    | cons k rest =>
      rw [compactItems]
      exact List.forall_mem_append.mpr ⟨hj, List.forall_mem_cons.mpr ⟨by decide, hrest⟩⟩

theorem printable_envelope {method : String} {params : List Json}
    (hm : ∀ c ∈ stringChars method, Printable c)
    (hp : ∀ j ∈ params, ∀ c ∈ compactChars j, Printable c) :
    ∀ c ∈ (envelope method params).compact.toList, Printable c := by
  have htext : (envelope method params).compact.toList =
      ['\x7b', '"', 'm', 'e', 't', 'h', 'o', 'd', '"', ':'] ++ (stringChars method ++
        ([',', '"', 'p', 'a', 'r', 'a', 'm', 's', '"', ':', '['] ++
          (compactItems params ++ [']', '\x7d']))) := by
    simp [envelope, compact, compactChars, compactFields, stringChars, escapeChar]
  rw [htext]
  refine List.forall_mem_append.mpr ⟨printable_of_all rfl, List.forall_mem_append.mpr ⟨hm, ?_⟩⟩
  refine List.forall_mem_append.mpr ⟨printable_of_all rfl, ?_⟩
  refine List.forall_mem_append.mpr ⟨?_, printable_of_all rfl⟩
  exact printable_compactItems hp

theorem printable_of_encode {m : Message} {line : String} (h : m.encode = .ok line) :
    ∀ c ∈ line.toList, Printable c := by
  cases m with
  | state m =>
    cases hcode : m.state.wireCode with
    | none =>
      simp only [Message.encode, hcode] at h
      cases h
    | some code =>
      simp only [Message.encode, hcode] at h
      cases h
      refine printable_envelope (printable_of_all rfl) fun j hj => ?_
      simp only [List.mem_cons, List.not_mem_nil, or_false] at hj
      rcases hj with rfl | rfl <;> exact printable_intChars _
  | log m =>
    cases h
    refine printable_envelope (printable_of_all rfl) fun j hj => ?_
    simp only [List.mem_cons, List.not_mem_nil, or_false] at hj
    rcases hj with rfl | rfl
    · exact printable_intChars _
    · refine List.forall_mem_cons.mpr ⟨by decide, List.forall_mem_append.mpr ⟨?_, printable_of_all rfl⟩⟩
      refine printable_compactItems fun j hj => ?_
      obtain ⟨b, _, rfl⟩ := List.mem_map.mp hj
      cases b <;> exact printable_of_all rfl

/-- Every message but that of a derived state has a line, in one piece and of its own, from which it
is read back; and what is read from any line can be written and read again. -/
theorem encode_decode (m : Message) :
    ((∃ s, m.encode = .error s) ↔ ∃ x, m = .state x ∧ x.state.isDerived = true) ∧
      (∀ line, m.encode = .ok line → (∀ c ∈ line.toList, Printable c) ∧
        decode line = .ok (some m) ∧ ∀ m', m'.encode = .ok line → m' = m) ∧
      ∀ line, decode line = .ok (some m) →
        ∃ line', m.encode = .ok line' ∧ decode line' = .ok (some m) := by
  refine ⟨encode_eq_error_iff m, fun line h => ?_, fun line h => ?_⟩
  · have hread := decode_of_encode h
    refine ⟨printable_of_encode h, hread, fun m' h' => ?_⟩
    have hread' := decode_of_encode h'
    rw [hread] at hread'
    cases hread'
    rfl
  · cases hencode : m.encode with
    | ok line' => exact ⟨line', rfl, decode_of_encode hencode⟩
    | error s =>
      obtain ⟨x, rfl, hderived⟩ := (encode_eq_error_iff m).mp ⟨s, hencode⟩
      rw [isDerived_of_decode h] at hderived
      cases hderived

end RuleScope.Wire
