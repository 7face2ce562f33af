import RuleScope.Proofs.Yaml.Flow.Scanner

namespace RuleScope.Yaml

namespace Scan

mutual
/-- A word is met only inside; a collection may also stand alone. -/
theorem reaches_node (f : Flow) {s : Scanner} {rest : List Char} {ts : List Token} {level : Nat}
    (h : At s (f.chars ++ rest) ts level) (hw : f.isWord → 0 < level ∧ Stops rest) :
    ∃ s', Reaches s s' ∧ At s' rest (ts ++ f.tokens) level := by
  match f with
  | .word w =>
    obtain ⟨hlevel, hr⟩ := hw rfl
    obtain ⟨level, rfl⟩ := Nat.exists_eq_succ_of_ne_zero (Nat.ne_of_gt hlevel)
    obtain ⟨s', hreaches, hat, _⟩ := reaches_word h hr
    exact ⟨s', hreaches, hat⟩
  | .list items =>
    obtain ⟨s₁, hopen, hat, hk⟩ := reaches_open h rfl (by decide)
    obtain ⟨s₂, hitems, hat⟩ := reaches_items items hat fun _ => hk
    exact ⟨s₂, hopen.trans hitems, by rwa [List.append_assoc] at hat⟩
  | .record fields =>
    obtain ⟨s₁, hopen, hat, hk⟩ := reaches_open h rfl (by decide)
    obtain ⟨s₂, hfields, hat⟩ := reaches_fields fields hat fun _ => hk
    exact ⟨s₂, hopen.trans hfields, by rwa [List.append_assoc] at hat⟩

theorem reaches_items (items : List Flow) {first : Bool} {s : Scanner} {rest : List Char}
    {ts : List Token} {level : Nat} (h : At s (Flow.itemChars first items ++ rest) ts (level + 1))
    (hk : first → s.keyAllowed) :
    ∃ s', Reaches s s' ∧ At s' rest (ts ++ Flow.itemTokens first items) level := by
  match items with
  | [] => exact reaches_close h rfl (by decide)
  | f :: items =>
    rw [Flow.itemChars, List.append_assoc, List.append_assoc] at h
    obtain ⟨s₁, hmark, hat, _⟩ := reaches_mark h hk
    obtain ⟨s₂, hnode, hat⟩ := reaches_node f hat fun _ =>
      ⟨Nat.succ_pos _, stops_itemChars items rest⟩
    obtain ⟨s₃, hitems, hat⟩ := reaches_items items hat nofun
    refine ⟨s₃, hmark.trans (hnode.trans hitems), ?_⟩
    rwa [List.append_assoc, List.append_assoc] at hat

theorem reaches_fields (fields : List (Word × Flow)) {first : Bool} {s : Scanner}
    {rest : List Char} {ts : List Token} {level : Nat}
    (h : At s (Flow.fieldChars first fields ++ rest) ts (level + 1)) (hk : first → s.keyAllowed) :
    ∃ s', Reaches s s' ∧ At s' rest (ts ++ Flow.fieldTokens first fields) level := by
  match fields with
  | [] => exact reaches_close h rfl (by decide)
  | (k, f) :: fields =>
    rw [Flow.fieldChars, List.append_assoc, List.append_assoc, List.cons_append, List.cons_append,
      List.append_assoc] at h
    obtain ⟨s₁, hmark, hat, hk⟩ := reaches_mark h hk
    obtain ⟨s₂, hkey, hat⟩ := reaches_key hat hk
    obtain ⟨s₃, hnode, hat⟩ := reaches_node f hat fun _ =>
      ⟨Nat.succ_pos _, stops_fieldChars fields rest⟩
    obtain ⟨s₄, hfields, hat⟩ := reaches_fields fields hat nofun
    refine ⟨s₄, hmark.trans (hkey.trans (hnode.trans hfields)), ?_⟩
    rw [Flow.fieldTokens]
    simpa only [List.append_assoc, List.cons_append, List.nil_append] using hat
end

section

variable {s : Scanner} {ts : List Token} {level : Nat}

theorem streamEnd_at (h : At s [] ts level) :
    ∃ s', streamEnd s = some ((), s') ∧ s'.tokens.toList = ts ++ [.streamEnd] := by
  let last : Scanner := if s.column = 0 then s else { s with column := 0, line := s.line + 1 }
  have hlast : At last [] ts level := by
    unfold last
    split
    · exact h
    · exact { h with }
  obtain ⟨k, ks, hk⟩ := List.exists_cons_of_length_eq_add_one hlast.level_eq
  have hbreak : (modify fun s : Scanner => if s.column = 0 then s
      else { s with column := 0, line := s.line + 1 } : Scan Unit) s = some ((), last) := rfl
  rw [streamEnd, bind_eq hbreak, bind_eq (unrollIndent_calm hlast.toCalm _),
    bind_eq (removeKey_calm hlast.toCalm hk)]
  refine ⟨_, rfl, ?_⟩
  change (last.tokens.push .streamEnd).toList = _
  rw [Array.toList_push, hlast.tokens_eq]

theorem next_end (h : At s [] ts level) :
    ∃ s', next s = some (true, s') ∧ s'.tokens.toList = ts ++ [.streamEnd] := by
  obtain ⟨n, hs⟩ := h.rest_eq
  have hat := settled_at h hs
  obtain ⟨s', hs', htokens⟩ := streamEnd_at hat
  refine ⟨s', ?_, htokens⟩
  have hblanks : toNextToken s = some ((), skipped n s) := toNextToken_blanks hs nofun
  have hcolumn : column (settled n s) = some ((settled n s).column, settled n s) := rfl
  rw [next, bind_eq hblanks, bind_eq (removeStaleKeys_skipped h.toCalm n), bind_eq hcolumn,
    bind_eq (unrollIndent_calm hat.toCalm _), bind_eq (get_eq _)]
  simp only [rest_settled hs]
  rw [bind_eq hs']
  rfl

end

theorem start_at (f : Flow) : At (Scanner.start f.text) (f.chars ++ []) [] 0 where
  indent_eq := rfl
  indents_eq := rfl
  required_eq := by simp [Scanner.start, SimpleKey.none]
  rest_eq := ⟨0, String.toList_ofList.trans (List.append_nil _).symm⟩
  tokens_eq := rfl
  level_eq := rfl

end Scan

namespace Flow

theorem isAllowed_word (w : Word) : w.chars.all isAllowed :=
  List.all_eq_true.mpr fun c hc => isAllowed_of_isAlphanum (w.isAlphanum_of_mem c hc)

mutual
theorem isAllowed_chars (f : Flow) : f.chars.all isAllowed := by
  match f with
  | .word w => exact isAllowed_word w
  | .list items =>
    rw [chars, List.all_cons, isAllowed_itemChars items true]
    rfl
  | .record fields =>
    rw [chars, List.all_cons, isAllowed_fieldChars fields true]
    rfl

theorem isAllowed_itemChars (items : List Flow) (first : Bool) :
    (itemChars first items).all isAllowed := by
  match items with
  | [] => rfl
  | f :: items =>
    rw [itemChars, List.all_append, List.all_append, isAllowed_chars f, isAllowed_itemChars items]
    cases first <;> rfl

theorem isAllowed_fieldChars (fields : List (Word × Flow)) (first : Bool) :
    (fieldChars first fields).all isAllowed := by
  match fields with
  | [] => rfl
  | (k, f) :: fields =>
    rw [fieldChars, List.all_append, List.all_append, List.all_cons, List.all_cons,
      List.all_append, isAllowed_word k, isAllowed_chars f, isAllowed_fieldChars fields]
    cases first <;> rfl
end

/-- The rounds of the scanner suffice, since each takes a character. -/
theorem ofText?_tokens {f : Flow} (hf : f.isWord = false) :
    Token.ofText? f.text = some (f.tokens ++ [.streamEnd]) := by
  obtain ⟨s, ⟨n, hn, hrun⟩, hat⟩ := Scan.reaches_node f (Scan.start_at f) fun hw => by
    rw [hf] at hw
    cases hw
  obtain ⟨s', hend, htokens⟩ := Scan.next_end hat
  have hn' : n + s.rest.length ≤ f.text.toList.length := hn
  have hfuel : f.text.toList.length + 1 = f.text.toList.length - n + 1 + n := by omega
  have hallowed : f.text.toList.all isAllowed := by
    rw [text, String.toList_ofList]
    exact isAllowed_chars f
  rw [Token.ofText?, if_pos hallowed, hfuel, hrun, Scan.allLoop_end hend, Option.map_some]
  dsimp only
  rw [htokens]
  rfl

end Flow

end RuleScope.Yaml
