import RuleScope.Proofs.Json.Layout
import RuleScope.Proofs.Wire.Objects

namespace RuleScope.Wire

open Json

/-- The values of the fields whose key stands for `key`. -/
def valuesOf (key : String) (fields : List (Label × Doc)) : List Doc :=
  fields.filterMap fun x => if x.1.key.text? = some key then some x.2 else none

/-- Every key stands for a text: none has half of a surrogate pair alone. -/
def Legible (fields : List (Label × Doc)) : Prop := ∀ x ∈ fields, x.1.key.text?.isSome

/-- The method is given once, as a string for this name. -/
def NamesMethod (fields : List (Label × Doc)) (name : String) : Prop :=
  ∃ t : StringText, valuesOf "method" fields = [.string t] ∧ t.text? = some name

/-- The parameters are given once, as the two integer literals of a rule and a state. -/
def GivesState (fields : List (Label × Doc)) (rule : RuleId) (state : LoggingState) : Prop :=
  ∃ inside m₁ m₂ first second, ∃ code,
    valuesOf "params" fields = [.list inside [(m₁, .number first), (m₂, .number second)]] ∧
      first.integer? = some rule.value ∧ second.integer? = some code ∧ state.wireCode = some code

/-- The parameters are given once, as the integer literal of a rule and a list of booleans. -/
def GivesResults (fields : List (Label × Doc)) (rule : RuleId) (results : List Bool) : Prop :=
  ∃ inside m₁ m₂ first inside' items,
    valuesOf "params" fields = [.list inside [(m₁, .number first), (m₂, .list inside' items)]] ∧
      first.integer? = some rule.value ∧ items.map Prod.snd = results.map .boolean

/-- What an object with these fields says: nothing if its method is not known. -/
def Says (fields : List (Label × Doc)) : Option Message → Prop
  | none => ∃ name, NamesMethod fields name ∧ name ≠ "setLoggingState" ∧ name ≠ "logRule"
  | some (.state m) => NamesMethod fields "setLoggingState" ∧ GivesState fields m.rule m.state
  | some (.log m) => NamesMethod fields "logRule" ∧ GivesResults fields m.rule m.results

theorem keyed?_isSome_iff (fields : List (Label × Doc)) :
    (Doc.keyed? fields).isSome ↔ Legible fields := by
  induction fields with
  | nil => simp [Doc.keyed?, Legible]
  | cons x rest ih =>
    have hcons : Legible (x :: rest) ↔ x.1.key.text?.isSome ∧ Legible rest := by simp [Legible]
    rw [hcons, ← ih, Doc.keyed?, List.mapM_cons, ← Doc.keyed?]
    cases x.1.key.text? <;> cases Doc.keyed? rest <;> simp

theorem valuesAt_keyed? {fields : List (Label × Doc)} {entries : List (String × Doc)}
    (h : Doc.keyed? fields = some entries) (key : String) :
    Doc.valuesAt key entries = valuesOf key fields := by
  induction fields generalizing entries with
  | nil =>
    cases h
    rfl
  | cons x rest ih =>
    rw [Doc.keyed?, List.mapM_cons, ← Doc.keyed?] at h
    cases hx : x.1.key.text? with
    | none => simp [hx] at h
    | some k =>
      cases hr : Doc.keyed? rest with
      | none => simp [hx, hr] at h
      | some tail =>
        simp only [hx, hr, Option.map_some, Option.bind_eq_bind, Option.bind_some,
          Option.pure_def, Option.some.injEq] at h
        subst h
        rw [Doc.valuesAt_cons, ih hr, valuesOf, valuesOf, List.filterMap_cons, hx]
        by_cases hk : k = key <;> simp [hk]

theorem ofWireCode?_eq_some_iff {code : Int} {s : LoggingState} :
    LoggingState.ofWireCode? code = some s ↔ s.wireCode = some code := by
  refine ⟨fun h => ?_, LoggingState.ofWireCode?_wireCode⟩
  unfold LoggingState.ofWireCode? at h
  split at h <;> cases h <;> rfl

theorem integerIn?_eq_some_iff {v : Doc} {i : Int} :
    integerIn? v = some i ↔ ∃ n, v = .number n ∧ n.integer? = some i := by
  cases v <;> simp [integerIn?]

theorem ruleIn?_eq_some_iff {v : Doc} {rule : RuleId} :
    ruleIn? v = some rule ↔ ∃ n, v = .number n ∧ n.integer? = some rule.value := by
  simp only [ruleIn?, Option.bind_eq_some_iff, RuleId.ofInt?_eq_some_iff, exists_eq_right,
    integerIn?_eq_some_iff]

theorem wireCode_bounds {s : LoggingState} {code : Int} (h : s.wireCode = some code) :
    -2147483648 ≤ code ∧ code ≤ 2147483647 := by
  cases s <;> cases h <;> decide

theorem codeIn?_eq_some_iff {v : Doc} {s : LoggingState} {code : Int}
    (hs : s.wireCode = some code) :
    codeIn? v = some code ↔ ∃ n, v = .number n ∧ n.integer? = some code := by
  have hbounds := wireCode_bounds hs
  simp only [codeIn?, Option.filter_eq_some_iff, integerIn?_eq_some_iff, decide_eq_true_eq,
    hbounds, and_self, and_true]

theorem boolean?_eq_some_iff {v : Doc} {b : Bool} : v.boolean? = some b ↔ v = .boolean b := by
  cases v <;> simp [Doc.boolean?]

theorem resultsIn?_eq_some_iff {v : Doc} {results : List Bool} : resultsIn? v = some results ↔
    ∃ inside items, v = .list inside items ∧ items.map Prod.snd = results.map .boolean := by
  have hitems : ∀ (items : List (Margins × Doc)) (results : List Bool),
      (items.mapM fun x => x.2.boolean?) = some results ↔
        items.map Prod.snd = results.map .boolean := by
    intro items
    induction items with
    | nil => intro results; cases results <;> simp
    | cons x rest ih =>
      intro results
      rw [List.mapM_cons, List.map_cons]
      cases results with
      | nil => cases x.2.boolean? <;> cases rest.mapM (fun x => x.2.boolean?) <;> simp
      | cons b bs =>
        rw [List.map_cons, List.cons.injEq, ← ih bs, ← boolean?_eq_some_iff]
        cases x.2.boolean? <;> cases rest.mapM (fun x => x.2.boolean?) <;> simp
  cases v with
  | list inside items => simpa [resultsIn?] using hitems items results
  | _ => simp [resultsIn?]

section

variable {fields : List (Label × Doc)} {entries : List (String × Doc)}
  (h : Doc.keyed? fields = some entries)

include h

theorem methodIn?_eq_some_iff (name : String) :
    methodIn? entries = some name ↔ NamesMethod fields name := by
  constructor
  · intro hname
    obtain ⟨v, hone, hv⟩ := methodIn?_eq_some hname
    obtain ⟨t, rfl⟩ := text?_eq_some hv
    exact ⟨t, by rw [← valuesAt_keyed? h, hone], hv⟩
  · rintro ⟨t, hone, ht⟩
    rw [← valuesAt_keyed? h] at hone
    rw [methodIn?, hone]
    exact ht

theorem paramsAt?_eq_some_iff (m : Method) (p : Params) : paramsAt? m entries = some p ↔
    ∃ inside m₁ m₂ first second, ∃ rule,
      valuesOf "params" fields = [.list inside [(m₁, first), (m₂, second)]] ∧
        ruleIn? first = some rule ∧ secondIn? m rule second = some p := by
  rw [← valuesAt_keyed? h, paramsAt?]
  constructor
  · intro hp
    split at hp
    next v hone =>
      unfold paramsIn? at hp
      split at hp
      next inside m₁ first m₂ second =>
        obtain ⟨rule, hr, hs⟩ := Option.bind_eq_some_iff.mp hp
        exact ⟨inside, m₁, m₂, first, second, rule, hone, hr, hs⟩
      next => cases hp
    next => cases hp
  · rintro ⟨inside, m₁, m₂, first, second, rule, hone, hr, hs⟩
    rw [hone]
    change (ruleIn? first).bind _ = _
    rw [hr, Option.bind_some, hs]

theorem paramsAt?_state_iff (m : StateMessage) :
    ((paramsAt? .state entries).bind fun params => params.toMessage.toOption) =
      some (.state m) ↔ GivesState fields m.rule m.state := by
  rw [Option.bind_eq_some_iff]
  constructor
  · rintro ⟨p, hp, hm⟩
    obtain ⟨inside, m₁, m₂, first, second, rule, hone, hr, hs⟩ :=
      (paramsAt?_eq_some_iff h _ _).mp hp
    obtain ⟨code, hc, rfl⟩ := Option.map_eq_some_iff.mp hs
    cases hstate : LoggingState.ofWireCode? code with
    | none =>
      simp only [Params.toMessage, hstate] at hm
      cases hm
    | some state =>
      simp only [Params.toMessage, hstate] at hm
      cases hm
      have hcode := ofWireCode?_eq_some_iff.mp hstate
      obtain ⟨n, rfl, hn⟩ := ruleIn?_eq_some_iff.mp hr
      obtain ⟨n', rfl, hn'⟩ := (codeIn?_eq_some_iff hcode).mp hc
      exact ⟨inside, m₁, m₂, n, n', code, hone, hn, hn', hcode⟩
  · rintro ⟨inside, m₁, m₂, n, n', code, hone, hn, hn', hcode⟩
    refine ⟨.state m.rule code, (paramsAt?_eq_some_iff h _ _).mpr
      ⟨inside, m₁, m₂, _, _, m.rule, hone, ruleIn?_eq_some_iff.mpr ⟨n, rfl, hn⟩, ?_⟩, ?_⟩
    · rw [secondIn?, (codeIn?_eq_some_iff hcode).mpr ⟨n', rfl, hn'⟩, Option.map_some]
    · simp only [Params.toMessage, ofWireCode?_eq_some_iff.mpr hcode]
      rfl

theorem paramsAt?_log_iff (m : LogMessage) :
    ((paramsAt? .log entries).bind fun params => params.toMessage.toOption) =
      some (.log m) ↔ GivesResults fields m.rule m.results := by
  rw [Option.bind_eq_some_iff]
  constructor
  · rintro ⟨p, hp, hm⟩
    obtain ⟨inside, m₁, m₂, first, second, rule, hone, hr, hs⟩ :=
      (paramsAt?_eq_some_iff h _ _).mp hp
    obtain ⟨results, hres, rfl⟩ := Option.map_eq_some_iff.mp hs
    cases hm
    obtain ⟨n, rfl, hn⟩ := ruleIn?_eq_some_iff.mp hr
    obtain ⟨inside', items, rfl, hitems⟩ := resultsIn?_eq_some_iff.mp hres
    exact ⟨inside, m₁, m₂, n, inside', items, hone, hn, hitems⟩
  · rintro ⟨inside, m₁, m₂, n, inside', items, hone, hn, hitems⟩
    refine ⟨.log m.rule m.results, (paramsAt?_eq_some_iff h _ _).mpr
      ⟨inside, m₁, m₂, _, _, m.rule, hone, ruleIn?_eq_some_iff.mpr ⟨n, rfl, hn⟩, ?_⟩, rfl⟩
    rw [secondIn?, resultsIn?_eq_some_iff.mpr ⟨inside', items, rfl, hitems⟩, Option.map_some]

/-- A method gives only messages of its own kind. -/
theorem paramsAt?_kind {m : Method} {message : Message}
    (hm : ((paramsAt? m entries).bind fun params => params.toMessage.toOption) = some message) :
    match m with
    | .state => ∃ x, message = .state x
    | .log => ∃ x, message = .log x := by
  obtain ⟨p, hp, hmessage⟩ := Option.bind_eq_some_iff.mp hm
  obtain ⟨_, _, _, _, second, rule, _, _, hs⟩ := (paramsAt?_eq_some_iff h _ _).mp hp
  cases m with
  | state =>
    obtain ⟨code, _, rfl⟩ := Option.map_eq_some_iff.mp hs
    cases hstate : LoggingState.ofWireCode? code with
    | none =>
      simp only [Params.toMessage, hstate] at hmessage
      cases hmessage
    | some state =>
      simp only [Params.toMessage, hstate] at hmessage
      cases hmessage
      exact ⟨_, rfl⟩
  | log =>
    obtain ⟨results, _, rfl⟩ := Option.map_eq_some_iff.mp hs
    cases hmessage
    exact ⟨_, rfl⟩

theorem messageIn?_eq_some_iff (r : Option Message) :
    messageIn? entries = some r ↔ Says fields r := by
  have hnames := methodIn?_eq_some_iff h
  unfold messageIn?
  cases hname : methodIn? entries with
  | none =>
    have hno : ∀ name, ¬NamesMethod fields name := fun name hn => by
      have := (hnames name).mpr hn
      rw [hname] at this
      cases this
    match r with
    | none => simp [Says, hno]
    | some (.state m) => simp [Says, hno]
    | some (.log m) => simp [Says, hno]
  | some name =>
    have hthis : ∀ name', NamesMethod fields name' ↔ name' = name := fun name' => by
      rw [← hnames, hname, Option.some.injEq, eq_comm]
    have hsome : ∀ m, ((paramsAt? m entries).bind fun params =>
        params.toMessage.toOption.map some) = some r ↔
          ∃ message, r = some message ∧
            ((paramsAt? m entries).bind fun params => params.toMessage.toOption) = some message := by
      intro m
      have hmap : ((paramsAt? m entries).bind fun params => params.toMessage.toOption.map some) =
          ((paramsAt? m entries).bind fun params => params.toMessage.toOption).map some := by
        rw [Option.map_bind]
        rfl
      rw [hmap, Option.map_eq_some_iff]
      exact exists_congr fun message => by rw [and_comm, eq_comm]
    rw [Option.bind_some]
    by_cases hs : name = "setLoggingState"
    · subst hs
      refine (hsome .state).trans ?_
      match r with
      | none => simp [Says, hthis]
      | some (.state m) => simp [Says, hthis, paramsAt?_state_iff h]
      | some (.log m) =>
        simp only [Says, hthis, Option.some.injEq]
        refine iff_of_false ?_ (by simp)
        rintro ⟨message, rfl, hm⟩
        obtain ⟨x, hx⟩ := paramsAt?_kind h hm
        cases hx
    · by_cases hl : name = "logRule"
      · subst hl
        refine (hsome .log).trans ?_
        match r with
        | none => simp [Says, hthis]
        | some (.state m) =>
          simp only [Says, hthis, Option.some.injEq]
          refine iff_of_false ?_ (by simp)
          rintro ⟨message, rfl, hm⟩
          obtain ⟨x, hx⟩ := paramsAt?_kind h hm
          cases hx
        | some (.log m) => simp [Says, hthis, paramsAt?_log_iff h]
      · have hof : Method.ofName? name = none := by
          rw [Method.ofName?, stateMethod, logMethod, if_neg hs, if_neg hl]
        rw [hof]
        match r with
        | none => simp [Says, hthis, hs, hl]
        | some (.state m) => simp [Says, hthis, Ne.symm hs]
        | some (.log m) => simp [Says, hthis, Ne.symm hl]

end

/-- A line that is the text of an object is decoded as what the object says. -/
theorem decode_object_ok_iff (lead trail inside : Blanks) (fields : List (Label × Doc))
    (r : Option Message) :
    decode (String.ofList (lead.chars ++ ((Doc.object inside fields).chars ++ trail.chars))) =
      .ok r ↔ Legible fields ∧ Says fields r := by
  have hdecode := decode_object lead trail inside fields
  generalize String.ofList _ = line at *
  have htoo : decode line = .ok r ↔ (decode line).toOption = some r := by
    cases decode line <;> simp [Except.toOption]
  rw [htoo, hdecode, ← keyed?_isSome_iff]
  cases hk : Doc.keyed? fields with
  | none => simp
  | some entries => simp [messageIn?_eq_some_iff hk]

/-- A line that is the text of an object is a message, or skipped, exactly if every key stands for a
text and the object says so; otherwise it is an error. -/
theorem decode_object_iff (lead trail inside : Blanks) (fields : List (Label × Doc)) :
    let line := String.ofList (lead.chars ++ ((Doc.object inside fields).chars ++ trail.chars))
    (∀ r, decode line = .ok r ↔ Legible fields ∧ Says fields r) ∧
      ((∃ fault, decode line = .error fault) ↔ ¬(Legible fields ∧ ∃ r, Says fields r)) := by
  intro line
  have hok : ∀ r, decode line = .ok r ↔ Legible fields ∧ Says fields r :=
    decode_object_ok_iff lead trail inside fields
  refine ⟨hok, ?_⟩
  have hnot : (∃ fault, decode line = .error fault) ↔ ¬∃ r, decode line = .ok r := by
    cases decode line <;> simp
  rw [hnot]
  simp only [hok, exists_and_left]

/-- A key with half of a surrogate pair alone. -/
def unpairedKey : StringText := ⟨[.unit 'd' '8' '0' '0' 0xD800 (by decide)]⟩

/-- A method that is not known, and a key that stands for no text. -/
def unpairedFields : List (Label × Doc) :=
  [(⟨.none, .ofText "method", .none, .none, .none⟩, .string (.ofText "ping")),
    (⟨.none, unpairedKey, .none, .none, .none⟩, .null)]

/-- A key that stands for no text spoils a line that would otherwise be skipped. -/
theorem not_decode_unpairedKey :
    String.ofList (Doc.object .none unpairedFields).chars =
        "\x7b\"method\":\"ping\",\"\\ud800\":null\x7d" ∧
      NamesMethod unpairedFields "ping" ∧ "ping" ≠ "setLoggingState" ∧ "ping" ≠ "logRule" ∧
      decode "\x7b\"method\":\"ping\",\"\\ud800\":null\x7d" ≠ .ok none := by
  have htext : String.ofList (Doc.object .none unpairedFields).chars =
      "\x7b\"method\":\"ping\",\"\\ud800\":null\x7d" := by decide
  have hlone : unpairedKey.text? = none := by decide
  refine ⟨htext, ⟨.ofText "ping", ?_, StringText.text?_ofText _⟩, by decide, by decide, fun h => ?_⟩
  · simp [valuesOf, unpairedFields, StringText.text?_ofText, hlone]
  · have hiff := decode_object_ok_iff .none .none .none unpairedFields none
    have hline : (Blanks.none.chars ++ ((Doc.object .none unpairedFields).chars ++
        Blanks.none.chars)) = (Doc.object .none unpairedFields).chars :=
      (List.nil_append _).trans (List.append_nil _)
    rw [hline, htext] at hiff
    have hlegible := (hiff.mp h).1 _ (List.mem_cons_of_mem _ List.mem_cons_self)
    rw [hlone] at hlegible
    cases hlegible

end RuleScope.Wire
