import RuleScope.Proofs.Json.Values
import RuleScope.Wire.Decode

namespace RuleScope.Wire

open Json Json.Reader

/-- The integer of a document that is an integer literal. -/
def integerIn? : Doc → Option Int
  | .number n => n.integer?
  | _ => none

def ruleIn? (v : Doc) : Option RuleId := (integerIn? v).bind RuleId.ofInt?

/-- An integer of 32 bits. -/
def codeIn? (v : Doc) : Option Int :=
  (integerIn? v).filter fun i => -2147483648 ≤ i ∧ i ≤ 2147483647

def resultsIn? : Doc → Option (List Bool)
  | .list _ items => items.mapM fun x => x.2.boolean?
  | _ => none

/-- The second parameter of a method: a code or results. -/
def secondIn? (m : Method) (rule : RuleId) (v : Doc) : Option Params :=
  match m with
  | .state => (codeIn? v).map (.state rule)
  | .log => (resultsIn? v).map (.log rule)

def paramsIn? (m : Method) : Doc → Option Params
  | .list _ [(_, first), (_, second)] => (ruleIn? first).bind fun rule => secondIn? m rule second
  | _ => none

variable {d : Nat}

theorem toOption_codeOf_numeralOf (i : Int) : (codeOf (numeralOf i)).toOption =
    (some i).filter fun i => -2147483648 ≤ i ∧ i ≤ 2147483647 := by
  have hmax : (Text.maxInt32 : Int) = 2147483647 := rfl
  unfold codeOf numeralOf
  by_cases h : 0 ≤ i
  · have hi : ((i.toNat : Nat) : Int) = i := by omega
    rw [if_pos h, Numeral.toIntWithin, hi, Option.filter_some]
    by_cases hu : i ≤ 2147483647
    · rw [if_pos (by omega), if_pos (by simp; omega), Except.toOption]
    · rw [if_neg (by omega), if_neg (by simp; omega), Except.toOption]
  · rw [if_neg h, Numeral.toIntWithin, Option.filter_some]
    by_cases hl : -2147483648 ≤ i
    · rw [if_pos (by omega), if_pos (by simp; omega), Except.toOption]
    · rw [if_neg (by omega), if_neg (by simp; omega), Except.toOption]

/-- Only integer literals of 32 bits are codes. -/
theorem numeral?_codeOf (v : Doc) :
    (v.numeral?.bind fun n => (codeOf n).toOption) = codeIn? v := by
  cases v with
  | number n =>
    have hvalue := (takes_number_numeral? n).1
    change (n.numeral?.bind _) = n.integer?.filter _
    cases hi : n.integer? with
    | some i =>
      by_cases hfit : -2147483648 ≤ i ∧ i ≤ 2147483647
      · have hmax : (Text.maxInt64 : Int) = 9223372036854775807 := rfl
        have hmax' : (Text.maxNat64 : Int) = 18446744073709551615 := rfl
        rw [hvalue.of_integer i hi (by omega) (by omega), Option.bind_some,
          toOption_codeOf_numeralOf]
      · have hnone : (some i).filter (fun i => -2147483648 ≤ i ∧ i ≤ 2147483647) = none := by
          rw [Option.filter_some, if_neg (by simpa using hfit)]
        rw [hnone]
        cases ho : n.numeral? with
        | none => rfl
        | some numeral =>
          rcases hvalue.float_or_integer numeral ho with ⟨x, rfl⟩ | ⟨j, hj, rfl⟩
          · rfl
          · rw [hi] at hj
            cases hj
            rw [Option.bind_some, toOption_codeOf_numeralOf, hnone]
    | none =>
      cases ho : n.numeral? with
      | none => rfl
      | some numeral =>
        rcases hvalue.float_or_integer numeral ho with ⟨x, rfl⟩ | ⟨j, hj, rfl⟩
        · rfl
        · rw [hi] at hj
          cases hj
  | _ => rfl

theorem toOption_ruleOf (n : Numeral) :
    (ruleOf n).toOption = (codeOf n).toOption.bind RuleId.ofInt? := by
  unfold ruleOf
  cases codeOf n with
  | error e => rfl
  | ok i =>
    simp only [Bind.bind, Except.bind, Except.toOption, Option.bind_some]
    cases RuleId.ofInt? i <;> rfl

theorem codeIn?_bind_ofInt? (v : Doc) : (codeIn? v).bind RuleId.ofInt? = ruleIn? v := by
  unfold codeIn? ruleIn?
  cases integerIn? v with
  | none => rfl
  | some i =>
    rw [Option.filter_some]
    by_cases h : -2147483648 ≤ i ∧ i ≤ 2147483647
    · rw [if_pos (by simpa using h)]
    · rw [if_neg (by simpa using h)]
      simp [RuleId.ofInt?, h]

theorem numeral?_ruleOf (v : Doc) :
    (v.numeral?.bind fun n => (ruleOf n).toOption) = ruleIn? v := by
  have hrule : (fun n => (ruleOf n).toOption) = fun n => (codeOf n).toOption.bind RuleId.ofInt? :=
    funext toOption_ruleOf
  rw [hrule, ← Option.bind_assoc, numeral?_codeOf, codeIn?_bind_ofInt?]

theorem denotes_codeReader (v : Doc) : Denotes codeReader d v (codeIn? v) := by
  rw [← numeral?_codeOf]
  exact denotes_numeral "i32" v

theorem denotes_ruleReader (v : Doc) : Denotes ruleReader d v (ruleIn? v) := by
  rw [← numeral?_ruleOf]
  exact denotes_numeral "i32" v

theorem denotes_results (hd : 1 < d) (v : Doc) :
    Denotes (Json.Reader.list boolean "a sequence") d v (resultsIn? v) := by
  by_cases hv : ∃ inside items, v = .list inside items
  · obtain ⟨inside, items, rfl⟩ := hv
    have hitem : ∀ x ∈ items, Denotes boolean (d - 1) x.2 x.2.boolean? :=
      fun x _ => denotes_boolean x.2
    have hitems := denotes_list "a sequence" inside hitem
    rw [if_pos hd] at hitems
    exact hitems
  · have hnone : resultsIn? v = none := by
      cases v <;> simp_all [resultsIn?]
    rw [hnone]
    exact denotes_list_none _ fun inside items h => hv ⟨inside, items, h⟩

/-- The parameters behind the method. -/
theorem denotes_paramsReader (hd : 2 < d) (m : Method) (v : Doc) :
    Denotes (paramsReader m) d v (paramsIn? m v) := by
  by_cases hv : ∃ inside items, v = .list inside items
  · obtain ⟨inside, items, rfl⟩ := hv
    match items with
    | [] =>
      have h : Denotes (paramsReader m) d (.list inside [])
          (if 1 < d ∧ ([] : List (Margins × Doc)) = [] then none else none) :=
        denotes_tuple _ inside .none [] fun s _ =>
          (reads_field?_end true inside).refuses (Refuses.failData _)
      rwa [ite_self] at h
    | [(margins, first)] =>
      have h : Denotes (paramsReader m) d (.list inside [(margins, first)])
          (if 1 < d ∧ ([] : List (Margins × Doc)) = []
            then (ruleIn? first).bind fun _ => none else none) := by
        refine denotes_tuple _ inside margins.after [] fun s _ => ?_
        refine outcome_field? true inside margins [] (denotes_ruleReader first) fun rule => ?_
        cases m with
        | state => exact (reads_field?_end false margins.after).refuses (Refuses.failData _)
        | log => exact (reads_field?_end false margins.after).refuses (Refuses.failData _)
      have hnone : paramsIn? m (.list inside [(margins, first)]) = none := rfl
      rw [hnone]
      simpa using h
    | (margins, first) :: (margins', second) :: rest =>
      have h : Denotes (paramsReader m) d
          (.list inside ((margins, first) :: (margins', second) :: rest))
          (if 1 < d ∧ rest = []
            then paramsIn? m (.list inside [(margins, first), (margins', second)]) else none) := by
        refine denotes_tuple _ inside margins'.after rest fun s _ => ?_
        refine outcome_field? true inside margins _ (denotes_ruleReader first) fun rule => ?_
        cases m with
        | state =>
          rw [secondIn?, Option.map_eq_bind]
          exact outcome_field? false margins.after margins' rest (denotes_codeReader second)
            fun code => .pure _
        | log =>
          rw [secondIn?, Option.map_eq_bind]
          exact outcome_field? false margins.after margins' rest
            (denotes_results (by omega) second) fun results => .pure _
      cases rest with
      | nil => rwa [if_pos ⟨by omega, rfl⟩] at h
      | cons x rest => rwa [if_neg (by simp)] at h
  · have hnone : paramsIn? m v = none := by
      cases v <;> simp_all [paramsIn?]
    rw [hnone]
    exact denotes_tuple_none _ fun inside items h => hv ⟨inside, items, h⟩

/-- A value read without types, `levels` of which may be inside each other. -/
def untypedIn? : Nat → Nat → Doc → Option Untyped
  | 0, _, _ => none
  | _ + 1, _, .null => some Untyped.null
  | _ + 1, _, .boolean b => some (Untyped.boolean b)
  | _ + 1, _, .number n => n.numeral?.map Untyped.number
  | _ + 1, _, .string t => t.text?.map Untyped.string
  | levels + 1, d, .list _ items =>
    if 1 < d then (items.mapM fun x => untypedIn? levels (d - 1) x.2).map Untyped.list else none
  | levels + 1, d, .object _ fields =>
    if 1 < d then
      ((Doc.keyed? fields).bind fun entries =>
        entries.foldlM (fun _ e => (untypedIn? levels (d - 1) e.2).map fun _ => ()) ()).map
          fun _ => Untyped.object
    else none

theorem denotes_untyped (levels : Nat) (v : Doc) :
    Denotes (untyped levels) d v (untypedIn? levels d v) := by
  induction levels generalizing d v with
  | zero => exact fun _ _ _ => Refuses.failAhead _
  | succ levels ih =>
    refine Denotes.located (denotes_valueStart fun x hx s hs => ?_)
    cases v with
    | null =>
      obtain rfl : x = _ := hx
      have hunit : Reads unit d (Doc.null.chars ++ s) () s :=
        (reads_valueStart_blanks .none (by decide)).bind
          ((reads_advance 'n').bind (reads_ident ['u', 'l', 'l']))
      exact hunit.outcome (.pure Untyped.null)
    | boolean b =>
      obtain rfl : x = _ := hx
      have hread := (denotes_boolean (d := d) (.boolean b)).map Untyped.boolean
      cases b <;> exact hread .none s hs
    | number n =>
      have hread := ((takes_number_numeral? n).2 d s hs).map Untyped.number
      rw [Doc.chars, NumberText.chars]
      rcases hx with ⟨hn, rfl⟩ | ⟨hn, hx⟩
      · rw [hn] at hread ⊢
        exact (reads_advance '-').outcome hread
      · rw [hn] at hread ⊢
        split
        case h_8 =>
          rw [if_pos hx]
          exact hread
        all_goals cases hx
    | string t =>
      obtain rfl : x = _ := hx
      exact (denotes_string (.string t)).map Untyped.string .none s hs
    | list inside items =>
      obtain rfl : x = _ := hx
      have hitem : ∀ x ∈ items,
          Denotes (untyped levels) (d - 1) x.2 (untypedIn? levels (d - 1) x.2) := fun x _ => ih x.2
      have hwithin := outcome_withinList (d := d) .none [] fun _ =>
        (outcome_items (s := s) hitem inside).map Untyped.list
      simpa [untypedIn?] using hwithin
    | object inside fields =>
      obtain rfl : x = _ := hx
      refine outcome_withinObject fun _ => ?_
      have hfield : ∀ x ∈ fields, ∀ (_ : Unit) (k : String), x.1.key.text? = some k →
          FieldDenotes (do
            colon
            discard (untyped levels)) (d - 1) x.2
            ((untypedIn? levels (d - 1) x.2).map fun _ => ()) :=
        fun x _ _ _ _ => ((ih x.2).map fun _ => ()).field
      rw [Option.map_eq_bind]
      exact (outcome_fields (f := fun _ _ v => (untypedIn? levels (d - 1) v).map fun _ => ()) hfield ()
        inside).seqRight (.pure _)

section

theorem toOption_bind {ε α β : Type} (x : Except ε α) (f : α → Except ε β) :
    (x >>= f).toOption = x.toOption.bind fun a => (f a).toOption := by
  cases x <;> rfl

theorem toOption_map {ε α β : Type} (f : α → β) (x : Except ε α) :
    (f <$> x).toOption = x.toOption.map f := by
  cases x <;> rfl

variable {levels : Nat}

/-- An untyped value has the kind of its document. -/
def SameKind : Doc → Untyped → Prop
  | .null, .null => True
  | .boolean b, .boolean b' => b = b'
  | .number n, .number numeral => n.numeral? = some numeral
  | .string t, .string text => t.text? = some text
  | .list _ _, .list _ => True
  | .object _ _, .object => True
  | _, _ => False

theorem sameKind_untypedIn? {v : Doc} {u : Untyped} (h : untypedIn? levels d v = some u) :
    SameKind v u := by
  cases levels with
  | zero => cases h
  | succ levels =>
    cases v with
    | null =>
      cases h
      trivial
    | boolean b =>
      cases h
      rfl
    | number n =>
      obtain ⟨numeral, hn, rfl⟩ := Option.map_eq_some_iff.mp h
      exact hn
    | string t =>
      obtain ⟨text, ht, rfl⟩ := Option.map_eq_some_iff.mp h
      exact ht
    | list inside items =>
      rw [untypedIn?] at h
      split at h
      · obtain ⟨us, _, rfl⟩ := Option.map_eq_some_iff.mp h
        trivial
      · cases h
    | object inside fields =>
      rw [untypedIn?] at h
      split at h
      · obtain ⟨_, _, rfl⟩ := Option.map_eq_some_iff.mp h
        trivial
      · cases h

theorem untypedIn?_bind_none {β : Type} {f : Untyped → Option β} {v : Doc}
    (h : ∀ u, SameKind v u → f u = none) : (untypedIn? levels d v).bind f = none :=
  Option.bind_eq_none_iff.mpr fun u hu => h u (sameKind_untypedIn? hu)

/-- A number among untyped values is judged as one at the cursor. -/
theorem untypedIn?_toNumeral {α : Type} (levels d : Nat) (accept : Numeral → Except Schema.Mismatch α) (v : Doc) :
    ((untypedIn? (levels + 1) d v).bind fun u => (u.toNumeral >>= accept).toOption) =
      v.numeral?.bind fun n => (accept n).toOption := by
  cases v with
  | number n =>
    rw [untypedIn?, Doc.numeral?]
    cases n.numeral? <;> rfl
  | _ =>
    refine untypedIn?_bind_none fun u hu => ?_
    cases u <;> first | rfl | cases hu

theorem untypedIn?_toBool (levels d : Nat) (v : Doc) :
    ((untypedIn? (levels + 1) d v).bind fun u => u.toBool.toOption) = v.boolean? := by
  cases v with
  | boolean b => rfl
  | _ =>
    refine untypedIn?_bind_none fun u hu => ?_
    cases u <;> first | rfl | cases hu

theorem mapM_toBool (levels d : Nat) (items : List (Margins × Doc)) :
    ((items.mapM fun x => untypedIn? (levels + 1) d x.2).bind fun us =>
      (us.mapM Untyped.toBool).toOption) = items.mapM fun x => x.2.boolean? := by
  induction items with
  | nil => rfl
  | cons x rest ih =>
    rw [List.mapM_cons, List.mapM_cons, ← ih, ← untypedIn?_toBool levels d]
    cases untypedIn? (levels + 1) d x.2 with
    | none => rfl
    | some u =>
      cases rest.mapM fun x => untypedIn? (levels + 1) d x.2 with
      | none =>
        simp only [Option.bind_some, Option.bind_none]
        cases u.toBool <;> rfl
      | some us =>
        have hcons : ((u :: us).mapM Untyped.toBool).toOption = u.toBool.toOption.bind fun b =>
            (us.mapM Untyped.toBool).toOption.bind fun bs => some (b :: bs) := by
          simp only [List.mapM_cons, toOption_bind]
          rfl
        exact hcons

/-- The results among untyped values. -/
def Untyped.results? : Untyped → Option (List Bool)
  | .list us => (us.mapM Untyped.toBool).toOption
  | _ => none

theorem untypedIn?_results? (levels : Nat) (hd : 1 < d) (v : Doc) :
    (untypedIn? (levels + 2) d v).bind Untyped.results? = resultsIn? v := by
  cases v with
  | list inside items =>
    rw [untypedIn?, if_pos hd, Option.bind_map, resultsIn?,
      ← mapM_toBool levels (d - 1)]
    rfl
  | _ =>
    refine untypedIn?_bind_none fun u hu => ?_
    cases u <;> first | rfl | cases hu

/-- The second parameter among untyped values. -/
def Untyped.second? (m : Method) (rule : RuleId) (u : Untyped) : Option Params :=
  match m with
  | .state => (u.toNumeral >>= codeOf).toOption.map (.state rule)
  | .log => u.results?.map (.log rule)

theorem toOption_toParams_list (m : Method) (first second : Untyped) (rest : List Untyped) :
    ((Untyped.list (first :: second :: rest)).toParams m).toOption =
      (first.toNumeral >>= ruleOf).toOption.bind fun rule =>
        if rest.isEmpty then second.second? m rule else none := by
  have hend : ∀ x : Except Schema.Mismatch Params, (do
      let params ← x
      if rest.isEmpty then .ok params
      else .error (.wrongLength (2 + rest.length) "2 elements in sequence")).toOption =
        if rest.isEmpty then x.toOption else none := by
    intro x
    cases x <;> cases rest <;> rfl
  unfold Untyped.toParams
  dsimp only
  rw [toOption_bind]
  refine congrArg _ (funext fun rule => ?_)
  cases m with
  | state => exact (hend _).trans (by rw [toOption_map]; rfl)
  | log =>
    cases second with
    | list results => exact (hend _).trans (by rw [toOption_map]; rfl)
    | _ => exact hend (.error _)

/-- Parameters that stand before the method are judged as those behind it. -/
theorem toParams_untypedIn? (levels : Nat) (hd : 2 < d) (m : Method) (v : Doc) :
    ((untypedIn? (levels + 3) d v).bind fun u => (u.toParams m).toOption) = paramsIn? m v := by
  cases v with
  | list inside items =>
    rw [untypedIn?, if_pos (by omega), Option.bind_map]
    match items with
    | [] => rfl
    | [x] =>
      have hnone : ∀ u, ((Untyped.list [u]).toParams m).toOption = none := by
        intro u
        unfold Untyped.toParams
        dsimp only
        rw [toOption_bind]
        cases (u.toNumeral >>= ruleOf).toOption <;> rfl
      rw [List.mapM_cons, List.mapM_nil, paramsIn?]
      · cases untypedIn? (levels + 2) (d - 1) x.2 with
        | none => rfl
        | some u => exact hnone u
      · simp
    | first :: second :: rest =>
      have hrule := untypedIn?_toNumeral (levels + 1) (d - 1) ruleOf first.2
      have hsecond : ∀ rule, ((untypedIn? (levels + 2) (d - 1) second.2).bind
          (Untyped.second? m rule)) = secondIn? m rule second.2 := by
        intro rule
        cases m with
        | state =>
          have hcode := untypedIn?_toNumeral (levels + 1) (d - 1) codeOf second.2
          rw [numeral?_codeOf] at hcode
          rw [secondIn?, ← hcode, Option.map_bind]
          rfl
        | log =>
          rw [secondIn?, ← untypedIn?_results? levels (d := d - 1) (by omega),
            Option.map_bind]
          rfl
      rw [numeral?_ruleOf] at hrule
      have hparams : paramsIn? m (.list inside (first :: second :: rest)) =
          if rest.isEmpty then (ruleIn? first.2).bind fun rule =>
            (untypedIn? (levels + 2) (d - 1) second.2).bind (Untyped.second? m rule)
          else none := by
        cases rest with
        | cons x rest => rfl
        | nil =>
          simp only [hsecond]
          rfl
      rw [hparams, ← hrule, List.mapM_cons, List.mapM_cons]
      cases untypedIn? (levels + 2) (d - 1) first.2 with
      | none => cases rest <;> rfl
      | some u =>
        cases untypedIn? (levels + 2) (d - 1) second.2 with
        | none => simp
        | some u' =>
          cases rest with
          | nil => exact toOption_toParams_list m u u' []
          | cons x rest =>
            rw [List.mapM_cons]
            cases untypedIn? (levels + 2) (d - 1) x.2 with
            | none => rfl
            | some u'' =>
              cases rest.mapM fun x => untypedIn? (levels + 2) (d - 1) x.2 with
              | none => rfl
              | some us =>
                have htoo := toOption_toParams_list m u u' (u'' :: us)
                simp only [List.isEmpty_cons, Bool.false_eq_true, if_false, Option.bind_fun_none] at htoo
                exact htoo
  | _ =>
    refine untypedIn?_bind_none fun u hu => ?_
    cases u <;> first | rfl | cases hu

end

end RuleScope.Wire
