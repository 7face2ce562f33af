import RuleScope.Proofs.Wire.Decoding

namespace RuleScope.Wire

open Json Json.Reader

variable {d : Nat}

/-- The method name, where it is given once. -/
def methodIn? (entries : List (String × Doc)) : Option String :=
  match Doc.valuesAt "method" entries with
  | [v] => v.text?
  | _ => none

/-- The parameters, where they are given once. -/
def paramsAt? (m : Method) (entries : List (String × Doc)) : Option Params :=
  match Doc.valuesAt "params" entries with
  | [v] => paramsIn? m v
  | _ => none

def methodStep (found : Option String) (key : String) (v : Doc) : Option (Option String) :=
  if key = "method" then if found.isSome then none else v.text?.map some else some found

theorem foldlM_methodStep_some (name : String) (entries : List (String × Doc)) :
    entries.foldlM (fun found e => methodStep found e.1 e.2) (some name) =
      if Doc.valuesAt "method" entries = [] then some (some name) else none := by
  induction entries with
  | nil => rfl
  | cons e rest ih =>
    obtain ⟨key, v⟩ := e
    rw [List.foldlM_cons, Doc.valuesAt_cons, methodStep]
    by_cases hk : key = "method"
    · simp [hk]
    · simpa [hk] using ih

theorem foldlM_methodStep (entries : List (String × Doc)) :
    (entries.foldlM (fun found e => methodStep found e.1 e.2) none).bind id = methodIn? entries := by
  induction entries with
  | nil => rfl
  | cons e rest ih =>
    obtain ⟨key, v⟩ := e
    rw [List.foldlM_cons, methodIn?, Doc.valuesAt_cons, methodStep]
    by_cases hk : key = "method"
    · have hsome := fun name => foldlM_methodStep_some name rest
      cases hv : v.text? with
      | none => cases Doc.valuesAt "method" rest <;> simp [hk, hv]
      | some name => cases hr : Doc.valuesAt "method" rest <;> simp [hk, hv, hsome, hr]
    · simpa [hk, methodIn?] using ih

/-- The first reading finds the method. -/
theorem denotes_methodReader (hd : 1 < d) (inside : Blanks) (fields : List (Label × Doc)) :
    Denotes methodReader d (.object inside fields) ((Doc.keyed? fields).bind methodIn?) := by
  have hstep : ∀ x ∈ fields, ∀ found key, x.1.key.text? = some key →
      FieldDenotes (if key = "method" then once "method" found Reader.string
        else skipField *> pure found) (d - 1) x.2 (methodStep found key x.2) := by
    intro x _ found key _
    unfold methodStep
    by_cases hk : key = "method"
    · rw [if_pos hk, if_pos hk]
      exact (denotes_string x.2).once "method" found
    · rw [if_neg hk, if_neg hk]
      exact fieldDenotes_skipField found x.2
  have hrecord : Denotes methodReader d (.object inside fields)
      (if 1 < d then (Doc.keyed? fields).bind methodIn? else none) := by
    refine denotes_record _ inside fun s _ => ?_
    have hfound : methodIn? = fun entries : List (String × Doc) =>
        (entries.foldlM (fun found e => methodStep found e.1 e.2) none).bind id :=
      funext fun entries => (foldlM_methodStep entries).symm
    rw [hfound, ← Option.bind_assoc]
    refine (outcome_fields hstep none inside).bind fun found _ => ?_
    cases found with
    | some name => exact .pure name
    | none => exact Refuses.failData _
  rwa [if_pos hd] at hrecord

/-- What is known when the method has been read too. -/
def withMethod? (v : Doc) : Progress → Option Progress
  | .start => (v.text?.bind Method.ofName?).map .method
  | .params u => (v.text?.bind Method.ofName?).bind fun m => (u.toParams m).toOption.map .done
  | _ => none

/-- What is known when the parameters have been read at depth `d` too. -/
def withParams? (d : Nat) (v : Doc) : Progress → Option Progress
  | .start => (untypedIn? depthLimit d v).map .params
  | .method m => (paramsIn? m v).map .done
  | _ => none

def messageStep (d : Nat) (progress : Progress) (key : String) (v : Doc) : Option Progress :=
  if key = "method" then withMethod? v progress
  else if key = "params" then withParams? d v progress
  else some progress

theorem fieldDenotes_messageField (hd : 2 < d) (progress : Progress) (key : String) (v : Doc)
    (hv : key = "method" → ∃ t, v = .string t) :
    FieldDenotes (messageField progress key) d v (messageStep d progress key v) := by
  unfold messageField messageStep
  by_cases hm : key = "method"
  · rw [if_pos hm, if_pos hm]
    obtain ⟨t, rfl⟩ := hv hm
    have hvariant := denotes_variant_string (d := d) methodNames Method.ofName? t
    cases progress with
    | start => exact (hvariant.map Progress.method).field
    | params u =>
      refine Denotes.field (hvariant.bind fun m _ s => ?_)
      unfold settle
      cases u.toParams m with
      | ok p => exact .pure (Progress.done p)
      | error e => exact Refuses.failData e
    | _ => exact fun _ _ _ _ => Refuses.failData _
  · rw [if_neg hm, if_neg hm]
    by_cases hp : key = "params"
    · rw [if_pos hp, if_pos hp]
      cases progress with
      | start => exact ((denotes_untyped depthLimit v).map Progress.params).field
      | method m => exact ((denotes_paramsReader hd m v).map Progress.done).field
      | _ => exact fun _ _ _ _ => Refuses.failData _
    · rw [if_neg hp, if_neg hp]
      exact fieldDenotes_skipField progress v

/-- The parameters, once they have been judged. -/
def Progress.params? : Progress → Option Params
  | .done p => some p
  | _ => none

section

variable (entries : List (String × Doc))

/-- Behind the parameters neither field may come again. -/
theorem foldlM_messageStep_done (p : Params) :
    entries.foldlM (fun progress e => messageStep d progress e.1 e.2) (.done p) =
      if Doc.valuesAt "method" entries = [] ∧ Doc.valuesAt "params" entries = []
      then some (.done p) else none := by
  induction entries with
  | nil => rfl
  | cons e rest ih =>
    obtain ⟨key, v⟩ := e
    rw [List.foldlM_cons, Doc.valuesAt_cons, Doc.valuesAt_cons, messageStep]
    by_cases hm : key = "method"
    · simp [hm, withMethod?]
    · by_cases hp : key = "params"
      · simp [hp, withParams?]
      · simpa [hm, hp] using ih

/-- Behind the method the parameters must come once. -/
theorem foldlM_messageStep_method (m : Method) (hnone : Doc.valuesAt "method" entries = []) :
    (entries.foldlM (fun progress e => messageStep d progress e.1 e.2) (.method m)).bind
      Progress.params? = paramsAt? m entries := by
  induction entries with
  | nil => rfl
  | cons e rest ih =>
    obtain ⟨key, v⟩ := e
    rw [Doc.valuesAt_cons] at hnone
    have hm : key ≠ "method" := by
      intro hm
      simp [hm] at hnone
    rw [if_neg hm] at hnone
    rw [List.foldlM_cons, paramsAt?, Doc.valuesAt_cons, messageStep, if_neg hm]
    by_cases hp : key = "params"
    · have hdone := fun p => foldlM_messageStep_done (d := d) rest p
      rw [if_pos hp, if_pos hp, withParams?]
      cases hv : paramsIn? m v with
      | none => cases Doc.valuesAt "params" rest <;> simp [hv]
      | some p => cases hr : Doc.valuesAt "params" rest <;> simp [hv, hdone, hnone, hr, Progress.params?]
    · rw [if_neg hp, if_neg hp]
      exact ih hnone

/-- Behind parameters without a method, the method must come once and the parameters not again. -/
theorem foldlM_messageStep_params (u : Untyped) {m : Method} {v : Doc}
    (hone : Doc.valuesAt "method" entries = [v]) (hv : v.text?.bind Method.ofName? = some m) :
    (entries.foldlM (fun progress e => messageStep d progress e.1 e.2) (.params u)).bind
        Progress.params? =
      if Doc.valuesAt "params" entries = [] then (u.toParams m).toOption else none := by
  induction entries with
  | nil => cases hone
  | cons e rest ih =>
    obtain ⟨key, v'⟩ := e
    rw [Doc.valuesAt_cons] at hone
    rw [List.foldlM_cons, Doc.valuesAt_cons, messageStep]
    by_cases hm : key = "method"
    · rw [if_pos hm] at hone
      obtain ⟨rfl, hnone⟩ := List.cons.inj hone
      have hdone := fun p => foldlM_messageStep_done (d := d) rest p
      have hp : key ≠ "params" := by rw [hm]; decide
      rw [if_pos hm, if_neg hp, withMethod?, hv, Option.bind_some]
      cases hu : (u.toParams m).toOption with
      | none => simp
      | some p => by_cases hr : Doc.valuesAt "params" rest = [] <;> simp [hdone, hnone, hr, Progress.params?]
    · rw [if_neg hm] at hone
      rw [if_neg hm]
      by_cases hp : key = "params"
      · simp [hp, withParams?]
      · rw [if_neg hp, if_neg hp]
        exact ih hone

/-- Whichever comes first, the parameters are judged by the method. -/
theorem foldlM_messageStep (hd : 2 < d) {m : Method} {v : Doc}
    (hone : Doc.valuesAt "method" entries = [v]) (hv : v.text?.bind Method.ofName? = some m) :
    (entries.foldlM (fun progress e => messageStep d progress e.1 e.2) .start).bind
      Progress.params? = paramsAt? m entries := by
  induction entries with
  | nil => cases hone
  | cons e rest ih =>
    obtain ⟨key, v'⟩ := e
    rw [Doc.valuesAt_cons] at hone
    rw [List.foldlM_cons, paramsAt?, Doc.valuesAt_cons, messageStep]
    by_cases hm : key = "method"
    · rw [if_pos hm] at hone
      obtain ⟨rfl, hnone⟩ := List.cons.inj hone
      have hp : key ≠ "params" := by rw [hm]; decide
      rw [if_pos hm, if_neg hp, withMethod?, hv]
      exact foldlM_messageStep_method rest m hnone
    · rw [if_neg hm] at hone
      rw [if_neg hm]
      by_cases hp : key = "params"
      · have hparams := fun u => foldlM_messageStep_params (d := d) rest u hone hv
        have htyped : ((untypedIn? depthLimit d v').bind fun u => (u.toParams m).toOption) =
            paramsIn? m v' := toParams_untypedIn? 125 hd m v'
        rw [if_pos hp, if_pos hp, withParams?]
        cases hr : Doc.valuesAt "params" rest with
        | nil =>
          refine Eq.trans ?_ htyped
          cases untypedIn? depthLimit d v' with
          | none => rfl
          | some u => simpa [hr] using hparams u
        | cons w rest' =>
          cases untypedIn? depthLimit d v' with
          | none => rfl
          | some u => simpa [hr] using hparams u
      · rw [if_neg hp, if_neg hp]
        exact ih hone

end

theorem text?_eq_some {v : Doc} {text : String} (h : v.text? = some text) : ∃ t, v = .string t := by
  cases v with
  | string t => exact ⟨t, rfl⟩
  | _ => cases h

theorem methodIn?_eq_some {entries : List (String × Doc)} {name : String}
    (h : methodIn? entries = some name) :
    ∃ v, Doc.valuesAt "method" entries = [v] ∧ v.text? = some name := by
  unfold methodIn? at h
  split at h
  next v hone => exact ⟨v, hone, h⟩
  next => cases h

/-- The second reading finds the parameters of a method that the first one has found. -/
theorem denotes_messageReader (hd : 3 < d) (inside : Blanks) {fields : List (Label × Doc)}
    {entries : List (String × Doc)} (hkeyed : Doc.keyed? fields = some entries) {name : String}
    (hname : methodIn? entries = some name) {m : Method} (hm : Method.ofName? name = some m) :
    Denotes messageReader d (.object inside fields) (paramsAt? m entries) := by
  obtain ⟨v, hone, hv⟩ := methodIn?_eq_some hname
  have hstep : ∀ x ∈ fields, ∀ progress key, x.1.key.text? = some key →
      FieldDenotes (messageField progress key) (d - 1) x.2 (messageStep (d - 1) progress key x.2) := by
    intro x hx progress key hkey
    refine fieldDenotes_messageField (by omega) progress key x.2 fun hmethod => ?_
    have hmem : x.2 ∈ Doc.valuesAt "method" entries := by
      rw [hmethod] at hkey
      exact Doc.mem_valuesAt.mpr (Doc.mem_of_keyed? hkeyed hx hkey)
    rw [hone, List.mem_singleton] at hmem
    rw [hmem]
    exact text?_eq_some hv
  have hrecord : Denotes messageReader d (.object inside fields)
      (if 1 < d then paramsAt? m entries else none) := by
    refine denotes_record _ inside fun s _ => ?_
    have hfold := foldlM_messageStep (d := d - 1) entries (by omega) hone
      (by rw [hv, Option.bind_some, hm])
    have hfields := outcome_fields (s := s) hstep .start inside
    rw [hkeyed, Option.bind_some] at hfields
    rw [← hfold]
    refine hfields.bind fun progress _ => ?_
    cases progress with
    | done p => exact .pure p
    | _ => exact Refuses.failData _
  rwa [if_pos (by omega)] at hrecord

/-- What a line says that is an object with these fields. -/
def messageIn? (entries : List (String × Doc)) : Option (Option Message) :=
  (methodIn? entries).bind fun name =>
    match Method.ofName? name with
    | none => some none
    | some m => (paramsAt? m entries).bind fun params => params.toMessage.toOption.map some

theorem decode_object (lead trail inside : Blanks) (fields : List (Label × Doc)) :
    (decode (String.ofList
      (lead.chars ++ ((Doc.object inside fields).chars ++ trail.chars)))).toOption =
      (Doc.keyed? fields).bind messageIn? := by
  have hend : EndsNumber trail.chars := by
    have h := EndsNumber.blanks trail (s := []) (by simp [EndsNumber])
    rwa [List.append_nil] at h
  have whole : ∀ {α : Type} {r : Json.Reader α} {o : Option α},
      Denotes r depthLimit (.object inside fields) o → (run r (String.ofList
        (lead.chars ++ ((Doc.object inside fields).chars ++ trail.chars)))).toOption = o := by
    intro α r o h
    refine run_of_outcome trail ?_
    rw [String.toList_ofList]
    exact h lead trail.chars hend
  have hmethod := whole (denotes_methodReader (by decide) inside fields)
  unfold decode
  generalize String.ofList (lead.chars ++ ((Doc.object inside fields).chars ++ trail.chars)) = line at *
  cases hr : run methodReader line with
  | error e =>
    rw [hr] at hmethod
    cases hk : Doc.keyed? fields with
    | none => rfl
    | some entries =>
      rw [hk, Option.bind_some] at hmethod
      rw [Option.bind_some, messageIn?, ← hmethod]
      rfl
  | ok name =>
    rw [hr] at hmethod
    obtain ⟨entries, hk, hname⟩ := Option.bind_eq_some_iff.mp hmethod.symm
    rw [hk, Option.bind_some, messageIn?, hname, Option.bind_some]
    cases hm : Method.ofName? name with
    | none =>
      simp only [hm]
      rfl
    | some m =>
      have hmessage := whole (denotes_messageReader (by decide) inside hk hname hm)
      simp only [hm, ← hmessage]
      cases run messageReader line with
      | error e => rfl
      | ok params => exact toOption_map some params.toMessage

end RuleScope.Wire
