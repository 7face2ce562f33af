import RuleScope.Proofs.Sources.Batches

namespace RuleScope.SourceBatch

/-- `more` comes soon enough to prolong a burst whose last signal came at `last`, one signal after the
other, and `rest` does not. -/
inductive Prolonged (quiet : Nat) : Nat → List Signal → List Signal → Prop
  | stop {last : Nat} {rest : List Signal} :
      (∀ s ∈ rest.head?, last + quiet < s.time) → Prolonged quiet last [] rest
  | next {last : Nat} {s : Signal} {more rest : List Signal} :
      s.time ≤ last + quiet → Prolonged quiet s.time more rest →
        Prolonged quiet last (s :: more) rest

/-- Signals and their bursts. A burst starts with an event; between two bursts lie faults. -/
inductive Divided (quiet : Nat) : List Signal → List (List Signal) → Prop
  | nil : Divided quiet [] []
  | fault {s : Signal} {rest : List Signal} {bs : List (List Signal)} :
      s.event = none → Divided quiet rest bs → Divided quiet (s :: rest) bs
  | burst {s : Signal} {more rest : List Signal} {bs : List (List Signal)} :
      s.event.isSome = true → Prolonged quiet s.time more rest → Divided quiet rest bs →
        Divided quiet (s :: (more ++ rest)) ((s :: more) :: bs)

section

variable {quiet last : Nat} {signals more more' rest rest' : List Signal}
  {bs bs' : List (List Signal)}

theorem exists_prolonged (quiet last : Nat) (signals : List Signal) :
    ∃ more rest, signals = more ++ rest ∧ Prolonged quiet last more rest := by
  induction signals generalizing last with
  | nil => exact ⟨[], [], rfl, .stop (by simp)⟩
  | cons s signals ih =>
    by_cases hs : s.time ≤ last + quiet
    · obtain ⟨more, rest, rfl, h⟩ := ih s.time
      exact ⟨s :: more, rest, rfl, .next hs h⟩
    · exact ⟨[], s :: signals, rfl, .stop (by simpa using hs)⟩

theorem Prolonged.unique (h : Prolonged quiet last more rest) (h' : Prolonged quiet last more' rest')
    (heq : more ++ rest = more' ++ rest') : more = more' ∧ rest = rest' := by
  induction h generalizing more' with
  | stop hstop =>
    cases h' with
    | stop => exact ⟨rfl, heq⟩
    | next hs =>
      rw [List.nil_append] at heq
      exact absurd hs (Nat.not_le.mpr (hstop _ (by simp [heq])))
  | next hs _ ih =>
    cases h' with
    | stop hstop =>
      rw [List.nil_append] at heq
      exact absurd hs (Nat.not_le.mpr (hstop _ (by simp [← heq])))
    | next _ h' =>
      obtain ⟨rfl, htail⟩ := List.cons.inj heq
      obtain ⟨rfl, rfl⟩ := ih h' htail
      exact ⟨rfl, rfl⟩

theorem exists_divided (quiet : Nat) (signals : List Signal) : ∃ bs, Divided quiet signals bs := by
  induction hlength : signals.length using Nat.strongRecOn generalizing signals with
  | ind n ih =>
    cases signals with
    | nil => exact ⟨[], .nil⟩
    | cons s signals =>
      subst hlength
      cases hs : s.event with
      | none =>
        obtain ⟨bs, h⟩ := ih _ (by simp) signals rfl
        exact ⟨bs, .fault hs h⟩
      | some e =>
        obtain ⟨more, rest, rfl, hmore⟩ := exists_prolonged quiet s.time signals
        obtain ⟨bs, h⟩ := ih rest.length (by rw [List.length_cons, List.length_append]; omega) rest rfl
        exact ⟨_, .burst (by simp [hs]) hmore h⟩

theorem Divided.unique (h : Divided quiet signals bs) (h' : Divided quiet signals bs') :
    bs' = bs := by
  induction h generalizing bs' with
  | nil =>
    cases h'
    rfl
  | fault hs _ ih =>
    cases h' with
    | fault _ h' => exact ih h'
    | burst hs' => simp [hs] at hs'
  | @burst s more rest bs hs hmore _ ih =>
    generalize hsignals : s :: (more ++ rest) = signals at h'
    cases h' with
    | nil => cases hsignals
    | fault hs' =>
      obtain ⟨rfl, -⟩ := List.cons.inj hsignals
      simp [hs'] at hs
    | burst _ hmore' h' =>
      obtain ⟨rfl, htail⟩ := List.cons.inj hsignals
      obtain ⟨rfl, rfl⟩ := hmore.unique hmore' htail
      rw [ih h']

/-- Every event lies in a burst. -/
theorem Divided.exists_mem (h : Divided quiet signals bs) {s : Signal} (hs : s ∈ signals)
    (hevent : s.event.isSome = true) : ∃ b ∈ bs, s ∈ b := by
  induction h with
  | nil => cases hs
  | fault hfault _ ih =>
    rcases List.mem_cons.mp hs with rfl | hs
    · simp [hfault] at hevent
    · exact ih hs
  | @burst first more rest bs _ _ _ ih =>
    rw [← List.cons_append] at hs
    rcases List.mem_append.mp hs with hs | hs
    · exact ⟨_, List.mem_cons_self, hs⟩
    · obtain ⟨b, hb, hsb⟩ := ih hs
      exact ⟨b, List.mem_cons_of_mem _ hb, hsb⟩

end

section

variable (disk : Nat → Disk) (location : String) (quiet closing : Nat)

/-- All that is seen in a burst. -/
def seen (b : List Signal) : List SourceChange := b.flatMap (Signal.changes disk location)

namespace Pump

theorem run_closed : run disk location quiet closing .closed = [] := by
  rw [run, dif_pos rfl]

/-- Each wait hands out a batch or none, and the rest of the run follows. -/
theorem run_eq {p : Pump} (h : p ≠ .closed) : run disk location quiet closing p =
    (p.step disk location quiet closing).2.toList ++
      run disk location quiet closing (p.step disk location quiet closing).1 := by
  rw [run, dif_neg h]

theorem run_waiting (coming : List Signal) : run disk location quiet closing (.waiting coming) =
    match coming with
    | [] => []
    | s :: coming =>
      if s.event.isSome then
        run disk location quiet closing
          (.gathering s.time (ofChanges (s.changes disk location)) coming)
      else run disk location quiet closing (.waiting coming) := by
  have hstep := run_eq disk location quiet closing (p := .waiting coming) nofun
  cases coming with
  | nil => exact hstep.trans (run_closed disk location quiet closing)
  | cons s coming => cases hs : s.event <;> simpa [step, hs] using hstep

/-- A burst that is at its end is handed out, whether signals follow or the sender goes. -/
theorem run_gathering {last : Nat} {more rest : List Signal} (h : Prolonged quiet last more rest)
    (batch : SourceBatch) : run disk location quiet closing (.gathering last batch (more ++ rest)) =
      ((seen disk location more).foldl push batch).nonempty?.toList ++
        run disk location quiet closing (.waiting rest) := by
  induction h generalizing batch with
  | @stop last rest hstop =>
    have hstep := run_eq disk location quiet closing (p := .gathering last batch rest) (by simp)
    cases rest with
    | nil =>
      by_cases hc : closing ≤ last + quiet
      · simpa [step, receiveBy, hc, seen, run_closed, run_waiting] using hstep
      · simpa [step, receiveBy, hc, seen] using hstep
    | cons s rest =>
      have hlate : ¬ s.time ≤ last + quiet := Nat.not_le.mpr (hstop s rfl)
      simpa [step, receiveBy, hlate, seen] using hstep
  | @next last s more rest hs _ ih =>
    have hstep := run_eq disk location quiet closing
      (p := .gathering last batch (s :: (more ++ rest))) (by simp)
    simp only [step, receiveBy, if_pos hs, Option.toList_none, List.nil_append] at hstep
    rw [List.cons_append, hstep, ih, seen, seen, List.flatMap_cons, List.foldl_append]

/-- The batches of a run are those of the bursts in which something is seen. -/
theorem run_divided {signals : List Signal} {bs : List (List Signal)}
    (h : Divided quiet signals bs) : run disk location quiet closing (.waiting signals) =
      ((bs.map (seen disk location)).filter fun cs => !cs.isEmpty).map ofChanges := by
  induction h with
  | nil => exact run_waiting disk location quiet closing []
  | fault hs _ ih =>
    rw [run_waiting]
    simp only [hs, Option.isSome_none, Bool.false_eq_true, if_false]
    exact ih
  | @burst s more rest bs hs hmore _ ih =>
    have hbatch : (seen disk location more).foldl push (ofChanges (s.changes disk location)) =
        ofChanges (seen disk location (s :: more)) := by
      rw [seen, seen, ofChanges, ofChanges, List.flatMap_cons, List.foldl_append]
    rw [run_waiting]
    simp only [hs, if_true]
    rw [run_gathering disk location quiet closing hmore, ih, hbatch, nonempty?_ofChanges,
      List.map_cons, List.filter_cons]
    cases (seen disk location (s :: more)).isEmpty <;> simp

end Pump

/-- Whatever comes when, over any changes of the disk, and whenever the sender goes: the signals fall
into bursts in exactly one way, each burst in which a change is seen makes one batch, in order, and a
batch holds the first of all changes of its burst that are the same, in order. So each change that is
seen at any signal is in the batch of a burst, once. -/
theorem pump_delivers_bursts (signals : List Signal) :
    ∃ bs, Divided quiet signals bs ∧ (∀ bs', Divided quiet signals bs' → bs' = bs) ∧
      (pump disk location quiet closing signals).map SourceBatch.changes =
        ((bs.map (seen disk location)).filter fun cs => !cs.isEmpty).map firsts ∧
      (∀ b ∈ bs, ∀ c ∈ seen disk location b,
        (firsts (seen disk location b)).countP (·.same c) = 1) ∧
      ∀ s ∈ signals, ∀ c ∈ s.changes disk location, ∃ b ∈ bs, c ∈ seen disk location b := by
  obtain ⟨bs, h⟩ := exists_divided quiet signals
  refine ⟨bs, h, fun bs' h' => h.unique h', ?_, fun b _ c hc => ?_, fun s hs c hc => ?_⟩
  · rw [pump, Pump.run_divided disk location quiet closing h, List.map_map]
    exact List.map_congr_left fun cs _ => ofChanges_changes cs
  · rw [← ofChanges_changes, countP_ofChanges, if_pos]
    exact List.any_eq_true.mpr ⟨c, hc, SourceChange.same_refl c⟩
  · have hevent : s.event.isSome = true := by
      cases he : s.event with
      | none => simp [Signal.changes, he] at hc
      | some e => rfl
    obtain ⟨b, hb, hsb⟩ := h.exists_mem hs hevent
    exact ⟨b, hb, List.mem_flatMap.mpr ⟨s, hsb, hc⟩⟩

end

/-- A rule source is made and changed, with a fault of the system between; another fault comes in the lull,
and long after it the source is removed. -/
def twoBursts : List Signal :=
  [⟨0, some ⟨.create, ["/rules/rate.rudi"]⟩⟩, ⟨6, none⟩,
    ⟨14, some ⟨.data, ["/rules/rate.rudi", "/rules/fee.rudi"]⟩⟩, ⟨30, none⟩,
    ⟨50, some ⟨.remove, ["/rules/rate.rudi"]⟩⟩]

theorem pump_delivers_two_bursts :
    ∃ bs, Divided 10 twoBursts bs ∧ bs.map List.length = [3, 1] ∧
      (pump (fun _ => ⟨[], .root, 0⟩) "/rules/RuleLoc.yml" 10 50 twoBursts).map changes =
        [[.changed "/rules/rate.rudi", .changed "/rules/fee.rudi"],
          [.removed "/rules/rate.rudi"]] := by
  have divided : Divided 10 twoBursts [twoBursts.take 3, twoBursts.drop 4] :=
    .burst rfl (.next (by decide) (.next (by decide) (.stop (by decide))))
      (.fault rfl (.burst rfl (.stop (by decide)) .nil))
  obtain ⟨bs, hbs, hunique, hbatches, -⟩ :=
    pump_delivers_bursts (fun _ => ⟨[], .root, 0⟩) "/rules/RuleLoc.yml" 10 50 twoBursts
  obtain rfl := hunique _ divided
  refine ⟨_, hbs, rfl, ?_⟩
  rw [hbatches]
  decide +kernel

end RuleScope.SourceBatch
