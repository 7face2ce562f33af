import RuleScope.Proofs.Session.Tasks
import RuleScope.Proofs.Sources.Batches

namespace RuleScope

open SourceTree SourceChange

namespace SourceChange

variable {d : Disk} {root q : AbsPath}

theorem lastWord?_append (cs more : List SourceChange) : lastWord? d root q (cs ++ more) =
    (lastWord? d root q more).or (lastWord? d root q cs) := by
  simp [lastWord?, List.findSome?_append]

theorem lastWord?_eq_none_iff {cs : List SourceChange} :
    lastWord? d root q cs = none ↔ ∀ c ∈ cs, c.word? d root q = none := by
  simp [lastWord?]

theorem lastWord?_eq_some_iff {cs : List SourceChange} {b : Bool} :
    lastWord? d root q cs = some b ↔ ∃ pre c post, cs = pre ++ c :: post ∧
      c.word? d root q = some b ∧ ∀ x ∈ post, x.word? d root q = none := by
  constructor
  · intro h
    obtain ⟨l₁, c, l₂, hrev, hc, hl⟩ := List.findSome?_eq_some_iff.mp h
    refine ⟨l₂.reverse, c, l₁.reverse, ?_, hc, fun x hx => hl x (List.mem_reverse.mp hx)⟩
    simpa using congrArg List.reverse hrev
  · rintro ⟨pre, c, post, rfl, hc, hpost⟩
    rw [lastWord?_append, lastWord?_cons, lastWord?_eq_none_iff.mpr hpost, hc]
    rfl

/-- When all that is said of a path is the same, the last word is that. -/
theorem lastWord?_of_agree {cs : List SourceChange} {b : Bool}
    (h : ∀ c ∈ cs, c.word? d root q ≠ some !b) :
    lastWord? d root q cs = none ∨ lastWord? d root q cs = some b := by
  cases hl : lastWord? d root q cs with
  | none => exact Or.inl rfl
  | some b' =>
    obtain ⟨pre, c, post, rfl, hc, _⟩ := lastWord?_eq_some_iff.mp hl
    have hne := h c (by simp)
    rw [hc] at hne
    cases b <;> cases b' <;> simp_all

/-- Every repeat says of each path what the change says that it repeats, and nothing between the two
says otherwise. -/
def Harmless (d : Disk) (root : AbsPath) (cs : List SourceChange) : Prop :=
  ∀ pre c mid c' post, cs = pre ++ c :: (mid ++ c' :: post) → c.same c' = true →
    ∀ q b, c'.word? d root q = some b →
      c.word? d root q = some b ∧ ∀ x ∈ mid, x.word? d root q ≠ some !b

/-- Without removals there is nothing that contradicts a repeat. -/
theorem harmless_of_no_removal {cs : List SourceChange} (kept : ∀ path, removed path ∉ cs)
    (alike : ∀ c ∈ cs, ∀ c' ∈ cs, c.same c' = true → c = c') : Harmless d root cs := by
  have never : ∀ c ∈ cs, ∀ q, c.word? d root q ≠ some false := by
    intro c hc q
    cases c with
    | changed path =>
      simp only [word?]
      split <;> simp
    | removed path => exact absurd hc (kept path)
    | locationWritten => simp [word?]
  rintro pre c mid c' post rfl hsame q b hb
  obtain rfl : c = c' := alike c (by simp) c' (by simp) hsame
  refine ⟨hb, fun x hx => ?_⟩
  cases b with
  | false => exact absurd hb (never c (by simp) q)
  | true => exact never x (by simp [hx]) q

/-- The first change that is the same as a given one is that one, or is repeated by it. -/
theorem exists_first_same (pre : List SourceChange) (c' : SourceChange)
    (post : List SourceChange) :
    ∃ before c rest, pre ++ c' :: post = before ++ c :: rest ∧ (∀ x ∈ before, x.same c = false) ∧
      (c = c' ∧ rest = post ∨ ∃ mid, rest = mid ++ c' :: post ∧ c.same c' = true) := by
  cases hfind : pre.find? (·.same c') with
  | none =>
    have hnone := List.find?_eq_none.mp hfind
    exact ⟨pre, c', post, rfl, fun x hx => by simpa using hnone x hx, Or.inl ⟨rfl, rfl⟩⟩
  | some c =>
    obtain ⟨hsame, before, mid, hpre, hbefore⟩ := List.find?_eq_some_iff_append.mp hfind
    refine ⟨before, c, mid ++ c' :: post, by simp [hpre], fun x hx => ?_,
      Or.inr ⟨mid, rfl, hsame⟩⟩
    have hx := hbefore x hx
    by_contra hs
    simp [same_trans (by simpa using hs) hsame] at hx

theorem Harmless.lastWord?_ofChanges {cs : List SourceChange} (h : Harmless d root cs)
    (q : AbsPath) :
    lastWord? d root q (SourceBatch.ofChanges cs).changes = lastWord? d root q cs := by
  cases hl : lastWord? d root q cs with
  | none =>
    have said := lastWord?_eq_none_iff.mp hl
    exact lastWord?_eq_none_iff.mpr fun c hc => said c (SourceBatch.ofChanges_subset cs hc)
  | some b =>
    obtain ⟨pre, c', post, hcs, hc', hpost⟩ := lastWord?_eq_some_iff.mp hl
    obtain ⟨before, c, rest, hsplit, hfirst, hrepeat⟩ := exists_first_same pre c' post
    -- What is kept says `b` at `c`, and nothing else afterwards.
    have word : c.word? d root q = some b ∧ ∀ x ∈ rest, x.word? d root q ≠ some !b := by
      rcases hrepeat with ⟨rfl, rfl⟩ | ⟨mid, rfl, hsame⟩
      · exact ⟨hc', fun x hx => by simp [hpost x hx]⟩
      · obtain ⟨hc, hmid⟩ := h before c mid c' post (hcs.trans hsplit) hsame q b hc'
        refine ⟨hc, fun x hx => ?_⟩
        rcases List.mem_append.mp hx with hx | hx
        · exact hmid x hx
        · rcases List.mem_cons.mp hx with rfl | hx
          · cases b <;> simp [hc']
          · simp [hpost x hx]
    obtain ⟨more, hkept, hsub⟩ := SourceBatch.ofChanges_first rest hfirst
    rw [hcs, hsplit, hkept, lastWord?_append, lastWord?_cons, word.1]
    rcases lastWord?_of_agree fun x hx => word.2 x (hsub hx) with hm | hm
    · rw [hm]
      rfl
    · rw [hm]
      rfl

end SourceChange

namespace Session

variable {s : Session} {d : Disk}

/-- Every change of a burst on its own, repeats included. -/
def takeEach (s : Session) (d : Disk) (cs : List SourceChange) : Session :=
  s.workAll (cs.map fun c => .batch d ⟨[c]⟩)

/-- The last word of a burst on a path is lost with the repeats: what is left of the burst, or what
was known before, says otherwise. -/
def LosesWord (s : Session) (d : Disk) (cs : List SourceChange) (q : AbsPath) : Prop :=
  ∃ b, lastWord? d s.sources.root q cs = some b ∧
    (lastWord? d s.sources.root q (SourceBatch.ofChanges cs).changes).getD
      (decide (s.sources.Knows q)) = !b

theorem applyBatch_knows (h : s.sources.Closed) (d : Disk) (b : SourceBatch) (q : AbsPath) :
    (s.applyBatch d b).1.sources.Knows q ↔
      (lastWord? d s.sources.root q b.changes).getD (decide (s.sources.Knows q)) = true :=
  ((work_knows s (.batch d b)).2 q).trans ((foldl_follow_knows h d b.changes).2.2 q)

theorem takeEach_knows (h : s.sources.Closed) (d : Disk) (cs : List SourceChange) (q : AbsPath) :
    (s.takeEach d cs).sources.Knows q ↔
      (lastWord? d s.sources.root q cs).getD (decide (s.sources.Knows q)) = true := by
  induction cs generalizing s with
  | nil => simp [takeEach, workAll, lastWord?]
  | cons c rest ih =>
    obtain ⟨hclosed, hroot⟩ := work_closed h (.batch d ⟨[c]⟩)
    have first : (s.work (.batch d ⟨[c]⟩)).sources.Knows q ↔
        (c.word? d s.sources.root q).getD (decide (s.sources.Knows q)) = true := by
      simpa [lastWord?, work] using applyBatch_knows h d ⟨[c]⟩ q
    have step : s.takeEach d (c :: rest) = (s.work (.batch d ⟨[c]⟩)).takeEach d rest := rfl
    rw [step, ih hclosed, lastWord?_cons, hroot]
    cases lastWord? d s.sources.root q rest with
    | some b => rfl
    | none => simpa using first

theorem applyBatch_knows_iff (h : s.sources.Closed) (d : Disk) (cs : List SourceChange)
    (q : AbsPath) : ((s.applyBatch d (.ofChanges cs)).1.sources.Knows q ↔
      (s.takeEach d cs).sources.Knows q) ↔ ¬ s.LosesWord d cs q := by
  rw [applyBatch_knows h, takeEach_knows h, LosesWord]
  cases hl : lastWord? d s.sources.root q cs with
  | none =>
    -- The batch says nothing that the burst does not say.
    have said := lastWord?_eq_none_iff.mp hl
    have kept : lastWord? d s.sources.root q (SourceBatch.ofChanges cs).changes = none :=
      lastWord?_eq_none_iff.mpr fun c hc => said c (SourceBatch.ofChanges_subset cs hc)
    simp [kept]
  | some b =>
    generalize (lastWord? d s.sources.root q (SourceBatch.ofChanges cs).changes).getD
      (decide (s.sources.Knows q)) = kept
    cases b <;> cases kept <;> simp

/-- A rule source on disk that is not removed after its last change is there in the end. -/
theorem takeEach_knows_changed (h : s.sources.Closed) (pre : List SourceChange) {path : String}
    {post : List SourceChange} (file : d.isDirectory (d.place path).text = false)
    (source : (d.place path).isRuleSource = true)
    (inside : (d.place path).isWithin s.sources.root = true)
    (stays : ∀ c ∈ post, c.word? d s.sources.root (d.place path) ≠ some false) :
    (s.takeEach d (pre ++ .changed path :: post)).sources.Knows (d.place path) := by
  have word : (changed path).word? d s.sources.root (d.place path) = some true := by
    have hr : reaches s.sources.root (brought d s.sources.root (d.place path)) (d.place path) = true := by
      simp [brought, file, broughtByFile, source, reaches_iff, inside, AbsPath.isWithin_refl]
    simp [word?, hr]
  rw [takeEach_knows h, lastWord?_append, lastWord?_cons, word]
  rcases lastWord?_of_agree (b := true) stays with hp | hp <;> rw [hp] <;> rfl

/-- At any time, a burst that is taken in as one batch makes a path known exactly if it does so change
by change, unless the last word on the path is lost with the repeats. So a rule source on disk that is
not removed after its last change is known then, or that last word is lost; and a burst of harmless
repeats loses nothing. Every event comes with the disk on which it was seen. -/
theorem applyBatch_burst_knows_iff (d₀ : Disk) (settings : Settings) (tasks : List Task)
    (d : Disk) (location : String) (events : List (Disk × RawEvent)) :
    let s := (start d₀ settings).workAll tasks
    let cs := events.flatMap fun e => e.2.changes e.1 location
    (∀ q, ((s.applyBatch d (.ofChanges cs)).1.sources.Knows q ↔
      (s.takeEach d cs).sources.Knows q) ↔ ¬ s.LosesWord d cs q) ∧
    (∀ pre path post, cs = pre ++ .changed path :: post →
      d.isDirectory (d.place path).text = false → (d.place path).isRuleSource = true →
      (d.place path).isWithin s.sources.root = true →
      (∀ c ∈ post, c.word? d s.sources.root (d.place path) ≠ some false) →
      ((s.applyBatch d (.ofChanges cs)).1.sources.Knows (d.place path) ↔
        ¬ s.LosesWord d cs (d.place path))) ∧
    (Harmless d s.sources.root cs → ∀ q,
      (s.applyBatch d (.ofChanges cs)).1.sources.Knows q ↔
        (s.takeEach d cs).sources.Knows q) := by
  intro s cs
  have closed : s.sources.Closed := (workAll_closed (scan_closed d₀ _ _) tasks).1
  refine ⟨applyBatch_knows_iff closed d cs, fun pre path post hcs file source inside stays => ?_,
    fun harmless q => ?_⟩
  · have known := takeEach_knows_changed closed pre file source inside stays
    rw [← hcs] at known
    rw [← applyBatch_knows_iff closed d cs]
    exact (iff_true_right known).symm
  · refine (applyBatch_knows_iff closed d cs q).mpr fun ⟨b, hlast, hkept⟩ => ?_
    rw [harmless.lastWord?_ofChanges, hlast] at hkept
    cases b <;> cases hkept

/-- A project at work with one rule source. -/
def oneSource : Session :=
  (start (rulesDisk [("main.rudi", 100)]) rulesSettings).workAll
    [.rebuild (rulesDisk [("main.rudi", 100)])]

/-- Its disk with a second rule source, no newer than the location file. -/
def secondSource : Disk := rulesDisk [("main.rudi", 100), ("new.rudi", 100)]

/-- The second rule source is made, and once more after another was written. -/
def writtenTwice : List RawEvent :=
  [⟨.create, ["/rules/new.rudi"]⟩, ⟨.data, ["/rules/main.rudi"]⟩, ⟨.create, ["/rules/new.rudi"]⟩]

theorem applyBatch_burst_knows_writtenTwice :
    (∀ q, (oneSource.applyBatch secondSource
        (.ofBurst secondSource "/rules/RuleLoc.yml" writtenTwice)).1.sources.Knows q ↔
      (oneSource.takeEach secondSource (writtenTwice.flatMap fun e =>
        e.changes secondSource "/rules/RuleLoc.yml")).sources.Knows q) ∧
    (oneSource.applyBatch secondSource
      (.ofBurst secondSource "/rules/RuleLoc.yml" writtenTwice)).1.sources.Knows
        ⟨["rules", "new.rudi"]⟩ := by
  have changes : (writtenTwice.flatMap fun e => e.changes secondSource "/rules/RuleLoc.yml") =
      [.changed "/rules/new.rudi", .changed "/rules/main.rudi", .changed "/rules/new.rudi"] := by
    decide +kernel
  obtain ⟨-, -, hsame⟩ := applyBatch_burst_knows_iff (rulesDisk [("main.rudi", 100)])
    rulesSettings [.rebuild (rulesDisk [("main.rudi", 100)])] secondSource "/rules/RuleLoc.yml"
    (writtenTwice.map fun e => (secondSource, e))
  rw [List.flatMap_map] at hsame
  have same := hsame (by
    rw [changes]
    exact harmless_of_no_removal (by simp) (by decide +kernel))
  refine ⟨same, (same _).mpr ?_⟩
  rw [changes]
  decide +kernel

/-- The second rule source is made, removed and made again. -/
def madeAgain : List RawEvent :=
  [⟨.create, ["/rules/new.rudi"]⟩, ⟨.remove, ["/rules/new.rudi"]⟩, ⟨.create, ["/rules/new.rudi"]⟩]

/-- The batch leaves the second making out, and the file on disk is not known. -/
theorem not_applyBatch_burst_knows_madeAgain :
    secondSource.entry? ⟨["rules", "new.rudi"]⟩ = some (.file "" 100) ∧
    (madeAgain.flatMap fun e => e.changes secondSource "/rules/RuleLoc.yml") =
      [.changed "/rules/new.rudi", .removed "/rules/new.rudi", .changed "/rules/new.rudi"] ∧
    (oneSource.takeEach secondSource (madeAgain.flatMap fun e =>
      e.changes secondSource "/rules/RuleLoc.yml")).sources.Knows ⟨["rules", "new.rudi"]⟩ ∧
    ¬ (oneSource.applyBatch secondSource
      (.ofBurst secondSource "/rules/RuleLoc.yml" madeAgain)).1.sources.Knows
        ⟨["rules", "new.rudi"]⟩ := by
  decide +kernel

end Session

end RuleScope
