import RuleScope.Proofs.RuleTree.Paths

namespace RuleScope

namespace Location

mutual
/-- The number of locations on the longest way down, this one included. -/
def height : Location → Nat
  | ⟨_, _, _, children⟩ => 1 + heightAll children

def heightAll : List Location → Nat
  | [] => 0
  | l :: rest => max l.height (heightAll rest)
end

end Location

namespace RuleTree

/-- The number of nodes from the root down to a node, both included. -/
def depth (t : RuleTree) (n : Nat) : Nat := (t.lineage n).length

variable {t t' : RuleTree} {n : Nat}

theorem lineage_congr (h : ∀ k ≤ n, t'.parent? k = t.parent? k) : t'.lineage n = t.lineage n := by
  induction n using Nat.strongRecOn with
  | ind n ih =>
    have hparent : (t'.node? n).bind Node.parent = (t.node? n).bind Node.parent :=
      h n (Nat.le_refl n)
    have habove : t'.above? n = t.above? n := by
      unfold above?
      rw [hparent]
    rw [lineage, habove, lineage]
    cases t.above? n with
    | none => rfl
    | some p =>
      obtain ⟨p, hp⟩ := p
      have hrest := ih p hp fun k hk => h k (by omega)
      exact congrArg (n :: ·) hrest

theorem depth_congr (h : ∀ k ≤ n, t'.parent? k = t.parent? k) : t'.depth n = t.depth n :=
  congrArg List.length (lineage_congr h)

theorem depth_pos (t : RuleTree) (n : Nat) : 0 < t.depth n := by
  rw [depth, lineage]
  split <;> exact Nat.succ_pos _

theorem depth_of_parent?_eq_none (h : t.parent? n = none) : t.depth n = 1 := by
  have habove : t.above? n = none := by
    have hp : (t.node? n).bind Node.parent = none := h
    simp only [above?, hp]
  rw [depth, lineage, habove]
  rfl

theorem depth_of_parent? {p : Nat} (hlt : p < n) (h : t.parent? n = some p) :
    t.depth n = t.depth p + 1 := by
  have habove : t.above? n = some ⟨p, hlt⟩ := by
    have hp : (t.node? n).bind Node.parent = some p := h
    simp only [above?, hp, dif_pos hlt]
  rw [depth, lineage, habove]
  rfl

theorem Added.depth_kept {parent : Option Nat} {ids : List Nat} (h : Added t t' parent ids)
    (hn : n < t.size) : t'.depth n = t.depth n :=
  depth_congr fun _ hk => h.parent?_kept (by omega)

/-- The nodes that `t'` has more than `t` lie down to `high` levels below depth `d`, and some node
lies as deep. -/
structure Deepens (t t' : RuleTree) (d high : Nat) : Prop where
  depth_le : ∀ n, t.size ≤ n → n < t'.size → t'.depth n ≤ d + high
  reached : ∃ n < t'.size, t'.depth n = d + high

mutual

theorem add_deepens (resolve : String → AbsPath) (parent : Option Nat) (l : Location)
    {t t' : RuleTree} (hs : t.Sound) (hp : ∀ p, parent = some p → p < t.size) (h : add resolve parent l t = .ok t') :
    Deepens t t' (parent.elim 0 t.depth) l.height := by
  obtain ⟨label, line, kind, children⟩ := l
  simp only [add, bind, Except.bind, pure, Except.pure] at h
  split at h
  next => cases h
  next t₁ h₁ =>
    split at h
    next => cases h
    next r h₂ =>
      cases h
      obtain ⟨node, hparent, _, _, alike⟩ := addNode_node h₁
      have hsize := size_of_push alike
      have hs₁ := addNode_sound hs hp h₁
      have hnode : t₁.parent? t.size = parent := by
        rw [parent?_of_push alike, if_pos rfl, hparent]
      have hold : ∀ k < t.size, t₁.depth k = t.depth k := by
        intro k hk
        apply depth_congr
        intro i hi
        rw [parent?_of_push alike, if_neg (by omega)]
      have hdepth : t₁.depth t.size = parent.elim 0 t.depth + 1 := by
        cases parent with
        | none => exact depth_of_parent?_eq_none hnode
        | some p =>
          have hlt := hp p rfl
          rw [depth_of_parent? hlt hnode, hold p hlt, Option.elim_some]
      have hlt₁ : t.size < t₁.size := by omega
      obtain ⟨_, ha⟩ := addAll_added resolve t.size children hs₁ hlt₁ h₂
      obtain ⟨hbelow, m, hm, hdm⟩ := addAll_deepens resolve t.size children hs₁ hlt₁ h₂
      have hkept := ha.depth_kept hlt₁
      have hle := ha.size_le
      -- Entering the children and the dependency leaves all parents as they are.
      have hcomplete : ∀ k, (r.1.complete parent t.size r.2).depth k = r.1.depth k :=
        fun k => depth_congr fun i _ => by rw [complete_parent?]
      have hcompleteSize := complete_size r.1 parent t.size r.2
      rw [hdepth] at hbelow hdm
      change Deepens t (r.1.complete parent t.size r.2) _ _
      rw [Location.height]
      constructor
      · intro n hge hlt
        rw [hcomplete]
        rcases Nat.lt_or_ge n t₁.size with hn | hn
        · obtain rfl : n = t.size := by omega
          rw [hkept, hdepth]
          omega
        · have := hbelow n hn (by omega)
          omega
      · refine ⟨m, by omega, ?_⟩
        rw [hcomplete, hdm]
        omega

theorem addAll_deepens (resolve : String → AbsPath) (p : Nat) (ls : List Location)
    {t t' : RuleTree} {ids : List Nat} (hs : t.Sound) (hp : p < t.size) (h : addAll resolve p ls t = .ok (t', ids)) :
    Deepens t t' (t.depth p) (Location.heightAll ls) := by
  cases ls with
  | nil =>
    cases h
    exact ⟨fun n hge hlt => absurd hlt (Nat.not_lt.mpr hge), p, hp, rfl⟩
  | cons l rest =>
    simp only [addAll, bind, Except.bind, pure, Except.pure] at h
    split at h
    next => cases h
    next t₁ h₁ =>
      split at h
      next => cases h
      next r h₂ =>
        cases h
        have hparent : ∀ q, some p = some q → q < t.size := by
          intro q hq
          cases hq
          exact hp
        obtain ⟨hs₁, ha₁, _⟩ := add_added resolve (some p) l hs hparent h₁
        have hp₁ : p < t₁.size := Nat.lt_of_lt_of_le hp ha₁.size_le
        obtain ⟨_, ha₂⟩ := addAll_added resolve p rest hs₁ hp₁ h₂
        have hfirst := add_deepens resolve (some p) l hs hparent h₁
        have hrest := addAll_deepens resolve p rest hs₁ hp₁ h₂
        rw [ha₁.depth_kept hp] at hrest
        have hmax : Location.heightAll (l :: rest) = max l.height (Location.heightAll rest) := rfl
        obtain ⟨n₁, hn₁, hd₁⟩ := hfirst.reached
        obtain ⟨n₂, hn₂, hd₂⟩ := hrest.reached
        have hle₂ := ha₂.size_le
        rw [hmax]
        constructor
        · intro n hge hlt
          rcases Nat.lt_or_ge n t₁.size with hn | hn
          · have := hfirst.depth_le n hge hn
            rw [ha₂.depth_kept hn]
            simp only [Option.elim_some] at this
            omega
          · have := hrest.depth_le n hn hlt
            omega
        · rcases Nat.le_total l.height (Location.heightAll rest) with hle | hle
          · exact ⟨n₂, hn₂, by rw [hd₂, Nat.max_eq_right hle]⟩
          · have hkept := ha₂.depth_kept hn₁
            exact ⟨n₁, by omega, by rw [hkept, hd₁, Nat.max_eq_left hle]; rfl⟩

end

/-- A built tree is as deep as its location tree is high. -/
theorem build_depth {resolve : String → AbsPath} {sourceRoot : String} {l : Location}
    (h : build resolve sourceRoot l = .ok t) :
    (∀ n < t.size, t.depth n ≤ l.height) ∧ ∃ n < t.size, t.depth n = l.height := by
  unfold build at h
  split at h
  next =>
    have hdeepens := add_deepens resolve none l (bare_sound _) (by simp) h
    have hnone : (none : Option Nat).elim 0 (bare (resolve sourceRoot)).depth = 0 := rfl
    rw [hnone] at hdeepens
    obtain ⟨n, hn, hd⟩ := hdeepens.reached
    refine ⟨fun k hk => ?_, n, hn, by omega⟩
    have := hdeepens.depth_le k (Nat.zero_le k) hk
    omega
  next => cases h

/-- A label path has one label for each node on the way. -/
theorem WellFormed.length_labelPath (wf : t.WellFormed) (hn : n < t.size) :
    (t.labelPath n).length = t.depth n := by
  induction n using Nat.strongRecOn with
  | ind n ih =>
    rcases wf.root_or_child hn with rfl | ⟨p, label, hlt, hp, hl⟩
    · rw [wf.labelPath_root, depth_of_parent?_eq_none wf.root_parent?]
      rfl
    · have hpath := ih p hlt (by omega)
      rw [wf.labelPath_child hp hl, depth_of_parent? hlt hp, List.length_append, hpath]
      rfl

end RuleTree

end RuleScope
