import Mathlib.Data.List.Basic
import RuleScope.Path.Absolute

namespace RuleScope

namespace Path

variable {piece cs rest : List Char}

theorem piecesFrom_append_of_not_mem (h : '/' ∉ cs) :
    piecesFrom piece (cs ++ rest) = piecesFrom (cs.reverse ++ piece) rest := by
  induction cs generalizing piece with
  | nil => rfl
  | cons c cs ih =>
    obtain ⟨hc, hcs⟩ := not_or.mp (mt List.mem_cons.mpr h)
    rw [List.cons_append, piecesFrom, if_neg (Ne.symm hc), ih hcs]
    simp

theorem piecesFrom_append (h : '/' ∉ cs) : piecesFrom piece (cs ++ '/' :: rest) =
    String.ofList (piece.reverse ++ cs) :: piecesFrom [] rest := by
  rw [piecesFrom_append_of_not_mem h, piecesFrom, if_pos rfl]
  simp

theorem piecesFrom_of_not_mem (h : '/' ∉ cs) :
    piecesFrom piece cs = [String.ofList (piece.reverse ++ cs)] := by
  have hend : piecesFrom piece (cs ++ []) = piecesFrom (cs.reverse ++ piece) [] :=
    piecesFrom_append_of_not_mem h
  rw [List.append_nil] at hend
  rw [hend, piecesFrom]
  simp

theorem toList_intercalate_cons_cons (a b : String) (labels : List String) :
    (String.intercalate "/" (a :: b :: labels)).toList =
      a.toList ++ '/' :: (String.intercalate "/" (b :: labels)).toList := by
  simp [String.intercalate_cons_cons]

/-- Labels without slashes come apart again as they were joined. -/
theorem pieces_intercalate {labels : List String} (h : ∀ label ∈ labels, '/' ∉ label.toList)
    (hne : labels ≠ []) : pieces (String.intercalate "/" labels) = labels := by
  unfold pieces
  induction labels with
  | nil => exact absurd rfl hne
  | cons a labels ih =>
    have ha : '/' ∉ a.toList := h a List.mem_cons_self
    cases labels with
    | nil => simp [String.intercalate_singleton, piecesFrom_of_not_mem ha]
    | cons b labels =>
      have hrest := ih (fun label hl => h label (List.mem_cons_of_mem a hl)) nofun
      rw [toList_intercalate_cons_cons, piecesFrom_append ha, hrest]
      simp

/-- Names with a slash before each. -/
theorem piecesFrom_flatMap {names : List String} (h : ∀ name ∈ names, '/' ∉ name.toList) :
    piecesFrom piece (names.flatMap fun name => '/' :: name.toList) =
      String.ofList piece.reverse :: names := by
  induction names generalizing piece with
  | nil => simp [piecesFrom]
  | cons name names ih =>
    have hname : '/' ∉ name.toList := h name List.mem_cons_self
    rw [List.flatMap_cons, List.cons_append, piecesFrom, if_pos rfl,
      piecesFrom_append_of_not_mem hname, ih fun n hn => h n (List.mem_cons_of_mem name hn)]
    simp

theorem not_mem_of_mem_piecesFrom {p : String} (hpiece : '/' ∉ piece)
    (h : p ∈ piecesFrom piece cs) : '/' ∉ p.toList := by
  induction cs generalizing piece with
  | nil =>
    obtain rfl := List.mem_singleton.mp h
    simpa using hpiece
  | cons c cs ih =>
    rw [piecesFrom] at h
    split at h
    next =>
      rcases List.mem_cons.mp h with rfl | h
      · simpa using hpiece
      · exact ih List.not_mem_nil h
    next hc => exact ih (by simp [hpiece, Ne.symm hc]) h

/-- What a piece of a path must be to name something. -/
def IsName (s : String) : Prop := s ≠ "" ∧ s ≠ "." ∧ s ≠ ".." ∧ '/' ∉ s.toList

instance (s : String) : Decidable (IsName s) :=
  inferInstanceAs (Decidable (s ≠ "" ∧ s ≠ "." ∧ s ≠ ".." ∧ '/' ∉ s.toList))

theorem partOfPiece?_of_isName {s : String} (h : IsName s) : partOfPiece? s = some (.name s) := by
  obtain ⟨hempty, hhere, hup, -⟩ := h
  simp [partOfPiece?, hempty, hhere, hup]

theorem isName_of_mem_parts {path s : String} (h : Part.name s ∈ parts path) : IsName s := by
  have hmem : Part.name s ∈ (pieces path).filterMap partOfPiece? := by
    unfold parts at h
    dsimp only at h
    split at h
    next => simpa using h
    next =>
      split at h
      next => simpa using h
      next => exact h
  obtain ⟨piece, hpiece, hpart⟩ := List.mem_filterMap.mp hmem
  unfold partOfPiece? at hpart
  split at hpart
  next => cases hpart
  next hne =>
    split at hpart
    next => cases hpart
    next hup =>
      cases hpart
      obtain ⟨hempty, hhere⟩ := not_or.mp hne
      exact ⟨hempty, hhere, hup, not_mem_of_mem_piecesFrom List.not_mem_nil hpiece⟩

end Path

namespace AbsPath

open RuleScope.Path

/-- All names of a place are names. -/
def Proper (p : AbsPath) : Prop := ∀ name ∈ p.names, IsName name

instance (p : AbsPath) : Decidable p.Proper :=
  inferInstanceAs (Decidable (∀ name ∈ p.names, IsName name))

variable {p : AbsPath}

theorem toList_join_names (names : List String) : (String.join (names.map ("/" ++ ·))).toList =
    names.flatMap fun name => '/' :: name.toList := by
  induction names with
  | nil => rfl
  | cons name names ih => simp [ih]

theorem toList_text (h : p ≠ root) : p.text.toList = p.names.flatMap fun name => '/' :: name.toList := by
  obtain ⟨names⟩ := p
  cases names with
  | nil => exact absurd rfl h
  | cons name names => exact toList_join_names (name :: names)

theorem isAbsolute_text (p : AbsPath) : isAbsolute p.text = true := by
  by_cases h : p = root
  · subst h
    rfl
  · obtain ⟨names⟩ := p
    cases names with
    | nil => exact absurd rfl h
    | cons name names => simp [isAbsolute, toList_text h]

/-- The text of a place starts at the root; between its slashes stand the names. -/
theorem pieces_text (h : p.Proper) (hroot : p ≠ root) : pieces p.text = "" :: p.names := by
  rw [pieces, toList_text hroot, piecesFrom_flatMap fun name hn => (h name hn).2.2.2]
  rfl

theorem parts_text (h : p.Proper) : parts p.text = .root :: p.names.map .name := by
  have htail : (pieces p.text).filterMap partOfPiece? = p.names.map .name := by
    by_cases hroot : p = root
    · subst hroot
      rfl
    · have hnames : p.names.filterMap partOfPiece? = p.names.map .name :=
        List.filterMap_eq_map_iff_forall_eq_some.mpr fun name hn => partOfPiece?_of_isName (h name hn)
      rw [pieces_text h hroot, List.filterMap_cons, hnames]
      rfl
  rw [parts, if_pos (isAbsolute_text p), htail]

theorem foldl_step_name (names : List String) (q : AbsPath) :
    (names.map Part.name).foldl step q = ⟨q.names ++ names⟩ := by
  induction names generalizing q with
  | nil => simp
  | cons name names ih =>
    rw [List.map_cons, List.foldl_cons, ih]
    simp [step, child]

/-- The text of a place names it from everywhere. -/
theorem lexical_text (h : p.Proper) (cwd : AbsPath) : lexical cwd p.text = p := by
  rw [lexical, parts_text h, List.foldl_cons, foldl_step_name]
  rfl

theorem step_proper (h : p.Proper) {part : Part} (hpart : ∀ s, part = .name s → IsName s) :
    (p.step part).Proper := by
  cases part with
  | root => exact fun name hn => nomatch hn
  | here => exact h
  | up => exact fun name hn => h name (List.dropLast_subset _ hn)
  | name s =>
    intro name hn
    rcases List.mem_append.mp hn with hn | hn
    · exact h name hn
    · rw [List.mem_singleton.mp hn]
      exact hpart s rfl

/-- What a path names from a proper place is proper. -/
theorem lexical_proper {cwd : AbsPath} (h : cwd.Proper) (path : String) : (lexical cwd path).Proper := by
  unfold lexical
  have hparts : ∀ s, Part.name s ∈ parts path → IsName s := fun s hs => isName_of_mem_parts hs
  generalize parts path = ps at hparts
  induction ps generalizing cwd with
  | nil => exact h
  | cons part ps ih =>
    refine ih (step_proper h ?_) fun s hs => hparts s (List.mem_cons_of_mem part hs)
    rintro s rfl
    exact hparts s List.mem_cons_self

end AbsPath

end RuleScope
