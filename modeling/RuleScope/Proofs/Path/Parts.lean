import RuleScope.Proofs.Path.Written

namespace RuleScope

namespace Path

theorem piecesFrom_append_slash (piece cs rest : List Char) :
    piecesFrom piece (cs ++ '/' :: rest) = piecesFrom piece cs ++ piecesFrom [] rest := by
  induction cs generalizing piece with
  | nil =>
    rw [List.nil_append, piecesFrom, piecesFrom, if_pos rfl]
    rfl
  | cons c cs ih =>
    rw [List.cons_append, piecesFrom, piecesFrom]
    split
    next => rw [ih, List.cons_append]
    next => exact ih _

theorem piecesFrom_ne_nil (piece cs : List Char) : piecesFrom piece cs ≠ [] := by
  induction cs generalizing piece with
  | nil => exact List.cons_ne_nil _ _
  | cons c cs ih =>
    rw [piecesFrom]
    split
    next => exact List.cons_ne_nil _ _
    next => exact ih _

/-- The first piece goes on from where it was left. -/
theorem exists_head_piecesFrom (piece cs : List Char) :
    ∃ more rest, piecesFrom piece cs = String.ofList (piece.reverse ++ more) :: rest := by
  induction cs generalizing piece with
  | nil => exact ⟨[], [], by rw [piecesFrom, List.append_nil]⟩
  | cons c cs ih =>
    rw [piecesFrom]
    split
    next => exact ⟨[], piecesFrom [] cs, by rw [List.append_nil]⟩
    next =>
      obtain ⟨more, rest, h⟩ := ih (c :: piece)
      exact ⟨c :: more, rest, by simp [h]⟩

theorem pieces_append_slash (base path : String) :
    pieces (base ++ "/" ++ path) = pieces base ++ pieces path := by
  have htext : (base ++ "/" ++ path).toList = base.toList ++ '/' :: path.toList := by simp
  rw [pieces, htext, piecesFrom_append_slash, pieces, pieces]

/-- An absolute path has nothing before its first slash. -/
theorem isAbsolute_iff {path : String} :
    isAbsolute path = true ↔ ∃ rest, rest ≠ [] ∧ pieces path = "" :: rest := by
  unfold isAbsolute pieces
  cases path.toList with
  | nil => simp [piecesFrom]
  | cons c cs =>
    by_cases hc : c = '/'
    · subst hc
      simp [piecesFrom, piecesFrom_ne_nil]
    · obtain ⟨more, rest, h⟩ := exists_head_piecesFrom [c] cs
      simp [piecesFrom, hc, h]

/-- A slash at the end of a directory is used, and set where there is none. -/
theorem exists_pieces_join {dir path : String} (hdir : dir ≠ "") (hpath : isAbsolute path = false) :
    ∃ ps, ps ≠ [] ∧ (pieces dir = ps ∨ pieces dir = ps ++ [""]) ∧
      pieces (join dir path) = ps ++ pieces path := by
  unfold join
  rw [if_neg (by simp [hpath]), if_neg hdir]
  split
  next hslash =>
    obtain ⟨base, hbase⟩ := List.getLast?_eq_some_iff.mp hslash
    have htext : dir = String.ofList base ++ "/" ++ "" := by
      rw [← String.toList_inj, hbase]
      simp
    refine ⟨pieces (String.ofList base), piecesFrom_ne_nil _ _, .inr ?_, ?_⟩
    · rw [htext, pieces_append_slash]
      rfl
    · rw [htext, String.append_empty, pieces_append_slash]
  next => exact ⟨pieces dir, piecesFrom_ne_nil _ _, .inl rfl, pieces_append_slash dir path⟩

theorem exists_join_eq_append {dir path : String} (hpath : isAbsolute path = false) :
    ∃ more, join dir path = dir ++ more := by
  unfold join
  rw [if_neg (by simp [hpath])]
  split
  next hdir => exact ⟨path, by rw [hdir, String.empty_append]⟩
  next =>
    split
    next => exact ⟨path, rfl⟩
    next => exact ⟨"/" ++ path, String.append_assoc⟩

/-- The parts of a path whose pieces are known. -/
theorem parts_eq (path : String) : parts path =
    (if isAbsolute path then [.root] else if (pieces path).head? = some "." then [.here] else []) ++
      (pieces path).filterMap partOfPiece? := by
  unfold parts
  dsimp only
  split
  next => rfl
  next =>
    split
    next => rfl
    next => rfl

theorem isAbsolute_join {dir path : String} (hdir : dir ≠ "") (hpath : isAbsolute path = false) :
    isAbsolute (join dir path) = isAbsolute dir := by
  have hne : dir.toList ≠ [] := fun he => hdir (String.toList_inj.mp he)
  unfold join
  rw [if_neg (by simp [hpath]), if_neg hdir]
  split <;> simp [isAbsolute, List.head?_append_of_ne_nil _ hne]

/-- A relative path goes on from the directory before it. -/
theorem parts_join {dir path : String} (hdir : dir ≠ "") (hpath : isAbsolute path = false) :
    parts (join dir path) = parts dir ++ (pieces path).filterMap partOfPiece? := by
  obtain ⟨ps, hne, hps, hjoin⟩ := exists_pieces_join hdir hpath
  have hhead : (pieces (join dir path)).head? = (pieces dir).head? := by
    rw [hjoin, List.head?_append_of_ne_nil _ hne]
    rcases hps with h | h
    · rw [h]
    · rw [h, List.head?_append_of_ne_nil _ hne]
  have hparts : (pieces (join dir path)).filterMap partOfPiece? =
      (pieces dir).filterMap partOfPiece? ++ (pieces path).filterMap partOfPiece? := by
    rw [hjoin, List.filterMap_append]
    rcases hps with h | h
    · rw [h]
    · rw [h, List.filterMap_append]
      simp [partOfPiece?]
  rw [parts_eq, parts_eq, isAbsolute_join hdir hpath, hhead, hparts, List.append_assoc]

section

variable {name : String} (h : IsName name)
include h

theorem IsName.isAbsolute : isAbsolute name = false := by
  obtain ⟨-, -, -, hslash⟩ := h
  unfold Path.isAbsolute
  cases hchars : name.toList with
  | nil => rfl
  | cons c cs =>
    rw [hchars] at hslash
    have hc : c ≠ '/' := fun he => hslash (he ▸ List.mem_cons_self)
    simpa using hc

theorem IsName.pieces : pieces name = [name] := by
  rw [Path.pieces, piecesFrom_of_not_mem h.2.2.2]
  simp

/-- A name behind a directory is one part more. -/
theorem parts_join_name (dir : String) : parts (join dir name) = parts dir ++ [.name name] := by
  have hname : [name].filterMap partOfPiece? = [.name name] := by
    rw [List.filterMap_cons, partOfPiece?_of_isName h]
    rfl
  by_cases hdir : dir = ""
  · subst hdir
    have hhere : [name].head? ≠ some "." := fun he => h.2.1 (Option.some.inj he)
    rw [join, if_neg (by simp [h.isAbsolute]), if_pos rfl, parts_eq, h.isAbsolute, h.pieces, hname,
      if_neg Bool.false_ne_true, if_neg hhere]
    rfl
  · rw [parts_join hdir h.isAbsolute, h.pieces, hname]

theorem fileName?_join (dir : String) : fileName? (join dir name) = some name := by
  rw [fileName?, parts_join_name h, List.getLast?_concat]

theorem parent?_join (dir : String) : parent? (join dir name) = some (ofParts (parts dir)) := by
  rw [parent?, parts_join_name h, List.reverse_concat]
  simp

end

/-- How a part is written; the root stands before the first slash. -/
def word : Part → String
  | .root => ""
  | .here => "."
  | .up => ".."
  | .name s => s

theorem ofParts_eq {ps : List Part} (h : ps ≠ [.root]) :
    ofParts ps = String.intercalate "/" (ps.map word) := by
  unfold ofParts
  split
  next => exact absurd rfl h
  next =>
    congr 2

/-- Parts that lead up or down from where they stand. -/
def Moves (ps : List Part) : Prop := ∀ p ∈ ps, p = .up ∨ ∃ s, p = .name s ∧ IsName s

theorem moves_filterMap_pieces (path : String) : Moves ((pieces path).filterMap partOfPiece?) := by
  intro p hp
  obtain ⟨piece, hpiece, hpart⟩ := List.mem_filterMap.mp hp
  unfold partOfPiece? at hpart
  split_ifs at hpart with hempty hup
  · exact .inl (Option.some.inj hpart).symm
  · obtain ⟨hne, hhere⟩ := not_or.mp hempty
    have hslash := not_mem_of_mem_piecesFrom List.not_mem_nil hpiece
    exact .inr ⟨piece, (Option.some.inj hpart).symm, hne, hhere, hup, hslash⟩

theorem parts_intercalate {labels : List String} (hslash : ∀ label ∈ labels, '/' ∉ label.toList)
    (hne : labels ≠ []) : parts (String.intercalate "/" labels) =
      (if labels.head? = some "" ∧ labels.tail ≠ [] then [.root]
        else if labels.head? = some "." then [.here] else []) ++ labels.filterMap partOfPiece? := by
  have hpieces := pieces_intercalate hslash hne
  have habsolute : isAbsolute (String.intercalate "/" labels) = true ↔
      labels.head? = some "" ∧ labels.tail ≠ [] := by
    rw [isAbsolute_iff, hpieces]
    cases labels with
    | nil => exact absurd rfl hne
    | cons label labels => simp [and_comm]
  rw [parts_eq, hpieces]
  simp only [habsolute]

namespace Moves

variable {ps : List Part} (h : Moves ps)
include h

theorem filterMap_word : (ps.map word).filterMap partOfPiece? = ps := by
  rw [List.filterMap_map]
  conv_rhs => rw [← List.filterMap_some (l := ps)]
  refine List.filterMap_congr fun p hp => ?_
  rcases h p hp with rfl | ⟨s, rfl, hs⟩
  · rfl
  · exact partOfPiece?_of_isName hs

theorem slash_not_mem : ∀ w ∈ ps.map word, '/' ∉ w.toList := by
  intro w hw
  obtain ⟨p, hp, rfl⟩ := List.mem_map.mp hw
  rcases h p hp with rfl | ⟨s, rfl, hs⟩
  · decide
  · exact hs.2.2.2

theorem slash_not_mem_cons {p : Part} (hp : '/' ∉ (word p).toList) :
    ∀ w ∈ (p :: ps).map word, '/' ∉ w.toList := by
  intro w hw
  rcases List.mem_cons.mp hw with rfl | hw
  · exact hp
  · exact h.slash_not_mem w hw

theorem parts_ofParts : parts (ofParts ps) = ps := by
  cases ps with
  | nil => rfl
  | cons p ps =>
    have hlead : word p ≠ "" ∧ word p ≠ "." ∧ p ≠ .root := by
      rcases h p List.mem_cons_self with rfl | ⟨s, rfl, hs⟩
      · decide
      · exact ⟨hs.1, hs.2.1, nofun⟩
    rw [ofParts_eq (by simp [hlead.2.2]), parts_intercalate h.slash_not_mem (by simp),
      h.filterMap_word]
    simp [hlead]

theorem parts_ofParts_root : parts (ofParts (.root :: ps)) = .root :: ps := by
  by_cases hps : ps = []
  · subst hps
    rfl
  · have hwords := h.filterMap_word
    rw [ofParts_eq (by simpa using hps),
      parts_intercalate (h.slash_not_mem_cons (by decide)) (by simp)]
    simp [hps, hwords, word, partOfPiece?]

theorem parts_ofParts_here : parts (ofParts (.here :: ps)) = .here :: ps := by
  have hwords := h.filterMap_word
  rw [ofParts_eq (by simp), parts_intercalate (h.slash_not_mem_cons (by decide)) (by simp)]
  simp [hwords, word, partOfPiece?]

end Moves

/-- The parts of a path, written out, are the parts of the path. -/
theorem parts_ofParts (path : String) : parts (ofParts (parts path)) = parts path := by
  have moves := moves_filterMap_pieces path
  rw [parts_eq path]
  split
  next => exact moves.parts_ofParts_root
  next =>
    split
    next => exact moves.parts_ofParts_here
    next => exact moves.parts_ofParts

end Path

open RuleScope.Path in
/-- A name behind a path leads to a child of the place to which the path leads. -/
theorem AbsPath.lexical_join {name : String} (h : IsName name) (cwd : AbsPath) (dir : String) :
    lexical cwd (join dir name) = (lexical cwd dir).child name := by
  rw [lexical, parts_join_name h, List.foldl_append]
  rfl

end RuleScope
