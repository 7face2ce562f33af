import RuleScope.Proofs.Path.Parts

namespace RuleScope

namespace Path

/-- The names that are left when pieces are read behind names. A piece without text and a dot say nothing,
and two dots take the last name away, if there is one. -/
def readOn : List String → List String → List String
  | names, [] => names
  | names, piece :: rest =>
    if piece = "" ∨ piece = "." then readOn names rest
    else if piece = ".." then readOn names.dropLast rest
    else readOn (names ++ [piece]) rest

/-- The parts that pieces stand for lead where the pieces do. -/
theorem foldl_step_pieces (place : AbsPath) (ps : List String) :
    ((ps.filterMap partOfPiece?).foldl AbsPath.step place).names = readOn place.names ps := by
  induction ps generalizing place with
  | nil => rfl
  | cons piece ps ih =>
    rw [List.filterMap_cons, readOn, partOfPiece?]
    by_cases hnothing : piece = "" ∨ piece = "."
    · rw [if_pos hnothing, if_pos hnothing]
      exact ih place
    · rw [if_neg hnothing, if_neg hnothing]
      by_cases hup : piece = ".."
      · rw [if_pos hup, if_pos hup]
        exact ih _
      · rw [if_neg hup, if_neg hup]
        exact ih _

end Path

namespace AbsPath

open RuleScope.Path

theorem foldl_step_parts (place : AbsPath) (path : String) : (parts path).foldl step place =
    ((pieces path).filterMap partOfPiece?).foldl step (if isAbsolute path then root else place) := by
  rw [parts_eq]
  split
  next => rfl
  next =>
    split
    next => rfl
    next => rfl

theorem names_lexical (place : AbsPath) (path : String) : (lexical place path).names =
    readOn (if isAbsolute path then [] else place.names) (pieces path) := by
  rw [lexical, foldl_step_parts, foldl_step_pieces]
  split <;> rfl

theorem lexical_of_isAbsolute {path : String} (h : isAbsolute path = true) (place place' : AbsPath) :
    lexical place path = lexical place' path := by
  rw [lexical, foldl_step_parts, if_pos h, lexical, foldl_step_parts, if_pos h]

/-- A path behind a directory is read from the place of the directory. -/
theorem lexical_join_path (place : AbsPath) (dir path : String) :
    lexical place (join dir path) = lexical (lexical place dir) path := by
  by_cases hpath : isAbsolute path = true
  · rw [join, if_pos hpath]
    exact lexical_of_isAbsolute hpath _ _
  · rw [Bool.not_eq_true] at hpath
    by_cases hdir : dir = ""
    · subst hdir
      rw [join, if_neg (by simp [hpath]), if_pos rfl]
      rfl
    · rw [lexical, parts_join hdir hpath, List.foldl_append, lexical, lexical, foldl_step_parts _ path,
        if_neg (by simp [hpath])]

/-- What a path names is read off the path behind the text of the place. -/
theorem names_lexical_eq {place : AbsPath} (h : place.Proper) (path : String) :
    (lexical place path).names = readOn [] (pieces (join place.text path)) := by
  have habsolute : isAbsolute (join place.text path) = true := by
    by_cases hpath : isAbsolute path = true
    · rwa [join, if_pos hpath]
    · have htext := isAbsolute_text place
      rw [Bool.not_eq_true] at hpath
      rw [isAbsolute_join (fun he => by simp [he, isAbsolute] at htext) hpath]
      exact htext
  have hread := names_lexical place (join place.text path)
  rwa [lexical_join_path, lexical_text h, if_pos habsolute] at hread

/-- A place is written as its names with a slash before each, the root as a slash. -/
theorem text_eq (place : AbsPath) : place.text = "/" ++ String.intercalate "/" place.names := by
  obtain ⟨names⟩ := place
  cases names with
  | nil => rfl
  | cons name names =>
    rw [← String.toList_inj, toList_text (by simp [root])]
    induction names generalizing name with
    | nil => simp [String.intercalate_singleton]
    | cons next names ih =>
      have hnext := ih next
      simp only [List.flatMap_cons, String.toList_append, toList_intercalate_cons_cons] at hnext ⊢
      rw [hnext]
      rfl

end AbsPath

end RuleScope
