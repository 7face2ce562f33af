import RuleScope.Proofs.Path.Parts
import RuleScope.Snapshot.Name

namespace RuleScope.Snapshot

/-- The name of a file in the snapshot directory. -/
def fileOf (stem : String) : String := stem ++ ".json"

variable {s name dir path : String}

theorem toList_fileOf (s : String) : (fileOf s).toList = s.toList ++ ['.', 'j', 's', 'o', 'n'] := by
  simp [fileOf]

theorem fileOf_injective : Function.Injective fileOf := by
  intro s t h
  have hchars := congrArg String.toList h
  rw [toList_fileOf, toList_fileOf] at hchars
  exact String.toList_inj.mp (List.append_cancel_right hchars)

/-- One ending is left out, and nothing else. -/
theorem stem_fileOf (s : String) : stem (fileOf s) = s := by
  unfold stem
  dsimp only
  rw [toList_fileOf]
  simp [List.isPrefixOf]

theorem stem_eq_self (h : ∀ s, name ≠ fileOf s) : stem name = name := by
  unfold stem
  dsimp only
  split
  next hprefix =>
    obtain ⟨rest, hrest⟩ := List.isPrefixOf_iff_prefix.mp hprefix
    have hname : name = fileOf (String.ofList rest.reverse) := by
      rw [← String.toList_inj, toList_fileOf, ← List.reverse_inj, ← hrest]
      simp
    exact absurd hname (h _)
  next => rfl

theorem stem_eq_self_iff : stem name = name ↔ ∀ s, name ≠ fileOf s := by
  refine ⟨?_, stem_eq_self⟩
  rintro h s rfl
  rw [stem_fileOf] at h
  have hlength := congrArg (fun t => t.toList.length) h
  simp [toList_fileOf] at hlength

/-- What is left of a name must name something in a directory, on any platform. -/
theorem isValidStem_iff : isValidStem s = true ↔ Path.IsName s ∧ '\\' ∉ s.toList := by
  simp only [isValidStem, Path.IsName, ne_eq, Bool.and_eq_true, decide_eq_true_eq, List.all_eq_true]
  constructor
  · rintro ⟨⟨⟨hempty, hhere⟩, hup⟩, hall⟩
    exact ⟨⟨hempty, hhere, hup, fun hc => (hall _ hc).1 rfl⟩, fun hc => (hall _ hc).2 rfl⟩
  · rintro ⟨⟨hempty, hhere, hup, hslash⟩, hback⟩
    refine ⟨⟨⟨hempty, hhere⟩, hup⟩, fun c hc => ⟨?_, ?_⟩⟩
    · rintro rfl
      exact hslash hc
    · rintro rfl
      exact hback hc

theorem path?_eq (dir name : String) : path? dir name =
    if isValidStem (stem name) then some (Path.join dir (fileOf (stem name))) else none := by
  have hfile : stem name ++ "." ++ fileExtension = fileOf (stem name) := by
    rw [← String.toList_inj, toList_fileOf]
    simp [fileExtension]
  rw [path?, hfile]

theorem path?_eq_some (h : path? dir name = some path) :
    isValidStem (stem name) = true ∧ path = Path.join dir (fileOf (stem name)) := by
  rw [path?_eq] at h
  split at h
  next hvalid => exact ⟨hvalid, (Option.some.inj h).symm⟩
  next => cases h

theorem path?_congr {a b : String} (h : stem a = stem b) (dir : String) :
    path? dir a = path? dir b := by
  rw [path?_eq, path?_eq, h]

theorem isName_fileOf (h : '/' ∉ s.toList) : Path.IsName (fileOf s) := by
  have ne : ∀ t : String, t.toList.length < 5 → fileOf s ≠ t := by
    rintro t ht rfl
    rw [toList_fileOf, List.length_append] at ht
    exact absurd ht (by simp)
  refine ⟨ne _ (by decide), ne _ (by decide), ne _ (by decide), ?_⟩
  rw [toList_fileOf, List.mem_append]
  rintro (hs | hs)
  · exact h hs
  · revert hs
    decide

theorem isName_of_path? (h : path? dir name = some path) : Path.IsName (fileOf (stem name)) :=
  isName_fileOf (isValidStem_iff.mp (path?_eq_some h).1).1.2.2.2

/-- Paths with the same parts are those of one name, up to one ending. -/
theorem stem_eq_of_parts_eq {a b p q : String} (ha : path? dir a = some p) (hb : path? dir b = some q)
    (h : Path.parts p = Path.parts q) : stem a = stem b := by
  have hname := isName_of_path? ha
  have hname' := isName_of_path? hb
  obtain ⟨-, rfl⟩ := path?_eq_some ha
  obtain ⟨-, rfl⟩ := path?_eq_some hb
  rw [Path.parts_join_name hname, Path.parts_join_name hname'] at h
  have hlast := List.append_cancel_left h
  exact fileOf_injective (Path.Part.name.inj (List.cons.inj hlast).1)

/-- Characters that a session name has none of. -/
def separators : List Char := ['/', '\\', '.']

theorem sessionChar_not_mem (c : Char) : sessionChar c ∉ separators := by
  unfold sessionChar
  split
  next h =>
    intro hc
    simp only [separators, List.mem_cons, List.not_mem_nil, or_false] at hc
    rcases hc with rfl | rfl | rfl <;> revert h <;> decide +kernel
  next => decide

theorem hexFixed_not_mem {width n : Nat} {c : Char} (h : c ∈ Text.hexFixed width n) :
    c ∉ separators := by
  induction width generalizing n with
  | zero => cases h
  | succ width ih =>
    rcases List.mem_append.mp h with h | h
    · exact ih h
    · have digits : ∀ d < 16, Text.digitChar d ∉ separators := by decide
      rw [List.mem_singleton.mp h]
      exact digits _ (Nat.mod_lt n (by decide))

theorem sessionName_not_mem {sourceRoot : String} {c : Char}
    (h : c ∈ (sessionName sourceRoot).toList) : c ∉ separators := by
  have fixed : ∀ x ∈ "session-".toList, x ∉ separators := by simp [separators]
  have hash : ∀ x ∈ Text.hexFixed 16 (textHash sourceRoot).toNat, x ∉ separators :=
    fun x hx => hexFixed_not_mem hx
  unfold sessionName at h
  dsimp only at h
  generalize Text.hexFixed 16 (textHash sourceRoot).toNat = digits at h hash
  split at h
  next =>
    simp only [String.toList_append, String.toList_ofList, List.mem_append] at h
    exact h.elim (fixed c) (hash c)
  next =>
    simp only [String.toList_append, String.toList_ofList, List.mem_append, String.toList_map,
      List.mem_map] at h
    rcases h with ((h | ⟨x, -, rfl⟩) | h) | h
    · exact fixed c h
    · exact sessionChar_not_mem x
    · have dash : ∀ x ∈ "-".toList, x ∉ separators := by simp [separators]
      exact dash c h
    · exact hash c h

/-- A session name is accepted as it is. -/
theorem stem_sessionName (sourceRoot : String) : stem (sessionName sourceRoot) = sessionName sourceRoot ∧
    isValidStem (sessionName sourceRoot) = true := by
  have dash : '-' ∈ (sessionName sourceRoot).toList := by
    unfold sessionName
    dsimp only
    split <;> simp
  have ne : ∀ t : String, '-' ∉ t.toList → sessionName sourceRoot ≠ t := by
    rintro t ht rfl
    exact ht dash
  refine ⟨stem_eq_self fun s he => ?_, isValidStem_iff.mpr ⟨⟨ne _ (by decide), ne _ (by decide),
    ne _ (by decide), fun hs => ?_⟩, fun hs => ?_⟩⟩
  · have hdot : '.' ∈ (sessionName sourceRoot).toList := by
      rw [he, toList_fileOf]
      simp
    exact sessionName_not_mem hdot (by decide)
  · exact sessionName_not_mem hs (by decide)
  · exact sessionName_not_mem hs (by decide)

/-- A name is rejected, or it leads to the file of the directory that is called as the name with one
`.json` taken from its end and one put there. The path above that file is the directory, and wherever
one stands the file lies in the directory. A name is rejected exactly if nothing is left of it, or one
or two dots, or if a separator of any platform is in it. Two names that are accepted lead to one file
exactly if they agree without one `.json` at the end. The name of a session is always accepted. -/
theorem path?_keeps_inside (dir : String) :
    (∀ name path, path? dir name = some path →
      (Path.parent? path).map Path.parts = some (Path.parts dir) ∧
      Path.fileName? path = some (stem name ++ ".json") ∧
      ∀ cwd, AbsPath.lexical cwd path = (AbsPath.lexical cwd dir).child (stem name ++ ".json")) ∧
    (∀ name, path? dir name = none ↔ stem name ∈ ["", ".", ".."] ∨
      '/' ∈ (stem name).toList ∨ '\\' ∈ (stem name).toList) ∧
    (∀ name, stem (name ++ ".json") = name ∧
      ((∀ s, name ≠ s ++ ".json") → stem name = name)) ∧
    (∀ a b p q, path? dir a = some p → path? dir b = some q →
      (p = q ↔ stem a = stem b) ∧ (Path.parts p = Path.parts q ↔ stem a = stem b)) ∧
    ∀ sourceRoot, (path? dir (sessionName sourceRoot)).isSome = true := by
  refine ⟨fun name path h => ?_, fun name => ?_, fun name => ⟨stem_fileOf name, stem_eq_self⟩,
    fun a b p q ha hb => ?_, fun sourceRoot => ?_⟩
  · obtain ⟨-, rfl⟩ := path?_eq_some h
    have hname := isName_of_path? h
    rw [Path.parent?_join hname, Path.fileName?_join hname, Option.map_some, Path.parts_ofParts]
    exact ⟨rfl, rfl, fun cwd => AbsPath.lexical_join hname cwd dir⟩
  · simp only [path?_eq, ite_eq_right_iff, reduceCtorEq, imp_false, isValidStem_iff, Path.IsName,
      List.mem_cons, List.not_mem_nil, or_false]
    tauto
  · have same : stem a = stem b → p = q := fun hstem =>
      Option.some.inj (ha.symm.trans ((path?_congr hstem dir).trans hb))
    have one := stem_eq_of_parts_eq ha hb
    exact ⟨⟨fun h => one (h ▸ rfl), same⟩, ⟨one, fun h => same h ▸ rfl⟩⟩
  · obtain ⟨hstem, hvalid⟩ := stem_sessionName sourceRoot
    rw [path?_eq, hstem, if_pos hvalid]
    rfl

/-- A name with the ending and without it lead to one file, and one that the ending leaves a dot of is
rejected. -/
theorem path?_debugging :
    path? "/saved" "debugging" = some "/saved/debugging.json" ∧
    path? "/saved" "debugging.json" = some "/saved/debugging.json" ∧
    Path.fileName? "/saved/debugging.json" = some "debugging.json" ∧
    path? "/saved" "..json" = none := by
  have long : path? "/saved" "debugging.json" = some "/saved/debugging.json" := by decide +kernel
  obtain ⟨inside, rejected, -⟩ := path?_keeps_inside "/saved"
  refine ⟨by decide +kernel, long, ?_, (rejected "..json").mpr (.inl (by decide +kernel))⟩
  exact (inside "debugging.json" _ long).2.1.trans (by decide +kernel)

end RuleScope.Snapshot
