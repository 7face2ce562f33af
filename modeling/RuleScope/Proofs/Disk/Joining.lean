import RuleScope.Proofs.Disk.Finding
import RuleScope.Proofs.Path.Parts

namespace RuleScope.Disk

variable {d : Disk} {here p : AbsPath} {pieces : List String} {links : Nat} {place : Place}
  {name dir : String}

/-- Where some pieces end, the pieces behind them go on. -/
theorem leg_append (d : Disk) (here : AbsPath) (pieces rest : List String) :
    d.leg true here (pieces ++ rest) = match d.leg true here pieces with
      | .error e => .error e
      | .ok (.link here pieces) => .ok (.link here (pieces ++ rest))
      | .ok (.ended (.free p slashed)) =>
        if rest.all (· = "") then .ok (.ended (.free p (slashed || !rest.isEmpty)))
        else .error .notFound
      | .ok (.ended (.found p)) => d.leg true p rest := by
  fun_induction leg d true here pieces with
  | case1 => rfl
  | case2 here piece more hdir => rw [List.cons_append, leg, if_pos hdir]
  | case3 here piece more hdir hpiece ih =>
    rw [List.cons_append, leg, if_neg hdir, if_pos hpiece, ih]
  | case4 here more hdir hpiece ih =>
    rw [List.cons_append, leg, if_neg hdir, if_neg hpiece, if_pos rfl, ih]
  | case5 here piece more hdir hpiece hup hlong =>
    rw [List.cons_append, leg, if_neg hdir, if_neg hpiece, if_neg hup, if_pos hlong]
  | case6 here piece more hdir hpiece hup hshort hnone hall =>
    rw [List.cons_append, leg, if_neg hdir, if_neg hpiece, if_neg hup, if_neg hshort, hnone]
    simp only [List.all_append, hall, Bool.true_and]
    cases more <;> cases rest <;> rfl
  | case7 here piece more hdir hpiece hup hshort hnone hall =>
    rw [List.cons_append, leg, if_neg hdir, if_neg hpiece, if_neg hup, if_neg hshort, hnone]
    simp only [List.all_append, hall, Bool.false_and]
    rfl
  -- Only a last link that is not to be followed ends a path.
  | case8 here piece more hdir hpiece hup hshort target hlink hlast => simp at hlast
  | case9 here piece more hdir hpiece hup hshort target hlink hlast =>
    rw [List.cons_append, leg, if_neg hdir, if_neg hpiece, if_neg hup, if_neg hshort, hlink]
    simp
  | case10 here piece more hdir hpiece hup hshort e hsolid hentry ih =>
    rw [List.cons_append, leg, if_neg hdir, if_neg hpiece, if_neg hup, if_neg hshort, hentry, ← ih]
    cases e with
    | link target => exact absurd rfl (hsolid target)
    | directory => rfl
    | file => rfl

/-- A slash at the end is left out of account behind a directory. -/
theorem follow_append_slash (h : d.follow true links here pieces = .ok (.found p))
    (hdir : d.isDirectoryAt p = true) :
    d.follow true links here (pieces ++ [""]) = .ok (.found p) := by
  fun_induction follow d true links here pieces with
  | case1 => cases h
  | case2 links here pieces place hleg =>
    cases h
    unfold follow
    rw [leg_append, hleg]
    simp [leg, hdir]
  | case3 => cases h
  | case4 here pieces links here' pieces' hleg ih =>
    unfold follow
    rw [leg_append, hleg]
    exact ih h

theorem follow_append_name (hname : name ≠ "")
    (h : d.follow true links here (pieces ++ [name]) = .ok place) :
    ∃ p left, d.follow true links here pieces = .ok (.found p) ∧
      d.follow true left p [name] = .ok place := by
  fun_induction follow d true links here pieces with
  | case1 links here pieces e hleg =>
    unfold follow at h
    rw [leg_append, hleg] at h
    cases h
  | case2 links here pieces end' hleg =>
    unfold follow at h
    rw [leg_append, hleg] at h
    cases end' with
    | free p slashed => simp [hname] at h
    | found p =>
      refine ⟨p, links, rfl, ?_⟩
      unfold follow
      exact h
  | case3 here pieces here' pieces' hleg =>
    unfold follow at h
    rw [leg_append, hleg] at h
    cases h
  | case4 here pieces links here' pieces' hleg ih =>
    unfold follow at h
    rw [leg_append, hleg] at h
    exact ih h

/-- What is found under a name: the entry of that name, unless it is a link, or a free name. -/
theorem follow_name (hname : Path.IsName name) (h : d.follow true links p [name] = .ok place) :
    d.isDirectoryAt p = true ∧ match d.entry? (p.child name) with
      | none => place = .free (p.child name) false
      | some (.link _) => True
      | some _ => place = .found (p.child name) := by
  have hdir : d.isDirectoryAt p = true := by
    by_contra hnot
    rw [Bool.not_eq_true] at hnot
    unfold follow leg at h
    simp [hnot] at h
  refine ⟨hdir, ?_⟩
  by_cases hlong : name.utf8ByteSize ≤ maxNameBytes
  · unfold follow at h
    rw [leg_name hdir hname hlong] at h
    cases hentry : d.entry? (p.child name) with
    | none => simpa [hentry, eq_comm] using h
    | some e =>
      cases e with
      | link target => trivial
      | directory => simpa [hentry, eq_comm, leg] using h
      | file text time => simpa [hentry, eq_comm, leg] using h
  · obtain ⟨hempty, hdot, hup, -⟩ := hname
    unfold follow leg at h
    simp [hdir, hempty, hdot, hup, Nat.not_le.mp hlong] at h

/-- A path behind a directory is followed as the directory is, and then on. -/
theorem seek_join_eq_ok {path : String} (hdir : dir ≠ "") (hpath : Path.isAbsolute path = false)
    (h : d.seek true (Path.join dir path) = .ok place) :
    ∃ ps, (Path.pieces dir = ps ∨ Path.pieces dir = ps ++ [""]) ∧
      d.follow true maxLinks (startOf d.workDir dir) (ps ++ Path.pieces path) = .ok place ∧
      d.seek true dir = d.follow true maxLinks (startOf d.workDir dir) (Path.pieces dir) := by
  obtain ⟨ps, -, hps, hpieces⟩ := Path.exists_pieces_join hdir hpath
  have habsolute := Path.isAbsolute_join hdir hpath
  have hstart : startOf d.workDir (Path.join dir path) = startOf d.workDir dir := by
    rw [startOf, habsolute, startOf]
  obtain ⟨more, hmore⟩ := Path.exists_join_eq_append hpath
  unfold seek at h
  split_ifs at h with hnull hempty hlong
  rw [hstart, hpieces] at h
  have hnull' : ¬ dir.toList.contains '\x00' = true := by
    rw [hmore] at hnull
    simp at hnull ⊢
    exact hnull.1
  have hlong' : ¬ dir.utf8ByteSize ≥ pathBytes := by
    rw [hmore, String.utf8ByteSize_append] at hlong
    omega
  refine ⟨ps, hps, h, ?_⟩
  unfold seek
  rw [if_neg hnull', if_neg hdir, if_neg hlong']

/-- A path with a name behind it leads to the entry of that name in the directory to which the path
leads. -/
theorem seek_join (hname : Path.IsName name) (hdir : dir ≠ "")
    (h : d.seek true (Path.join dir name) = .ok place) :
    ∃ p, d.find dir = .ok p ∧ d.isDirectoryAt p = true ∧ match d.entry? (p.child name) with
      | none => place = .free (p.child name) false
      | some (.link _) => True
      | some _ => place = .found (p.child name) := by
  obtain ⟨ps, hps, hfollow, hseek⟩ := seek_join_eq_ok hdir hname.isAbsolute h
  rw [hname.pieces] at hfollow
  obtain ⟨p, left, hp, hplace⟩ := follow_append_name hname.1 hfollow
  obtain ⟨hisdir, hentry⟩ := follow_name hname hplace
  refine ⟨p, find_eq_ok_iff.mpr ?_, hisdir, hentry⟩
  rw [hseek]
  rcases hps with h | h
  · rwa [h]
  · rw [h]
    exact follow_append_slash hp hisdir

end RuleScope.Disk
