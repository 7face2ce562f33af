import Mathlib.Tactic.SplitIfs
import RuleScope.Proofs.Yaml.Flow

namespace RuleScope.Yaml

theorem ne_of_isAlphanum {c d : Char} (hc : c.isAlphanum) (hd : d.isAlphanum = false) : c ≠ d := by
  rintro rfl
  rw [hc] at hd
  cases hd

section

variable {c : Char}

theorem toNat_of_isAlphanum (h : c.isAlphanum) : 48 ≤ c.toNat ∧ c.toNat ≤ 122 := by
  unfold Char.isAlphanum Char.isAlpha Char.isUpper Char.isLower Char.isDigit at h
  have hval : c.toNat = c.val.toNat := rfl
  simp only [Bool.or_eq_true, Bool.and_eq_true, decide_eq_true_eq, UInt32.le_iff_toNat_le,
    UInt32.reduceToNat, Char.reduceVal] at h
  omega

theorem utf8Size_of_isAlphanum (h : c.isAlphanum) : c.utf8Size = 1 := by
  have hle : c.val.toNat ≤ 127 := Nat.le_trans (toNat_of_isAlphanum h).2 (by decide)
  exact Char.utf8Size_eq_one_iff.mpr hle

theorem isAllowed_of_isAlphanum (h : c.isAlphanum) : isAllowed c := by
  obtain ⟨hlow, hhigh⟩ := toNat_of_isAlphanum h
  have hrange : (0x20 ≤ c.toNat && c.toNat ≤ 0x7E) = true := by
    rw [Bool.and_eq_true, decide_eq_true_eq, decide_eq_true_eq]
    omega
  simp only [isAllowed, hrange, Bool.or_true, Bool.true_or]

theorem isBlank_of_isAlphanum (h : c.isAlphanum) : isBlank c = false := by
  simp [isBlank, ne_of_isAlphanum h]

theorem isBreak_of_isAlphanum (h : c.isAlphanum) : isBreak c = false := by
  simp [isBreak, ne_of_isAlphanum h]

theorem isFlowIndicator_of_isAlphanum (h : c.isAlphanum) : isFlowIndicator c = false := by
  simp [isFlowIndicator, ne_of_isAlphanum h]

theorem isIndicator_of_isAlphanum (h : c.isAlphanum) : isIndicator c = false := by
  simp [isIndicator, ne_of_isAlphanum h]

end

namespace Scan

variable {α β : Type} {s s' : Scanner} {rest : List Char} {c : Char}

theorem bind_eq {r : Scan α} {f : α → Scan β} {a : α} (h : r s = some (a, s')) :
    (r >>= f) s = f a s' := by
  change Option.bind (r s) _ = _
  rw [h]
  rfl

theorem discard_eq {r : Scan α} {a : α} (h : r s = some (a, s')) :
    discard r s = some ((), s') := by
  simp only [discard, Functor.discard, Functor.mapConst, StateT.map, Function.comp_apply, h]
  rfl

theorem get_eq (s : Scanner) : (get : Scan Scanner) s = some (s, s) := rfl

/-- A round that has not met the end of the text goes on to the next. -/
theorem allLoop_next (h : next s = some (false, s')) (fuel : Nat) :
    allLoop (fuel + 1) s = allLoop fuel s' := by
  rw [allLoop, bind_eq h]
  rfl

theorem allLoop_end (h : next s = some (true, s')) (fuel : Nat) :
    allLoop (fuel + 1) s = some ((), s') := by
  rw [allLoop, bind_eq h]
  rfl

/-- The scanner comes from one state to another, in no more rounds than it takes characters. -/
def Reaches : Scanner → Scanner → Prop := Advances allLoop fun s => s.rest.length

theorem Reaches.of_next (h : next s = some (false, s')) (hless : s'.rest.length < s.rest.length) :
    Reaches s s' :=
  Advances.of_round (allLoop_next h) hless

/-- A character that is no part of what is passed over before a token. -/
structure Begins (c : Char) : Prop where
  blank : isBlank c = false
  unbroken : isBreak c = false
  comment : c ≠ '#'
  mark : c ≠ '\uFEFF'

theorem Begins.of_isAlphanum (h : c.isAlphanum) : Begins c where
  blank := isBlank_of_isAlphanum h
  unbroken := isBreak_of_isAlphanum h
  comment := ne_of_isAlphanum h (by decide)
  mark := ne_of_isAlphanum h (by decide)

theorem octetsOf_ascii {cs : List Char} (h : ∀ c ∈ cs, c.utf8Size = 1) :
    octetsOf cs = cs.length := by
  have hfold : ∀ m, cs.foldl (fun k c => k + c.utf8Size) m = m + cs.length := by
    induction cs with
    | nil => exact fun m => rfl
    | cons c cs ih =>
      intro m
      rw [List.foldl_cons, ih fun d hd => h d (List.mem_cons_of_mem _ hd),
        h c List.mem_cons_self, List.length_cons]
      omega
  rw [octetsOf, hfold, Nat.zero_add]

/-- The scanner behind some blanks. -/
def skipped (n : Nat) (s : Scanner) : Scanner :=
  { s with rest := s.rest.drop n, octet := s.octet + n, column := s.column + n }

theorem toNextToken_blanks {n : Nat} (hs : s.rest = List.replicate n ' ' ++ rest)
    (hrest : ∀ c, rest.head? = some c → Begins c) :
    toNextToken s = some ((), skipped n s) := by
  have hhead : s.rest.head? ≠ some '\uFEFF' := by
    rw [hs]
    cases n with
    | zero =>
      intro h
      exact (hrest _ h).mark rfl
    | succ n => simp [List.replicate_succ]
  -- Whether a tab would be passed over does not matter: there is none.
  have htake : ∀ b : Bool,
      s.rest.takeWhile (fun c => c == ' ' || (b && c == '\t')) = List.replicate n ' ' := by
    intro b
    rw [hs, List.takeWhile_append_of_pos (by simp)]
    cases rest with
    | nil => simp
    | cons c r =>
      have hblank := (hrest c rfl).blank
      simp only [isBlank, Bool.or_eq_false_iff] at hblank
      rw [List.takeWhile_cons_of_neg (by simp [hblank]), List.append_nil]
  have hskip : ∀ b : Bool,
      skipWhile (fun c => c == ' ' || (b && c == '\t')) s = some ((), skipped n s) := by
    intro b
    apply discard_eq (a := String.ofList (List.replicate n ' '))
    rw [takeWhile, htake, octetsOf_ascii fun c hc => by rw [List.eq_of_mem_replicate hc]; rfl,
      List.length_replicate]
    rfl
  have hafter : peek (skipped n s) = some (rest.head?, skipped n s) := by
    have hrest : (skipped n s).rest = rest := by simp [skipped, hs]
    rw [peek, hrest]
  have hcomment : skipComment (skipped n s) = some ((), skipped n s) := by
    rw [skipComment, bind_eq hafter, if_neg fun h => (hrest _ h).comment rfl]
    rfl
  have hround : toNextToken s = toNextTokenLoop (s.rest.length + 1) s := rfl
  rw [hround, toNextTokenLoop, bind_eq (get_eq s), if_neg fun h => hhead h.2]
  dsimp only
  rw [bind_eq (hskip _), bind_eq hcomment, bind_eq hafter]
  cases hhead' : rest.head? with
  | none => rfl
  | some c =>
    dsimp only
    rw [if_neg (by rw [(hrest c hhead').unbroken]; decide)]
    rfl

/-- No block collection is open, and no key is required. -/
structure Calm (s : Scanner) : Prop where
  indent_eq : s.indent = -1
  indents_eq : s.indents = []
  required_eq : ∀ k ∈ s.keys, k.required = false

/-- A key that has become too long or left its line can no longer be one. -/
def refresh (s : Scanner) (k : SimpleKey) : SimpleKey :=
  if k.possible && (k.line < s.line || k.octet + 1024 < s.octet) then { k with possible := false }
  else k

theorem refresh_required (s : Scanner) (k : SimpleKey) : (refresh s k).required = k.required := by
  unfold refresh
  split <;> rfl

/-- The scanner when it is to take the next token. -/
def settled (n : Nat) (s : Scanner) : Scanner :=
  { skipped n s with keys := s.keys.map (refresh (skipped n s)) }

theorem rest_settled {n : Nat} (hs : s.rest = List.replicate n ' ' ++ rest) :
    (settled n s).rest = rest := by
  simp [settled, skipped, hs]

theorem settled_calm (h : Calm s) (n : Nat) : Calm (settled n s) where
  indent_eq := h.indent_eq
  indents_eq := h.indents_eq
  required_eq := by
    intro k hk
    obtain ⟨l, hl, rfl⟩ := List.mem_map.mp hk
    rw [refresh_required]
    exact h.required_eq l hl

theorem removeStaleKeys_skipped (h : Calm s) (n : Nat) :
    removeStaleKeys (skipped n s) = some ((), settled n s) := by
  have hall : ((skipped n s).keys.all fun k => !((k.possible &&
      (decide (k.line < (skipped n s).line) || decide (k.octet + 1024 < (skipped n s).octet))) &&
        k.required)) = true := by
    apply List.all_eq_true.mpr
    intro k hk
    rw [h.required_eq k hk, Bool.and_false]
    rfl
  rw [removeStaleKeys, bind_eq (get_eq _)]
  dsimp only
  rw [hall]
  rfl

theorem unrollIndent_calm (h : Calm s) (column : Int) : unrollIndent column s = some ((), s) := by
  have hsame : (if s.inFlow then s else unrollLoop column s.indents s) = s := by
    rw [h.indents_eq]
    exact ite_self s
  change some ((), if s.inFlow then s else unrollLoop column s.indents s) = _
  rw [hsame]

theorem atDocumentMark_of_ne {m : Char} (hs : s.rest = c :: rest) (hc : c ≠ m) :
    atDocumentMark m s = some (false, s) := by
  have hne : (s.rest.take 3 == [m, m, m]) = false := by
    rw [hs, List.take_succ_cons]
    simp [hc]
  rw [atDocumentMark, hne, Bool.and_false]
  rfl

/-- The token that begins with a character, inside of brackets or braces. -/
def token? (c : Char) : Option (Scan Unit) :=
  if c = '[' then some (flowStart .flowSequenceStart)
  else if c = '\x7b' then some (flowStart .flowMappingStart)
  else if c = ']' then some (flowEnd .flowSequenceEnd)
  else if c = '\x7d' then some (flowEnd .flowMappingEnd)
  else if c = ',' then some flowEntry
  else if c = ':' then some mappingValue
  else if c.isAlphanum then some (keyed plainScalar)
  else none

theorem begins_of_token? {r : Scan Unit} (h : token? c = some r) :
    Begins c ∧ c ≠ '%' ∧ c ≠ '-' ∧ c ≠ '.' := by
  unfold token? at h
  split_ifs at h with _ _ _ _ _ _ hword
  all_goals first
    | exact ⟨.of_isAlphanum hword, ne_of_isAlphanum hword (by decide),
        ne_of_isAlphanum hword (by decide), ne_of_isAlphanum hword (by decide)⟩
    | subst c
      exact ⟨⟨by decide, by decide, by decide, by decide⟩, by decide, by decide, by decide⟩

/-- A colon is a token of its own only inside; before it there was a word. -/
theorem next_of_token? {n : Nat} {r : Scan Unit} (h : Calm s)
    (hs : s.rest = List.replicate n ' ' ++ c :: rest) (ht : token? c = some r)
    (hf : c = ':' → s.inFlow) : next s = (r (settled n s)).map fun x => (false, x.2) := by
  obtain ⟨hc, hpercent, hdash, hpoint⟩ := begins_of_token? ht
  have hblanks : toNextToken s = some ((), skipped n s) :=
    toNextToken_blanks hs fun d hd => by
      cases hd
      exact hc
  have hcolumn : column (settled n s) = some ((settled n s).column, settled n s) := rfl
  have hrest := rest_settled hs
  have hlast : ∀ r : Scan Unit, (r >>= fun _ => (pure false : Scan Bool)) (settled n s) =
      (r (settled n s)).map fun x => (false, x.2) := by
    intro r
    cases hr : r (settled n s) with
    | none =>
      change Option.bind (r _) _ = _
      rw [hr]
      rfl
    | some x =>
      rw [bind_eq hr]
      rfl
  rw [next, bind_eq hblanks, bind_eq (removeStaleKeys_skipped h n), bind_eq hcolumn,
    bind_eq (unrollIndent_calm (settled_calm h n) _), bind_eq (get_eq _)]
  simp only [hrest]
  rw [if_neg (by simp [hpercent]), bind_eq (atDocumentMark_of_ne hrest hdash), if_neg (by decide),
    bind_eq (atDocumentMark_of_ne hrest hpoint), if_neg (by decide)]
  unfold token? at ht
  split_ifs at ht with h1 h2 h3 h4 h5 h6 hword
  all_goals cases ht
  case pos => subst c; exact hlast _
  case pos => subst c; exact hlast _
  case pos => subst c; exact hlast _
  case pos => subst c; exact hlast _
  case pos => subst c; exact hlast _
  case pos =>
    have hflow : (settled n s).inFlow = true := by
      rw [← hf h6]
      simp [Scanner.inFlow, settled]
    subst c
    simp only [hflow]
    exact hlast _
  case pos =>
    have hne : ∀ d : Char, d.isAlphanum = false → (c == d) = false := fun d hd =>
      beq_eq_false_iff_ne.mpr (ne_of_isAlphanum hword hd)
    simp (disch := decide) only [hne, Bool.false_and, Bool.or_self, Bool.false_eq_true, if_false,
      isIndicator_of_isAlphanum hword, hc.blank, Bool.not_false, Bool.and_self, Bool.true_or,
      if_true]
    exact hlast _

/-- The scanner stands before a text, perhaps with blanks in between, so many levels deep. -/
structure At (s : Scanner) (rest : List Char) (ts : List Token) (level : Nat) : Prop
    extends Calm s where
  rest_eq : ∃ n, s.rest = List.replicate n ' ' ++ rest
  tokens_eq : s.tokens.toList = ts
  level_eq : s.keys.length = level + 1

variable {ts : List Token} {level : Nat}

theorem At.inFlow (h : At s rest ts (level + 1)) : s.inFlow := by
  simp [Scanner.inFlow, h.level_eq]

theorem At.skipBlank (h : At s (' ' :: rest) ts level) : At s rest ts level := by
  obtain ⟨n, hn⟩ := h.rest_eq
  refine { h with rest_eq := ⟨n + 1, ?_⟩ }
  rw [hn, List.replicate_succ', List.append_assoc]
  rfl

theorem settled_at (h : At s rest ts level) {n : Nat}
    (hs : s.rest = List.replicate n ' ' ++ rest) : At (settled n s) rest ts level :=
  { settled_calm h.toCalm n with
    rest_eq := ⟨0, rest_settled hs⟩
    tokens_eq := h.tokens_eq
    level_eq := by rw [settled, List.length_map, h.level_eq] }

/-- A token is taken by what reads it behind the blanks. -/
theorem At.step {r : Scan Unit} {p : Scanner → Prop} (h : At s (c :: rest) ts level)
    (ht : token? c = some r) (hf : c = ':' → s.inFlow)
    (hr : ∀ n, At (settled n s) (c :: rest) ts level → (settled n s).rest = c :: rest →
      ∃ s', r (settled n s) = some ((), s') ∧ p s' ∧ s'.rest.length ≤ rest.length) :
    ∃ s', Reaches s s' ∧ p s' := by
  obtain ⟨n, hn⟩ := h.rest_eq
  obtain ⟨s', hs', hp, hlength⟩ := hr n (settled_at h hn) (rest_settled hn)
  refine ⟨s', .of_next ?_ ?_, hp⟩
  · rw [next_of_token? h.toCalm hn ht hf, hs']
    rfl
  · rw [hn, List.length_append, List.length_cons]
    omega

theorem removeKey_calm (h : Calm s) {k : SimpleKey} {ks : List SimpleKey} (hk : s.keys = k :: ks) :
    removeKey s = some ((), { s with keys := { k with possible := false } :: ks }) := by
  have hrequired : k.required = false := h.required_eq k (by rw [hk]; exact List.mem_cons_self)
  rw [removeKey, bind_eq (get_eq s), hk]
  dsimp only
  rw [hrequired, Bool.and_false]
  rfl

/-- A key that begins here. -/
def keyHere (s : Scanner) : SimpleKey :=
  ⟨true, !s.inFlow && s.indent == (s.column : Int), s.tokens.size, s.octet, s.line, s.column⟩

def withKey (s : Scanner) : Scanner :=
  { s with keys := if s.keyAllowed then keyHere s :: s.keys.tail else s.keys }

theorem saveKey_at (h : At s rest ts level) : saveKey s = some ((), withKey s) := by
  obtain ⟨k, ks, hk⟩ := List.exists_cons_of_length_eq_add_one h.level_eq
  rw [saveKey, bind_eq (get_eq s), withKey]
  by_cases hallowed : s.keyAllowed
  · rw [if_pos hallowed, if_pos hallowed, bind_eq (removeKey_calm h.toCalm hk), hk]
    rfl
  · rw [if_neg hallowed, if_neg hallowed]
    rfl

/-- The new key is not required: there is no block mapping at its column. -/
theorem withKey_at (h : At s rest ts level) : At (withKey s) rest ts level := by
  have hcolumn : (s.indent == (s.column : Int)) = false := by
    rw [h.indent_eq, beq_eq_false_iff_ne]
    omega
  have hhere : (keyHere s).required = false := by rw [keyHere, hcolumn, Bool.and_false]
  by_cases hallowed : s.keyAllowed
  · have hkeys : (withKey s).keys = keyHere s :: s.keys.tail := by rw [withKey, if_pos hallowed]
    refine { h with required_eq := ?_, level_eq := ?_ }
    · rw [hkeys]
      exact List.forall_mem_cons.mpr ⟨hhere, fun k hk => h.required_eq k (List.mem_of_mem_tail hk)⟩
    · rw [hkeys, List.length_cons, List.length_tail, h.level_eq]
      rfl
  · rwa [withKey, if_neg hallowed]

/-- The scanner after a token of one character. -/
def taken (t : Token) (s : Scanner) : Scanner :=
  { s with rest := s.rest.drop 1, octet := s.octet + octetsOf (s.rest.take 1),
           column := s.column + 1, tokens := s.tokens.push t }

theorem rest_taken (hs : s.rest = c :: rest) (t : Token) : (taken t s).rest = rest := by
  rw [taken, hs]
  rfl

theorem taken_at (h : At s (c :: rest) ts level) (hs : s.rest = c :: rest) (t : Token) :
    At (taken t s) rest (ts ++ [t]) level where
  indent_eq := h.indent_eq
  indents_eq := h.indents_eq
  required_eq := h.required_eq
  rest_eq := ⟨0, rest_taken hs t⟩
  tokens_eq := by rw [taken, Array.toList_push, h.tokens_eq]
  level_eq := h.level_eq

theorem flowStart_at (h : At s (c :: rest) ts level) (hs : s.rest = c :: rest) (t : Token) :
    ∃ s', flowStart t s = some ((), s') ∧
      (At s' rest (ts ++ [t]) (level + 1) ∧ s'.keyAllowed) ∧ s'.rest.length ≤ rest.length := by
  have hkey := withKey_at h
  let entered : Scanner :=
    { withKey s with keys := .none :: (withKey s).keys, keyAllowed := true }
  have hrest : entered.rest = c :: rest := hs
  have hentered : At entered (c :: rest) ts (level + 1) :=
    { hkey with
      required_eq := List.forall_mem_cons.mpr ⟨rfl, hkey.required_eq⟩
      level_eq := by rw [List.length_cons, hkey.level_eq] }
  refine ⟨taken t entered, ?_, ⟨taken_at hentered hrest t, rfl⟩, Nat.le_of_eq ?_⟩
  · rw [flowStart, bind_eq (saveKey_at h)]
    rfl
  · rw [rest_taken hrest]

theorem flowEnd_at (h : At s (c :: rest) ts (level + 1)) (hs : s.rest = c :: rest) (t : Token) :
    ∃ s', flowEnd t s = some ((), s') ∧ At s' rest (ts ++ [t]) level ∧
      s'.rest.length ≤ rest.length := by
  obtain ⟨k, ks, hk⟩ := List.exists_cons_of_length_eq_add_one h.level_eq
  have hks : ks.length = level + 1 := by simpa [hk] using h.level_eq
  let left : Scanner := { s with keys := ks, keyAllowed := false }
  have hleft : At left (c :: rest) ts level :=
    { h with
      required_eq := fun l hl => h.required_eq l (by rw [hk]; exact List.mem_cons_of_mem _ hl)
      level_eq := hks }
  refine ⟨taken t left, ?_, taken_at hleft hs t, Nat.le_of_eq ?_⟩
  · rw [flowEnd, bind_eq (removeKey_calm h.toCalm hk)]
    have hflow : ({ s with keys := { k with possible := false } :: ks } : Scanner).inFlow := by
      simp [Scanner.inFlow, hks]
    change (do skip; emit t : Scan Unit) { s with
      keys := if ({ s with keys := { k with possible := false } :: ks } : Scanner).inFlow then ks
        else { k with possible := false } :: ks
      keyAllowed := false } = _
    rw [if_pos hflow]
    rfl
  · rw [rest_taken (s := left) hs]

theorem flowEntry_at (h : At s (c :: rest) ts level) (hs : s.rest = c :: rest) :
    ∃ s', flowEntry s = some ((), s') ∧ (At s' rest (ts ++ [.flowEntry]) level ∧ s'.keyAllowed) ∧
      s'.rest.length ≤ rest.length := by
  obtain ⟨k, ks, hk⟩ := List.exists_cons_of_length_eq_add_one h.level_eq
  let closed : Scanner := { s with keys := { k with possible := false } :: ks, keyAllowed := true }
  have hclosed : At closed (c :: rest) ts level :=
    { h with
      required_eq := by
        have hall := h.required_eq
        rw [hk] at hall
        exact List.forall_mem_cons.mpr (List.forall_mem_cons.mp hall)
      level_eq := by
        rw [← h.level_eq, hk]
        rfl }
  refine ⟨taken .flowEntry closed, ?_, ⟨taken_at hclosed hs _, rfl⟩, Nat.le_of_eq ?_⟩
  · rw [flowEntry, bind_eq (removeKey_calm h.toCalm hk)]
    rfl
  · rw [rest_taken (s := closed) hs]

theorem reaches_open {t : Token} (h : At s (c :: rest) ts level)
    (hc : token? c = some (flowStart t)) (hcolon : c ≠ ':') :
    ∃ s', Reaches s s' ∧ At s' rest (ts ++ [t]) (level + 1) ∧ s'.keyAllowed :=
  h.step hc (fun he => absurd he hcolon) fun _ hn hs => flowStart_at hn hs t

theorem reaches_close {t : Token} (h : At s (c :: rest) ts (level + 1))
    (hc : token? c = some (flowEnd t)) (hcolon : c ≠ ':') :
    ∃ s', Reaches s s' ∧ At s' rest (ts ++ [t]) level :=
  h.step hc (fun he => absurd he hcolon) fun _ hn hs => flowEnd_at hn hs t

/-- Behind what stands before an item, a key may begin. -/
theorem reaches_mark {first : Bool} (h : At s (Flow.mark first ++ rest) ts level)
    (hk : first → s.keyAllowed) :
    ∃ s', Reaches s s' ∧ At s' rest (ts ++ Flow.comma first) level ∧ s'.keyAllowed := by
  cases first with
  | true => exact ⟨s, .refl s, by rwa [Flow.comma, if_pos rfl, List.append_nil], hk rfl⟩
  | false =>
    have hcomma : At s (',' :: ' ' :: rest) ts level := h
    obtain ⟨s', hreaches, hat, hallowed⟩ :=
      hcomma.step rfl (fun hcolon => by cases hcolon) fun _ => flowEntry_at
    exact ⟨s', hreaches, hat.skipBlank, hallowed⟩

/-- What may follow a word inside of brackets or braces. -/
structure Stops (rest : List Char) : Prop where
  run : plainRun true rest = some 0
  head : ∃ d, rest.head? = some d ∧ isBlank d = false ∧ isBreak d = false

theorem stops_colon (rest : List Char) : Stops (':' :: ' ' :: rest) := ⟨rfl, _, rfl, rfl, rfl⟩

theorem stops_itemChars (items : List Flow) (rest : List Char) :
    Stops (Flow.itemChars false items ++ rest) := by
  cases items <;> exact ⟨rfl, _, rfl, rfl, rfl⟩

theorem stops_fieldChars (fields : List (Word × Flow)) (rest : List Char) :
    Stops (Flow.fieldChars false fields ++ rest) := by
  cases fields <;> exact ⟨rfl, _, rfl, rfl, rfl⟩

theorem plainRun_word {cs : List Char} (hcs : ∀ c ∈ cs, c.isAlphanum)
    (h : plainRun true rest = some 0) : plainRun true (cs ++ rest) = some cs.length := by
  induction cs with
  | nil => exact h
  | cons c cs ih =>
    have hc := hcs c List.mem_cons_self
    have hcolon : (c == ':') = false := beq_eq_false_iff_ne.mpr (ne_of_isAlphanum hc rfl)
    rw [List.cons_append, plainRun]
    simp only [isBlank_of_isAlphanum hc, isBreak_of_isAlphanum hc, hcolon,
      isFlowIndicator_of_isAlphanum hc, Bool.or_self, Bool.and_false, Bool.false_and,
      Bool.false_eq_true, if_false, ih fun d hd => hcs d (List.mem_cons_of_mem _ hd)]
    rfl

theorem plainLoop_word (w : Word) (hr : Stops rest) (hs : s.rest = w.chars ++ rest)
    (hflow : s.inFlow) (indent : Int) (fuel : Nat) :
    plainLoop indent (fuel + 1) "" .none s = some ((w.text, false), { s with
      rest := rest, octet := s.octet + w.chars.length, column := s.column + w.chars.length }) := by
  obtain ⟨c, cs, hcs, hc⟩ := w.exists_cons
  obtain ⟨d, hd, hblank, hbreak⟩ := hr.head
  have hs' : s.rest = c :: (cs ++ rest) := by rw [hs, hcs, List.cons_append]
  have hmark : atAnyDocumentMark s = some (false, s) := by
    rw [atAnyDocumentMark, bind_eq (atDocumentMark_of_ne hs' (ne_of_isAlphanum hc (by decide))),
      bind_eq (atDocumentMark_of_ne hs' (ne_of_isAlphanum hc (by decide)))]
    rfl
  have hpeek : peek s = some (some c, s) := by
    rw [peek, hs']
    rfl
  have hcomment : ¬(false || some c == some '#') = true := by
    simpa using (Begins.of_isAlphanum hc).comment
  have hinFlow : inFlow s = some (true, s) := by rw [inFlow, hflow]
  have hrun : plainRun true s.rest = some w.chars.length := by
    rw [hs]
    exact plainRun_word w.isAlphanum_of_mem hr.run
  have hskip : skipN w.chars.length s = some ((), { s with
      rest := rest, octet := s.octet + w.chars.length, column := s.column + w.chars.length }) := by
    rw [skipN, hs, List.drop_left, List.take_left,
      octetsOf_ascii fun c hc => utf8Size_of_isAlphanum (w.isAlphanum_of_mem c hc)]
  have hpeek' (s' : Scanner) (h : s'.rest = rest) : peek s' = some (some d, s') := by
    rw [peek, h, hd]
  have hne : w.chars.length ≠ 0 := by simp [w.begun]
  have htext : "" ++ Gap.none.fold ++ String.ofList (s.rest.take w.chars.length) = w.text := by
    have hfold : Gap.none.fold = "" := rfl
    rw [hs, List.take_left, hfold, String.empty_append, String.empty_append]
    rfl
  rw [plainLoop, bind_eq hmark, bind_eq hpeek, if_neg hcomment, bind_eq hinFlow,
    bind_eq (get_eq s)]
  simp only [hrun]
  rw [bind_eq (get_eq s), bind_eq hskip, bind_eq (hpeek' _ rfl)]
  simp only [hblank, hbreak, Bool.or_self, hne, if_false, htext]
  rfl

/-- The scanner after a word. -/
def afterWord (w : Word) (rest : List Char) (s : Scanner) : Scanner :=
  { withKey s with
    rest := rest, octet := s.octet + w.chars.length, column := s.column + w.chars.length
    tokens := s.tokens.push (.scalar w.text true), keyAllowed := false }

theorem keyed_plainScalar {w : Word} (h : At s (w.chars ++ rest) ts (level + 1))
    (hs : s.rest = w.chars ++ rest) (hr : Stops rest) :
    keyed plainScalar s = some ((), afterWord w rest s) := by
  let closed : Scanner := { withKey s with keyAllowed := false }
  have hclosed : allowKey false (withKey s) = some ((), closed) := rfl
  have hfuel : fuel closed = some (s.rest.length + 1, closed) := rfl
  have hword := plainLoop_word w hr (s := closed) hs (withKey_at h).inFlow (closed.indent + 1)
    s.rest.length
  rw [keyed, bind_eq (saveKey_at h), bind_eq hclosed, plainScalar, bind_eq (get_eq closed),
    bind_eq hfuel, bind_eq hword]
  rfl

theorem afterWord_at {w : Word} (h : At s (w.chars ++ rest) ts level) :
    At (afterWord w rest s) rest (ts ++ [.scalar w.text true]) level :=
  { withKey_at h with
    rest_eq := ⟨0, rfl⟩
    tokens_eq := by rw [afterWord, Array.toList_push, h.tokens_eq] }

/-- The word just taken can be a key, whose token would be the one of this number. -/
def CanBeKey (s : Scanner) (token : Nat) : Prop :=
  ∃ k ks, s.keys = k :: ks ∧ k.possible ∧ k.line = s.line ∧ s.octet ≤ k.octet + 1024 ∧
    k.token = token

theorem canBeKey_afterWord {w : Word} (h : s.keyAllowed) :
    CanBeKey (afterWord w rest s) s.tokens.size := by
  refine ⟨keyHere s, s.keys.tail, ?_, rfl, rfl, ?_, rfl⟩
  · rw [afterWord, withKey, if_pos h]
  · exact Nat.add_le_add_left w.short s.octet

theorem reaches_word {w : Word} (h : At s (w.chars ++ rest) ts (level + 1)) (hr : Stops rest) :
    ∃ s', Reaches s s' ∧ At s' rest (ts ++ [.scalar w.text true]) (level + 1) ∧ s'.rest = rest ∧
      (s.keyAllowed → CanBeKey s' ts.length) := by
  obtain ⟨c, cs, hcs, hc⟩ := w.exists_cons
  have htoken : token? c = some (keyed plainScalar) := by
    simp [token?, ne_of_isAlphanum hc, hc]
  have hchars : w.chars ++ rest = c :: (cs ++ rest) := by rw [hcs, List.cons_append]
  have hcolon : c = ':' → s.inFlow := fun h => absurd h (ne_of_isAlphanum hc (by decide))
  refine At.step (hchars ▸ h) htoken hcolon fun n hn hrest => ?_
  rw [← hchars] at hn hrest
  refine ⟨_, keyed_plainScalar hn hrest hr, ⟨afterWord_at hn, rfl, fun hallowed => ?_⟩, ?_⟩
  · have hkey : CanBeKey (afterWord w rest (settled n s)) _ := canBeKey_afterWord hallowed
    rwa [← Array.length_toList, hn.tokens_eq] at hkey
  · change rest.length ≤ (cs ++ rest).length
    rw [List.length_append]
    omega

/-- The scanner when the colon of a key has been met. -/
def keyFound (k : SimpleKey) (ks : List SimpleKey) (s : Scanner) : Scanner :=
  { s with
    tokens := s.tokens.insertIdxIfInBounds k.token .key
    keys := { k with possible := false } :: ks, keyAllowed := false }

theorem mappingValue_eq {k : SimpleKey} {ks : List SimpleKey} (hf : s.inFlow)
    (hkeys : s.keys = k :: ks) (hk : k.possible) :
    mappingValue s = some ((), taken .value (keyFound k ks s)) := by
  have hset : (set (keyFound k ks s) : Scan Unit) s = some ((), keyFound k ks s) := rfl
  have hflow : (keyFound k ks s).inFlow := by
    rw [Scanner.inFlow, hkeys] at hf
    exact hf
  have hroll : rollIndent k.column (some k.token) .blockMappingStart (keyFound k ks s) =
      some ((), keyFound k ks s) := by
    rw [rollIndent, bind_eq (get_eq _), hflow]
    rfl
  rw [mappingValue, bind_eq (get_eq s), hkeys]
  dsimp only
  rw [if_pos hk]
  exact (bind_eq hset).trans (bind_eq hroll)

theorem insertIdxIfInBounds_eq {as : Array Token} {t : Token} (h : as.toList = ts ++ [t])
    (k : Token) : (as.insertIdxIfInBounds ts.length k).toList = ts ++ [k, t] := by
  have hsize : ts.length ≤ as.size := by
    rw [← Array.length_toList, h, List.length_append]
    omega
  have hinsert : (ts ++ [t]).insertIdx ts.length k = ts ++ [k, t] := by
    clear h hsize
    induction ts with
    | nil => rfl
    | cons _ ts ih =>
      rw [List.cons_append, List.length_cons, List.insertIdx_succ_cons, ih, List.cons_append]
  rw [Array.insertIdxIfInBounds, dif_pos hsize, Array.toList_insertIdx, h, hinsert]

theorem keyFound_at {t : Token} {k : SimpleKey} {ks : List SimpleKey}
    (h : At s rest (ts ++ [t]) level) (hkeys : s.keys = k :: ks) (hk : k.token = ts.length) :
    At (keyFound k ks s) rest (ts ++ [.key, t]) level := by
  have hrequired := h.required_eq
  have hlevel := h.level_eq
  rw [hkeys] at hrequired hlevel
  refine { h with required_eq := ?_, tokens_eq := ?_, level_eq := hlevel }
  · rw [List.forall_mem_cons] at hrequired
    exact List.forall_mem_cons.mpr hrequired
  · rw [keyFound, hk, insertIdxIfInBounds_eq h.tokens_eq]

theorem reaches_value {t : Token} (h : At s (':' :: ' ' :: rest) (ts ++ [t]) (level + 1))
    (hs : s.rest = ':' :: ' ' :: rest) (hk : CanBeKey s ts.length) :
    ∃ s', Reaches s s' ∧ At s' rest (ts ++ [.key, t, .value]) (level + 1) := by
  obtain ⟨k, ks, hkeys, hpossible, hline, hoctet, htoken⟩ := hk
  have hfresh : refresh (skipped 0 s) k = k := by
    have hline' : ¬k.line < s.line := by omega
    have hoctet' : ¬k.octet + 1024 < s.octet := by omega
    change (if k.possible && (decide (k.line < s.line) || decide (k.octet + 1024 < s.octet)) then _
      else k) = k
    rw [decide_eq_false hline', decide_eq_false hoctet', Bool.or_false, Bool.and_false]
    rfl
  have hsame : (settled 0 s).keys = k :: ks.map (refresh (skipped 0 s)) := by
    rw [settled, hkeys, List.map_cons, hfresh]
  have hsettled := settled_at h (n := 0) hs
  have htaken := taken_at (keyFound_at hsettled hsame htoken) hs .value
  have hrest : (taken .value (keyFound k (ks.map (refresh (skipped 0 s))) (settled 0 s))).rest =
      ' ' :: rest := rest_taken hs .value
  have hat : At (taken .value (keyFound k (ks.map (refresh (skipped 0 s))) (settled 0 s)))
      (' ' :: rest) (ts ++ [.key, t, .value]) (level + 1) := by
    have hts : ts ++ [.key, t] ++ [.value] = ts ++ [.key, t, .value] := List.append_assoc ..
    exact hts ▸ htaken
  refine ⟨_, .of_next ?_ ?_, hat.skipBlank⟩
  · rw [next_of_token? (n := 0) h.toCalm hs rfl fun _ => h.inFlow,
      mappingValue_eq hsettled.inFlow hsame hpossible]
    rfl
  · rw [hrest, hs]
    exact Nat.lt_succ_self _

theorem reaches_key {w : Word} (h : At s (w.chars ++ ':' :: ' ' :: rest) ts (level + 1))
    (hk : s.keyAllowed) : ∃ s', Reaches s s' ∧
      At s' rest (ts ++ [.key, .scalar w.text true, .value]) (level + 1) := by
  obtain ⟨s₁, hword, hat, hrest, hkey⟩ := reaches_word h (stops_colon rest)
  obtain ⟨s₂, hvalue, hat⟩ := reaches_value hat hrest (hkey hk)
  exact ⟨s₂, hword.trans hvalue, hat⟩

end Scan

end RuleScope.Yaml
