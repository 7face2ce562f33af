import RuleScope.Link.Exchange
import RuleScope.Proofs.Link.Published
import RuleScope.Proofs.Link.Serving
import RuleScope.Proofs.Wire.Silence

namespace RuleScope

/-- Lists that differ only by elements of one kind, which may stand in either. -/
inductive AlikeBut {α : Type} (P : α → Prop) : List α → List α → Prop where
  | nil : AlikeBut P [] []
  | both (a : α) {xs ys : List α} : AlikeBut P xs ys → AlikeBut P (a :: xs) (a :: ys)
  | left {a : α} {xs ys : List α} : P a → AlikeBut P xs ys → AlikeBut P (a :: xs) ys
  | right {a : α} {xs ys : List α} : P a → AlikeBut P xs ys → AlikeBut P xs (a :: ys)

namespace AlikeBut

variable {α β : Type} {P : α → Prop} {xs ys zs ws : List α}

theorem refl (xs : List α) : AlikeBut P xs xs := by
  induction xs with
  | nil => exact .nil
  | cons a _ ih => exact .both a ih

theorem append (h : AlikeBut P xs ys) (h' : AlikeBut P zs ws) :
    AlikeBut P (xs ++ zs) (ys ++ ws) := by
  induction h with
  | nil => exact h'
  | both a _ ih => exact .both a ih
  | left ha _ ih => exact .left ha ih
  | right ha _ ih => exact .right ha ih

theorem nil_left (h : ∀ a ∈ xs, P a) : AlikeBut P [] xs := by
  induction xs with
  | nil => exact .nil
  | cons a _ ih =>
    exact .right (h a List.mem_cons_self) (ih fun b hb => h b (List.mem_cons_of_mem a hb))

theorem map {Q : β → Prop} {f : α → β} (h : AlikeBut P xs ys) (hf : ∀ a, P a → Q (f a)) :
    AlikeBut Q (xs.map f) (ys.map f) := by
  induction h with
  | nil => exact .nil
  | both a _ ih => exact .both (f a) ih
  | left ha _ ih => exact .left (hf _ ha) ih
  | right ha _ ih => exact .right (hf _ ha) ih

/-- Runs of steps that always succeed, where steps of the kind change nothing. -/
theorem foldl_eq {f : β → α → β} (hf : ∀ a, P a → ∀ b, f b a = b) (h : AlikeBut P xs ys) (b : β) :
    xs.foldl f b = ys.foldl f b := by
  induction h generalizing b with
  | nil => rfl
  | both a _ ih => exact ih (f b a)
  | left ha _ ih => rw [List.foldl_cons, hf _ ha, ih]
  | right ha _ ih => rw [List.foldl_cons, hf _ ha, ih]

/-- Runs of steps that may fail. A step of the kind may fail as well, but only in one of the runs. -/
theorem foldlM_eq {f : β → α → Option β} (hf : ∀ a, P a → ∀ b c, f b a = some c → c = b)
    (h : AlikeBut P xs ys) {b c d : β} (hc : xs.foldlM f b = some c) (hd : ys.foldlM f b = some d) :
    c = d := by
  induction h generalizing b with
  | nil => exact Option.some.inj (hc.symm.trans hd)
  | both a _ ih =>
    obtain ⟨b₁, hstep, hrest⟩ := Option.bind_eq_some_iff.mp hc
    obtain ⟨b₂, hstep', hrest'⟩ := Option.bind_eq_some_iff.mp hd
    obtain rfl : b₁ = b₂ := Option.some.inj (hstep.symm.trans hstep')
    exact ih hrest hrest'
  | left ha _ ih =>
    obtain ⟨b₁, hstep, hrest⟩ := Option.bind_eq_some_iff.mp hc
    rw [hf _ ha _ _ hstep] at hrest
    exact ih hrest hd
  | right ha _ ih =>
    obtain ⟨b₁, hstep, hrest⟩ := Option.bind_eq_some_iff.mp hd
    rw [hf _ ha _ _ hstep] at hrest
    exact ih hc hrest

end AlikeBut

namespace Link

variable {l : Link} {k : Nat}

theorem foldl_read_line (hk : l.connections[k]?.map Connection.reading = some true)
    (hl : l.listening = true) (texts : List String) :
    texts.foldl (fun l text => l.read k (.line text)) l =
      { l with inbound := l.inbound ++ texts.filterMap Wire.message? } := by
  induction texts generalizing l with
  | nil => rw [List.filterMap_nil, List.append_nil, List.foldl_nil]
  | cons text rest ih =>
    have hrest := ih (l := { l with inbound := l.inbound ++ (Wire.message? text).toList }) hk hl
    rw [List.foldl_cons, read_line hk hl, hrest, List.append_assoc, List.filterMap_cons]
    cases Wire.message? text <;> rfl

end Link

/-- The reader of a connection that meets the end of the stream after some lines has handed on all that
they say, and the link counts as disconnected. -/
theorem Exchange.hangUp_lines {x : Exchange} {k : Nat}
    (hk : x.link.connections[k]?.map Connection.reading = some true)
    (hl : x.link.listening = true) (texts : List String) :
    ((x.lines k texts).hangUp k).link.inbound = x.link.inbound ++ texts.filterMap Wire.message? ∧
      ((x.lines k texts).hangUp k).link.state = .disconnected := by
  obtain ⟨c, hc, hreading⟩ := Option.map_eq_some_iff.mp hk
  have hlines := Link.foldl_read_line hk hl texts
  have hopen : (x.lines k texts).link.connections[k]? = some c := by
    rw [lines, hlines]
    exact hc
  rw [hangUp]
  dsimp only
  rw [Link.read_ended hopen hreading]
  refine ⟨?_, Link.publish_state _ _⟩
  unfold Link.publish Exchange.lines
  rw [hlines]
  split <;> rfl

namespace Client

/-- A reader reads a line that says nothing. -/
def Move.Silent : Move → Prop
  | .task (.read _ (.line text)) => Wire.SaysNothing text
  | _ => False

theorem step?_silent {mv : Move} (h : mv.Silent) (s s' : Client) (hs : s.step? mv = some s') :
    s' = s := by
  unfold Move.Silent at h
  split at h
  next k text =>
    obtain ⟨link, hlink, rfl⟩ := Option.map_eq_some_iff.mp hs
    obtain ⟨-, rfl⟩ := Link.task?_read hlink
    rw [Link.read_silent h]
  next => exact h.elim

end Client

theorem Mirror.pushed?_of_saysNothing {text : String} (h : Wire.SaysNothing text) :
    pushed? text = none := by
  have hnone := Wire.saysNothing_iff.mp h
  unfold Wire.message? at hnone
  unfold pushed?
  split
  next hm =>
    rw [hm] at hnone
    cases hnone
  next => rfl

namespace Service

/-- A line comes that says nothing. -/
def Event.Silent : Event → Prop
  | .line text => Wire.SaysNothing text
  | _ => False

theorem step?_silent {e : Event} (h : e.Silent) (s s' : Service) (hs : s.step? e = some s') :
    s' = s := by
  unfold Event.Silent at h
  split at h
  next text =>
    simp only [step?, Option.ite_none_right_eq_some, Option.some.injEq] at hs
    obtain ⟨-, rfl⟩ := hs
    rw [Mirror.read_of_not_pushed (Mirror.pushed?_of_saysNothing h)]
  next => exact h.elim

/-- A debugger connects, its lines come, and it is gone. -/
def visit (texts : List String) : List Event := .accept :: texts.map .line ++ [.ended]

theorem visit_alikeBut {xs ys : List String} (h : AlikeBut Wire.SaysNothing xs ys) :
    AlikeBut Event.Silent (visit xs) (visit ys) := by
  have hlines : AlikeBut Event.Silent (xs.map .line) (ys.map .line) := h.map fun _ htext => htext
  exact .both .accept (hlines.append (.refl [.ended]))

variable {s : Service}

theorem run?_lines (h : s.endpoint.connected = true) (texts : List String) :
    ∃ endpoint : Endpoint, s.run? (texts.map .line) = some { s with endpoint } ∧
      endpoint.connected = true := by
  induction texts generalizing s with
  | nil => exact ⟨s.endpoint, rfl, h⟩
  | cons text rest ih =>
    have hconnected := (Mirror.read_fields s.endpoint text).2.trans h
    obtain ⟨endpoint, hrun, hend⟩ :=
      ih (s := { s with endpoint := s.endpoint.read text }) hconnected
    refine ⟨endpoint, ?_, hend⟩
    rw [run?, List.map_cons, List.foldlM_cons, step?, if_pos h]
    exact hrun

/-- Whatever its lines say, a debugger that comes to a runtime without one is served to the end. -/
theorem exists_run?_visit (h : s.endpoint.connected = false) (texts : List String) :
    ∃ endpoint : Endpoint, s.run? (visit texts) = some { s with endpoint } := by
  obtain ⟨endpoint, hlines, hend⟩ := run?_lines
    (s := { s with endpoint := { s.endpoint with connected := true } }) rfl texts
  refine ⟨endpoint.release, ?_⟩
  have haccept : s.step? .accept =
      some { s with endpoint := { s.endpoint with connected := true } } := by
    rw [step?, Endpoint.accept?, if_neg (by simp [h])]
    rfl
  rw [run?] at hlines
  rw [run?, visit, List.cons_append, List.foldlM_cons, haccept, Option.bind_eq_bind, Option.bind_some,
    List.foldlM_append, hlines, Option.bind_eq_bind, Option.bind_some, List.foldlM_cons, step?,
    if_pos hend]
  rfl

end Service

/-- Lines that are blank or malformed, or have an unknown method, make no difference, wherever they stand.
The debugger's reader hands on what the other lines say, in order, and publishes what it would have
published without them. The runtime is left the same as well; its table has for each rule the state of the
last valid line that pushes one, over all connections so far, and the received states are all that were
pushed. -/
theorem silent_lines_are_skipped :
    (∀ (x : Exchange) (k : Nat) (xs ys : List String), AlikeBut Wire.SaysNothing xs ys →
      x.lines k xs = x.lines k ys) ∧
    (∀ (x : Exchange) (k : Nat) (xs : List String),
      x.link.connections[k]?.map Connection.reading = some true → x.link.listening = true →
      (x.lines k xs).link =
          { x.link with inbound := x.link.inbound ++ xs.filterMap Wire.message? } ∧
        ((x.lines k xs).hangUp k).link.inbound = x.link.inbound ++ xs.filterMap Wire.message? ∧
        ((x.lines k xs).hangUp k).link.state = .disconnected) ∧
    (∀ (s c d : Client) (xs ys : List Client.Move), AlikeBut Client.Move.Silent xs ys →
      s.run? xs = some c → s.run? ys = some d → c = d) ∧
    (∀ (s : Service) (xs ys : List String), s.endpoint.connected = false →
      AlikeBut Wire.SaysNothing xs ys →
      ∃ s', s.run? (Service.visit xs) = some s' ∧ s.run? (Service.visit ys) = some s') ∧
    (∀ (s c d : Service) (xs ys : List Service.Event), AlikeBut Service.Event.Silent xs ys →
      s.run? xs = some c → s.run? ys = some d → c = d) ∧
    ∀ (addr : Address) (events : List Service.Event) (s : Service),
      (Service.start addr).run? events = some s →
      let pushed := events.filterMap Service.Event.pushed?
      (∀ id, Table.get? id s.endpoint.table =
        latest? Wire.StateMessage.rule Wire.StateMessage.state id pushed) ∧
      (∀ id, s.endpoint.state id =
        (latest? Wire.StateMessage.rule Wire.StateMessage.state id pushed).getD .never) ∧
      s.endpoint.knownRules = (pushed.map Wire.StateMessage.rule).toFinset.card ∧
      s.told ++ s.endpoint.received = pushed := by
  refine ⟨fun x k xs ys h => ?_, fun x k xs hk hl => ⟨Link.foldl_read_line hk hl xs, ?_⟩,
    fun s c d xs ys h => ?_, fun s xs ys hs h => ?_, fun s c d xs ys h => ?_,
    fun addr events s hs => ?_⟩
  · have hlink := h.foldl_eq (fun text htext l => Link.read_silent htext l k) x.link
    rw [Exchange.lines, Exchange.lines, hlink]
  · exact Exchange.hangUp_lines hk hl xs
  · exact h.foldlM_eq fun mv hmv => Client.step?_silent hmv
  · obtain ⟨endpoint, hx⟩ := Service.exists_run?_visit hs xs
    obtain ⟨endpoint', hy⟩ := Service.exists_run?_visit hs ys
    have hsame := (Service.visit_alikeBut h).foldlM_eq (fun e he => Service.step?_silent he) hx hy
    exact ⟨_, hx, hsame ▸ hy⟩
  · exact h.foldlM_eq fun e he => Service.step?_silent he
  · have hrecords := (Service.start_records addr).run hs
    exact ⟨hrecords.value, hrecords.state_eq, hrecords.knownRules_eq, hrecords.received⟩

/-- Blank lines of two kinds, half an object, an unknown method, a state without a code, and one whose
code is not known. -/
def chatter : List String :=
  ["", " \t", "\x7b\"method\":", "\x7b\"method\":\"hello\"\x7d",
    "\x7b\"method\":\"setLoggingState\",\"params\":[7]\x7d",
    "\x7b\"method\":\"setLoggingState\",\"params\":[7,9]\x7d"]

def talkedOfRule : RuleId := (RuleId.ofInt? 7).getD default

def reportLine : String := "\x7b\"method\":\"logRule\",\"params\":[7,[true]]\x7d"

/-- A link that has just connected. -/
def listeningExchange : Exchange := ⟨[], (Link.new 5000).opened "127.0.0.1:7777", []⟩

/-- The debugger connects and reads some lines. -/
def readMoves (texts : List String) : List Client.Move :=
  Client.connectMoves ++ texts.map fun text => .task (.read 0 (.line text))

/-- Over two connections a rule is set to be shown, and never again. -/
def pushEvents (texts : List String) : List Service.Event :=
  [.accept] ++ texts.map .line ++
    [.line "\x7b\"method\":\"setLoggingState\",\"params\":[7,3]\x7d",
      .evaluated talkedOfRule [true]] ++ texts.map .line ++
    [.send, .take, .ended, .accept] ++ texts.map .line ++
    [.line "\x7b\"method\":\"setLoggingState\",\"params\":[7,0]\x7d"]

/-- Such lines before and after a report, before and after a push, and on both connections. -/
theorem silent_lines_are_skipped_amid_chatter :
    listeningExchange.lines 0 [reportLine] =
      listeningExchange.lines 0 (chatter ++ [reportLine] ++ chatter) ∧
    ((listeningExchange.lines 0 (chatter ++ [reportLine] ++ chatter)).hangUp 0).link.inbound =
      [.log ⟨talkedOfRule, [true]⟩] ∧
    (∃ c, (Client.start 5000).run? (readMoves [reportLine]) = some c ∧
      (Client.start 5000).run? (readMoves (chatter ++ [reportLine] ++ chatter)) = some c) ∧
    (∃ s, (Service.start ⟨[127, 0, 0, 1], 0, 7777⟩).run? (Service.visit []) = some s ∧
      (Service.start ⟨[127, 0, 0, 1], 0, 7777⟩).run? (Service.visit chatter) = some s) ∧
    ∃ s, (Service.start ⟨[127, 0, 0, 1], 0, 7777⟩).run? (pushEvents []) = some s ∧
      (Service.start ⟨[127, 0, 0, 1], 0, 7777⟩).run? (pushEvents chatter) = some s ∧
      s.endpoint.state talkedOfRule = .never ∧ s.endpoint.knownRules = 1 ∧
      s.told ++ s.endpoint.received = [⟨talkedOfRule, .always⟩,
        ⟨talkedOfRule, .never⟩] := by
  have hnone : ∀ text ∈ chatter, Wire.message? text = none := by decide +kernel
  have hempty : AlikeBut Wire.SaysNothing [] chatter :=
    .nil_left fun text htext => Wire.saysNothing_iff.mpr (hnone text htext)
  have hreport : AlikeBut Wire.SaysNothing [reportLine] (chatter ++ [reportLine] ++ chatter) :=
    (hempty.append (.refl [reportLine])).append hempty
  have hmoves : AlikeBut Client.Move.Silent (readMoves [reportLine])
      (readMoves (chatter ++ [reportLine] ++ chatter)) :=
    (AlikeBut.refl _).append (hreport.map fun _ htext => htext)
  have hlines : AlikeBut Service.Event.Silent [] (chatter.map .line) :=
    hempty.map fun _ htext => htext
  have hevents : AlikeBut Service.Event.Silent (pushEvents []) (pushEvents chatter) :=
    ((((((AlikeBut.refl _).append hlines).append (.refl _)).append hlines).append
      (.refl _)).append hlines).append (.refl _)
  obtain ⟨hread, hhanded, hclient, hvisit, hservice, htable⟩ := silent_lines_are_skipped
  refine ⟨hread _ 0 _ _ hreport, ?_, ?_, hvisit _ _ _ rfl hempty, ?_⟩
  · rw [(hhanded listeningExchange 0 _ rfl rfl).2.1]
    decide +kernel
  · have hshort : ((Client.start 5000).run? (readMoves [reportLine])).isSome = true := by
      decide +kernel
    have hlong : ((Client.start 5000).run?
        (readMoves (chatter ++ [reportLine] ++ chatter))).isSome = true := by
      decide +kernel
    obtain ⟨c, hc⟩ := Option.isSome_iff_exists.mp hshort
    obtain ⟨d, hd⟩ := Option.isSome_iff_exists.mp hlong
    exact ⟨c, hc, hclient _ _ _ _ _ hmoves hc hd ▸ hd⟩
  · have hshort : ((Service.start ⟨[127, 0, 0, 1], 0, 7777⟩).run? (pushEvents [])).isSome = true := by
      decide +kernel
    have hlong : ((Service.start ⟨[127, 0, 0, 1], 0, 7777⟩).run?
        (pushEvents chatter)).isSome = true := by
      decide +kernel
    have hpushed : (pushEvents []).filterMap Service.Event.pushed? =
        [⟨talkedOfRule, .always⟩, ⟨talkedOfRule, .never⟩] := by
      decide +kernel
    obtain ⟨c, hc⟩ := Option.isSome_iff_exists.mp hshort
    obtain ⟨d, hd⟩ := Option.isSome_iff_exists.mp hlong
    obtain ⟨-, hstate, hrules, hreceived⟩ := htable _ _ _ hc
    rw [hpushed] at hstate hrules hreceived
    exact ⟨c, hc, hservice _ _ _ _ _ hevents hc hd ▸ hd, hstate _, hrules, hreceived⟩

end RuleScope
