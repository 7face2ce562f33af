import RuleScope.Proofs.Link.Following
import RuleScope.Proofs.Session.Operations
import RuleScope.Watching

namespace RuleScope.Watching

inductive Move where
  /-- The loop takes a branch; `d` is the disk at that time. -/
  | take (b : Branch) (d : Disk)
  | burst (d : Disk) (events : List RawEvent)
  | write (k : Nat) (e : WriterEvent)
  | read (k : Nat) (e : Link.ReaderEvent)
  | listen (addresses : List Address)

/-- One move, if it can be made. -/
def move? (w : Watching) : Move → Option Watching
  | .take b d => (w.step? d b).map Prod.fst
  | .burst d events => some (w.burst d events)
  | .write k e => (w.exchange.link.writerStep? k e).map fun r => w.withLink r.1
  | .read k e => some (w.withLink (w.exchange.link.read k e))
  | .listen addresses => some { w with exchange := { w.exchange with listening := addresses } }

def run? (w : Watching) (moves : List Move) : Option Watching := moves.foldlM move? w

/-- `P` holds at every moment of a run, which ends early at a move that cannot be made. -/
def Always (P : Watching → Prop) (w : Watching) : List Move → Prop
  | [] => P w
  | mv :: rest => P w ∧ ∀ w' ∈ w.move? mv, Always P w' rest

/-- `Q` holds of every move of a run when it is made. -/
def Each (Q : Watching → Move → Prop) (w : Watching) : List Move → Prop
  | [] => True
  | mv :: rest => Q w mv ∧ ∀ w' ∈ w.move? mv, Each Q w' rest

/-- At most one observer of the link is on the current model, each change of a rule is queued at most
once, and the link takes its observer off the model when it disconnects. -/
structure Tidy (w : Watching) : Prop where
  single : ∀ m, w.session.model = some m → m.clients.length ≤ 1
  once : ∀ m, w.session.model = some m → ∀ changes : List Change,
    ∃ queued : List (Nat × Wire.StateMessage),
      w.exchange.link.forward m (m.observers.notices changes) =
        queued.foldl (fun l q => l.enqueue q.1 q.2) w.exchange.link ∧
      (queued.map Prod.snd).Sublist (changes.filterMap Change.message?)
  released : ∀ m, w.hangUp.session.model = some m → m.clients = []

def Waiting (w : Watching) : Prop := w.upcoming < w.session.announcements.length

/-- An announcement that is heard while connected finds the current model without an observer of the
link. -/
def HeardInTime (w : Watching) : Move → Prop
  | .take .rebuilt _ => w.Waiting → w.exchange.link.isConnected = true →
    ∀ m ∈ w.session.model, m.clients = []
  | _ => True

/-- The announcement that is heard is the last of those waiting. -/
def HeardNewest (w : Watching) : Move → Prop
  | .take .rebuilt _ => w.session.announcements.length ≤ w.upcoming + 1
  | _ => True

def Follows (w : Watching) : Prop :=
  ∀ m, w.session.model = some m → m.Consistent ∧ w.exchange.link.Follows m

instance (w : Watching) (mv : Move) : Decidable (w.HeardInTime mv) := by
  unfold HeardInTime Waiting
  split <;> infer_instance

instance decideEach {Q : Watching → Move → Prop} [∀ w mv, Decidable (Q w mv)] :
    ∀ w moves, Decidable (Each Q w moves)
  | _, [] => isTrue trivial
  | w, mv :: rest =>
    haveI : ∀ w', Decidable (Each Q w' rest) := fun w' => decideEach w' rest
    inferInstanceAs (Decidable (Q w mv ∧ ∀ w' ∈ w.move? mv, Each Q w' rest))

section

variable {w w' : Watching}

theorem Always.at_start {P : Watching → Prop} {moves : List Move} (h : Always P w moves) : P w := by
  cases moves with
  | nil => exact h
  | cons _ _ => exact h.1

theorem Always.at_end {P : Watching → Prop} {moves : List Move} (h : Always P w moves)
    (hr : w.run? moves = some w') : P w' := by
  induction moves generalizing w with
  | nil =>
    obtain rfl : w = w' := Option.some.inj hr
    exact h
  | cons mv rest ih =>
    obtain ⟨w₁, hw₁, hr⟩ := Option.bind_eq_some_iff.mp hr
    exact ih (h.2 w₁ hw₁) hr

theorem follows_with {l : Link} {m : RuleModel} (hc : m.Consistent) (hf : l.Follows m) :
    ((w.withLink l).withModel m).Follows := by
  intro m' hm
  obtain rfl : m = m' := Option.some.inj hm
  exact ⟨hc, hf⟩

theorem follows_of_none (h : w.session.model = none) : w.Follows := by
  intro m hm
  rw [h] at hm
  cases hm

theorem Follows.withLink (h : w.Follows) {l : Link} (hl : l.observer = w.exchange.link.observer) :
    (w.withLink l).Follows := by
  intro m hm
  obtain ⟨hc, hf⟩ := h m hm
  exact ⟨hc, hf.congr hl rfl rfl⟩

theorem hangUp_model {m : RuleModel} (h : w.session.model = some m) :
    w.hangUp.session.model = some (w.exchange.link.disconnect m).2 := by
  unfold hangUp
  rw [h]
  rfl

theorem hangUp_model_of_none (h : w.session.model = none) : w.hangUp.session.model = none := by
  unfold hangUp
  rw [h]
  exact h

/-- Hanging up leaves nobody on the model. -/
theorem Follows.hangUp_unobserved (h : w.Follows) :
    ∀ m, w.hangUp.session.model = some m → m.Consistent ∧ m.Unobserved := by
  intro m' hm'
  cases hm : w.session.model with
  | none =>
    rw [hangUp_model_of_none hm] at hm'
    cases hm'
  | some m =>
    rw [hangUp_model hm] at hm'
    obtain rfl := Option.some.inj hm'
    obtain ⟨hc, hf⟩ := h m hm
    obtain ⟨observers, hd⟩ := w.exchange.link.disconnect_model m
    refine ⟨?_, hf.disconnect⟩
    rw [hd]
    exact hc.withObservers observers

theorem Follows.hangUp (h : w.Follows) : w.hangUp.Follows := by
  intro m hm
  obtain ⟨hc, hu⟩ := h.hangUp_unobserved m hm
  exact ⟨hc, Or.inl hu⟩

theorem Follows.tidy (h : w.Follows) : w.Tidy where
  single := fun m hm => (h m hm).2.clients_length_le
  once := fun m hm => (h m hm).2.forward_once (h m hm).1
  released := fun m hm => (h.hangUp_unobserved m hm).2.clients_eq

theorem Follows.tryConnect (h : w.Follows) : w.tryConnect.1.Follows := by
  unfold Watching.tryConnect
  split
  next => exact h
  next m hm =>
    obtain ⟨hc, hf⟩ := h m hm
    intro m' hm'
    obtain rfl := Option.some.inj hm'
    obtain ⟨observers, hd⟩ := w.exchange.link.connect_model w.settings.runtimeAddress
      (.attempt w.exchange.listening w.settings.runtimeAddress) m
    refine ⟨?_, hf.connect _ _⟩
    change RuleModel.Consistent (w.exchange.link.connect _ _ m).2.1
    rw [hd]
    exact hc.withObservers observers

theorem tryConnect_heard (w : Watching) : w.tryConnect.1.heard = w.heard ∧
    w.tryConnect.1.session.announcements = w.session.announcements := by
  unfold Watching.tryConnect
  split <;> exact ⟨rfl, rfl⟩

theorem hearRebuild?_heard {r : Watching × List Shown} (hr : w.hearRebuild? = some r) :
    r.1.heard = w.upcoming + 1 ∧ r.1.session.announcements = w.session.announcements := by
  unfold hearRebuild? at hr
  split at hr
  next => cases hr
  next =>
    dsimp only at hr
    split at hr
    next =>
      split at hr <;> cases hr <;> exact ⟨rfl, rfl⟩
    next =>
      split at hr
      next =>
        cases hr
        exact tryConnect_heard { w with heard := w.upcoming + 1 }
      next =>
        cases hr
        exact ⟨rfl, rfl⟩

theorem takeBatch?_eq {d : Disk} {r : Watching × List Shown} (hr : w.takeBatch? d = some r) :
    ∃ b batches, r.1 = { w with session := (w.session.applyBatch d b).1, batches } := by
  unfold takeBatch? at hr
  split at hr
  next => cases hr
  next b batches _ =>
    cases hr
    exact ⟨b, batches, rfl⟩

/-- Reports go to the model, if there is one, and what they change there goes to the link. -/
theorem takeReports?_eq {r : Watching × List Shown} (hr : w.takeReports? = some r) :
    ∃ link : Link, link.observer = w.exchange.link.observer ∧
      (r.1 = w.withLink link ∧ w.session.model = none ∨
        ∃ m states, w.session.model = some m ∧
          r.1 = (w.withLink link).withModel (m.acceptStates states).1) := by
  unfold takeReports? at hr
  split at hr
  next => cases hr
  next =>
    let link : Link := { w.exchange.link with
      inbound := w.exchange.link.inbound.drop LogBatch.capacity }
    dsimp only at hr
    split at hr
    next hm =>
      cases hr
      exact ⟨link, rfl, Or.inl ⟨rfl, hm⟩⟩
    next m hm =>
      cases hr
      let batch := LogBatch.ofMessages (w.exchange.link.inbound.take LogBatch.capacity)
      exact ⟨link.forward (m.report batch).1 (m.report batch).2.1, Link.forward_observer _ _ _,
        Or.inr ⟨m, batch.states, hm, rfl⟩⟩

theorem noteLink?_eq {r : Watching × List Shown} (hr : w.noteLink? = some r) :
    ∃ seen, r.1 = { w with seen } ∨ r.1 = ({ w with seen } : Watching).hangUp := by
  unfold noteLink? at hr
  dsimp only at hr
  split at hr
  next => cases hr
  next =>
    split at hr
    next =>
      cases hr
      exact ⟨_, Or.inr rfl⟩
    next =>
      cases hr
      exact ⟨_, Or.inl rfl⟩

theorem Follows.takeBatch (h : w.Follows) {d : Disk} {r : Watching × List Shown}
    (hr : w.takeBatch? d = some r) : r.1.Follows := by
  obtain ⟨b, batches, hr⟩ := takeBatch?_eq hr
  rw [hr]
  intro m hm
  rcases w.session.applyBatch_model d b with ⟨hmodel, _⟩ | hnew
  · exact h m (hmodel.symm.trans hm)
  · obtain ⟨hc, ho⟩ := hnew m hm
    exact ⟨hc, Or.inl (RuleModel.unobserved_of_eq ho)⟩

theorem Follows.hearRebuild (h : w.Follows) {d : Disk} (ht : w.HeardInTime (.take .rebuilt d))
    {r : Watching × List Shown} (hr : w.hearRebuild? = some r) : r.1.Follows := by
  unfold hearRebuild? at hr
  split at hr
  next => cases hr
  next a ha =>
    have waiting : w.Waiting := (List.getElem?_eq_some_iff.mp ha).1
    dsimp only at hr
    split at hr
    next hconnected =>
      split at hr
      next m hm =>
        cases hr
        obtain ⟨hc, hf⟩ := h m hm
        obtain ⟨observers, hd⟩ := w.exchange.link.modelReplaced_model m
        refine follows_with ?_ ?_
        · rw [hd]
          exact hc.withObservers observers
        · exact w.exchange.link.follows_modelReplaced
            (hf.unobserved (ht waiting hconnected m hm))
      next hm =>
        cases hr
        exact follows_of_none hm
    next =>
      split at hr
      next =>
        cases hr
        exact Follows.tryConnect (w := { w with heard := w.upcoming + 1 }) h
      next =>
        cases hr
        exact h

theorem Follows.takeReports (h : w.Follows) {r : Watching × List Shown}
    (hr : w.takeReports? = some r) : r.1.Follows := by
  obtain ⟨link, hobserver, ⟨hr, hm⟩ | ⟨m, states, hm, hr⟩⟩ := takeReports?_eq hr
  · rw [hr]
    exact follows_of_none hm
  · rw [hr]
    obtain ⟨hc, hf⟩ := h m hm
    obtain ⟨hc', htree, hobservers⟩ := RuleModel.acceptStates_kept hc states
    exact follows_with hc' (hf.congr hobserver htree hobservers)

theorem Follows.noteLink (h : w.Follows) {r : Watching × List Shown}
    (hr : w.noteLink? = some r) : r.1.Follows := by
  obtain ⟨seen, hr | hr⟩ := noteLink?_eq hr
  · rw [hr]
    exact h
  · rw [hr]
    exact Follows.hangUp (w := { w with seen }) h

theorem Follows.move (h : w.Follows) {mv : Move} (ht : w.HeardInTime mv)
    (hm : w.move? mv = some w') : w'.Follows := by
  cases mv with
  | take b d =>
    obtain ⟨r, hr, rfl⟩ := Option.map_eq_some_iff.mp hm
    cases b with
    | sources => exact h.takeBatch hr
    | rebuilt => exact h.hearRebuild ht hr
    | reports => exact h.takeReports hr
    | link => exact h.noteLink hr
  | burst d events =>
    cases hm
    exact h
  | write k e =>
    obtain ⟨r, hr, rfl⟩ := Option.map_eq_some_iff.mp hm
    exact h.withLink (Link.writerStep?_observer hr)
  | read k e =>
    cases hm
    exact h.withLink (Link.read_observer _ k e)
  | listen addresses =>
    cases hm
    exact h

theorem Follows.always_tidy (h : w.Follows) {moves : List Move} (ho : Each HeardInTime w moves) :
    Always Tidy w moves := by
  -- The invariant is that the link follows the model; tidiness is read off it at every moment.
  induction moves generalizing w with
  | nil => exact h.tidy
  | cons mv rest ih => exact ⟨h.tidy, fun w' hw' => ih (h.move ho.1 hw') (ho.2 w' hw')⟩

/-- An announcement that is heard too late leaves an observer that the link does not remember. -/
theorem not_tidy_of_late {d : Disk} (h : ¬ w.HeardInTime (.take .rebuilt d)) :
    ∃ w', w.move? (.take .rebuilt d) = some w' ∧ ¬ w'.Tidy := by
  obtain ⟨hwaiting, hconnected, m, hm, hclients⟩ : w.Waiting ∧
      w.exchange.link.isConnected = true ∧ ∃ m, w.session.model = some m ∧ m.clients ≠ [] := by
    simpa [HeardInTime] using h
  obtain ⟨a, ha⟩ : ∃ a, w.session.announcements[w.upcoming]? = some a :=
    ⟨_, List.getElem?_eq_getElem hwaiting⟩
  let l := (w.exchange.link.modelReplaced m).1
  let m' := (w.exchange.link.modelReplaced m).2.1
  let late := ({ w with heard := w.upcoming + 1 }.withLink l).withModel m'
  refine ⟨late, ?_, fun tidy => ?_⟩
  · simp only [move?, step?, hearRebuild?, ha, hconnected, hm]
    rfl
  · have hsome : m.clients.length ≠ 0 := fun h0 => hclients (List.length_eq_zero_iff.mp h0)
    have hmodel : late.session.model = some m' := rfl
    -- The link remembers nobody to take off, or a second observer has joined.
    rcases Link.modelReplaced_clients (m := m) hconnected with ⟨ho, hc⟩ | hc
    · have released := tidy.released _ (hangUp_model hmodel)
      have hdetach : (l.disconnect m').2 = m' := by
        unfold Link.disconnect Link.detach
        rw [show l.observer = none from ho]
      rw [show late.exchange.link = l from rfl, hdetach] at released
      exact hclients (hc.symm.trans released)
    · have single := tidy.single m' hmodel
      rw [show m'.clients.length = _ from hc] at single
      omega

theorem inTime_of_always_tidy {moves : List Move} (h : Always Tidy w moves) :
    Each HeardInTime w moves := by
  induction moves generalizing w with
  | nil => trivial
  | cons mv rest ih =>
    refine ⟨?_, fun w' hw' => ih (h.2 w' hw')⟩
    by_contra hlate
    cases mv with
    | take b d =>
      cases b with
      | rebuilt =>
        obtain ⟨w', hw', hnot⟩ := not_tidy_of_late hlate
        exact hnot (h.2 w' hw').at_start
      | _ => exact hlate trivial
    | _ => exact hlate trivial

/-- When watching begins, the link follows the model that the session found, and has heard of it. -/
theorem start_follows {d : Disk} {settings : Settings} {connecting : Bool}
    {listening : List Address} (h : (start d settings connecting listening).2 = .ok w) :
    w.Follows ∧ w.heard = w.session.announcements.length := by
  have opened : ∀ w : Watching, w.session = Session.ofSettings d settings → w.Follows := by
    intro w hw m hm
    rw [hw] at hm
    rcases (Session.start d settings).rebuild_model d with ⟨hmodel, _⟩ | hnew
    · cases hmodel.symm.trans hm
    · obtain ⟨hc, ho⟩ := hnew m hm
      exact ⟨hc, Or.inl (RuleModel.unobserved_of_eq ho)⟩
  unfold start at h
  dsimp only at h
  split at h
  next => cases h
  next watcher _ =>
    split at h
    next =>
      cases h
      obtain ⟨hheard, hannouncements⟩ := tryConnect_heard _
      exact ⟨(opened _ rfl).tryConnect, by rw [hheard, hannouncements]⟩
    next =>
      cases h
      exact ⟨opened _ rfl, rfl⟩

/-- While an announcement is waiting, the link is not on the current model. -/
def Unheard (w : Watching) : Prop :=
  w.Waiting → ∀ m, w.session.model = some m → m.clients = []

/-- As long as only the last of the waiting announcements is heard, it is heard in time. -/
theorem Unheard.take (hu : w.Unheard) (h : w.Follows) {b : Branch} {d : Disk}
    (hn : w.HeardNewest (.take b d)) {r : Watching × List Shown} (hr : w.step? d b = some r) :
    r.1.Unheard := by
  cases b with
  | sources =>
    obtain ⟨b, batches, hr⟩ := takeBatch?_eq hr
    rw [hr]
    intro hw m hm
    rcases w.session.applyBatch_model d b with ⟨hmodel, hannouncements⟩ | hnew
    · refine hu ?_ m (hmodel.symm.trans hm)
      unfold Waiting upcoming at hw ⊢
      dsimp only at hw
      rwa [hannouncements] at hw
    · obtain ⟨_, ho⟩ := hnew m hm
      exact (RuleModel.unobserved_of_eq ho).clients_eq
  | rebuilt =>
    intro hw
    obtain ⟨hheard, hannouncements⟩ := hearRebuild?_heard hr
    have hn : w.session.announcements.length ≤ w.upcoming + 1 := hn
    unfold Waiting upcoming at hw
    rw [hheard, hannouncements] at hw
    omega
  | reports =>
    obtain ⟨link, _, ⟨hr, _⟩ | ⟨m, states, hm, hr⟩⟩ := takeReports?_eq hr
    · rw [hr]
      exact hu
    · rw [hr]
      intro hw m' hm'
      obtain rfl := Option.some.inj hm'
      obtain ⟨_, _, hobservers⟩ := RuleModel.acceptStates_kept (h m hm).1 states
      rw [RuleModel.clients, hobservers]
      exact hu hw m hm
  | link =>
    obtain ⟨seen, hr | hr⟩ := noteLink?_eq hr
    · rw [hr]
      exact hu
    · rw [hr]
      exact fun _ m hm =>
        (Follows.hangUp_unobserved (w := { w with seen }) h m hm).2.clients_eq

theorem Unheard.move (hu : w.Unheard) (h : w.Follows) {mv : Move} (hn : w.HeardNewest mv)
    (hm : w.move? mv = some w') : w'.Unheard := by
  cases mv with
  | take b d =>
    obtain ⟨r, hr, rfl⟩ := Option.map_eq_some_iff.mp hm
    exact hu.take h hn hr
  | burst d events =>
    cases hm
    exact hu
  | write k e =>
    obtain ⟨r, _, rfl⟩ := Option.map_eq_some_iff.mp hm
    exact hu
  | read k e =>
    cases hm
    exact hu
  | listen addresses =>
    cases hm
    exact hu

theorem Unheard.inTime (hu : w.Unheard) (h : w.Follows) {moves : List Move}
    (hn : Each HeardNewest w moves) : Each HeardInTime w moves := by
  induction moves generalizing w with
  | nil => trivial
  | cons mv rest ih =>
    have ht : w.HeardInTime mv := by
      unfold HeardInTime
      split
      next => exact fun hw _ m hm => hu hw m hm
      next => trivial
    exact ⟨ht, fun w' hw' => ih (hu.move h hn.1 hw') (h.move ht hw') (hn.2 w' hw')⟩

/-- Where every rebuild is heard of before the next, all is tidy. -/
theorem always_tidy_of_heardNewest {d : Disk} {settings : Settings} {connecting : Bool}
    {listening : List Address} (h : (start d settings connecting listening).2 = .ok w)
    {moves : List Move} (hn : Each HeardNewest w moves) : Always Tidy w moves := by
  obtain ⟨hf, hheard⟩ := start_follows h
  refine hf.always_tidy (Unheard.inTime (fun hw => ?_) hf hn)
  unfold Waiting upcoming at hw
  omega

/-- In whatever order the branches are taken, all is tidy as long as, and only as long as, every
announcement that is heard while connected finds the current model without an observer. -/
theorem always_tidy_iff_heardInTime {d : Disk} {settings : Settings} {connecting : Bool}
    {listening : List Address} (h : (start d settings connecting listening).2 = .ok w)
    (moves : List Move) : Always Tidy w moves ↔ Each HeardInTime w moves :=
  ⟨inTime_of_always_tidy, (start_follows h).1.always_tidy⟩

end

def projectDisk : Disk :=
  ⟨[(⟨["RuleLoc.yml"]⟩, .file "label: main\nchildren: [\x7blabel: bye, id: 2\x7d]" 0),
    (⟨["src"]⟩, .directory)], .root, 0⟩

def projectSettings : Settings :=
  ⟨"/src", some "/RuleLoc.yml", none, "127.0.0.1:40001", 1000, "/saved", 15, 10⟩

def runtimeAddress : Address := ⟨[127, 0, 0, 1], 0, 40001⟩

def compiled : Move := .burst projectDisk [⟨.data, ["/RuleLoc.yml"]⟩]

def taken (b : Branch) : Move := .take b projectDisk

def reported : List Move :=
  [.read 0 (.line "\x7b\"method\":\"setLoggingState\",\"params\":[2,3]\x7d"), taken .reports]

/-- A compile and a report, then the connection is lost and comes back with the next compile. -/
def promptMoves : List Move :=
  [compiled, taken .sources, taken .rebuilt, taken .link] ++ reported ++
    [.read 0 .ended, taken .link, compiled, taken .sources, taken .rebuilt]

theorem always_tidy_promptMoves : ∃ w w',
    (start projectDisk projectSettings true [runtimeAddress]).2 = .ok w ∧
    w.run? promptMoves = some w' ∧ w'.exchange.link.isConnected = true ∧
    Always Tidy w promptMoves := by
  have seen : (start projectDisk projectSettings true [runtimeAddress]).2.toOption.bind (fun w =>
      (w.run? promptMoves).map fun w' => decide (w'.exchange.link.isConnected = true ∧
        Each HeardInTime w promptMoves)) = some true := by
    decide +kernel
  obtain ⟨w, hw, hrun⟩ := Option.bind_eq_some_iff.mp seen
  obtain ⟨w', hw', hfacts⟩ := Option.map_eq_some_iff.mp hrun
  obtain ⟨hconnected, inTime⟩ := of_decide_eq_true hfacts
  have started := eq_ok_of_toOption hw
  exact ⟨w, w', started, hw', hconnected, (always_tidy_iff_heardInTime started _).mpr inTime⟩

/-- Two compiles before the first is heard of, then a report. -/
def lateMoves : List Move :=
  [compiled, compiled, taken .sources, taken .sources, taken .rebuilt, taken .rebuilt] ++ reported

/-- The link is twice on the model, the change is queued twice, and one observer outlives the link. -/
theorem not_always_tidy_lateMoves : ∃ w w',
    (start projectDisk projectSettings true [runtimeAddress]).2 = .ok w ∧
    w.run? lateMoves = some w' ∧
    w'.session.model.map (fun m => m.clients.length) = some 2 ∧
    (w'.exchange.link.connections.map fun c => c.queue.map Wire.StateMessage.state) =
      [[.never, .never, .never, .always, .always]] ∧
    w'.hangUp.session.model.map (fun m => m.clients.length) = some 1 ∧
    ¬ Always Tidy w lateMoves := by
  have seen : (start projectDisk projectSettings true [runtimeAddress]).2.toOption.bind (fun w =>
      (w.run? lateMoves).map fun w' => decide (
        w'.session.model.map (fun m => m.clients.length) = some 2 ∧
        (w'.exchange.link.connections.map fun c => c.queue.map Wire.StateMessage.state) =
          [[.never, .never, .never, .always, .always]] ∧
        w'.hangUp.session.model.map (fun m => m.clients.length) = some 1)) = some true := by
    decide +kernel
  obtain ⟨w, hw, hrun⟩ := Option.bind_eq_some_iff.mp seen
  obtain ⟨w', hw', hfacts⟩ := Option.map_eq_some_iff.mp hrun
  obtain ⟨htwo, hqueue, hleft⟩ := of_decide_eq_true hfacts
  refine ⟨w, w', eq_ok_of_toOption hw, hw', htwo, hqueue, hleft, fun always => ?_⟩
  obtain ⟨m, hm, hlen⟩ := Option.map_eq_some_iff.mp htwo
  have := (always.at_end hw').single m hm
  omega

end RuleScope.Watching
