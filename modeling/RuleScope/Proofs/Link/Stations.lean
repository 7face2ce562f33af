import RuleScope.Proofs.Link.Attempts
import RuleScope.Proofs.Link.Audience

namespace RuleScope

open RuleTree

namespace Link

/-- The one connection among the observers of the model is the open one, under the number that the link
remembers, and follows each rule once; or the link remembers no number and there is none. -/
structure Attends (l : Link) (m : RuleModel) : Prop where
  orderly : m.observers.Orderly
  clients : m.clients = l.observer.toList
  following : ∀ id, l.observer = some id → ∃ k, l.current = some k ∧
    (id, .connection k) ∈ m.observers.live ∧
    m.observers.subscriptions.filter (·.observer = id) = m.tree.ruleNodes.map (⟨·, id⟩)

variable {l l' : Link} {m m' : RuleModel}

theorem attends_of_unattached (h : m.observers.Orderly) (hm : m.clients = [])
    (hl : l.observer = none) : l.Attends m :=
  ⟨h, by rw [hm, hl]; rfl, fun id hid => by rw [hl] at hid; cases hid⟩

theorem Attends.congr (h : l.Attends m) (hobserver : l'.observer = l.observer)
    (hcurrent : l'.current = l.current) (hobservers : m'.observers = m.observers)
    (htree : m'.tree = m.tree) : l'.Attends m' := by
  refine ⟨hobservers ▸ h.orderly, ?_, fun id hid => ?_⟩
  · rw [RuleModel.clients_congr hobservers, hobserver]
    exact h.clients
  · rw [hobserver] at hid
    rw [hcurrent, hobservers, htree]
    exact h.following id hid

theorem Attends.detach (h : l.Attends m) : (l.detach m).2.observers.Orderly ∧
    (l.detach m).2.clients = [] ∧ (l.detach m).2.others = m.others := by
  have hclients := h.clients
  unfold Link.detach
  cases ho : l.observer with
  | none =>
    rw [ho] at hclients
    exact ⟨h.orderly, hclients, rfl⟩
  | some id =>
    rw [ho] at hclients
    have hclients : m.clients = [id] := hclients
    refine ⟨h.orderly.unsubscribe id, ?_, RuleModel.unsubscribe_others hclients⟩
    rw [RuleModel.unsubscribe_clients, hclients]
    simp

/-- Somebody else begins to observe the model. -/
theorem Attends.watch (h : l.Attends m) (nodes : List Nat) :
    l.Attends (m.subscribe .listener nodes).1 := by
  refine ⟨h.orderly.subscribe _ _, (m.subscribe_listener_clients nodes).trans h.clients,
    fun id hid => ?_⟩
  obtain ⟨k, hk, hlive, hsubscriptions⟩ := h.following id hid
  -- Numbers are given out once in a model, so the new one is not the link's.
  have hold : id ≠ ⟨m.observers.next⟩ := by
    rintro rfl
    exact h.orderly.next_not_mem (List.mem_map.mpr ⟨_, hlive, rfl⟩)
  refine ⟨k, hk, List.mem_append_left _ hlive, ?_⟩
  have hnew : (nodes.map (⟨·, ⟨m.observers.next⟩⟩ : Nat → Subscription)).filter
      (·.observer = id) = [] :=
    List.filter_eq_nil_iff.mpr fun s hs => by
      obtain ⟨n, -, rfl⟩ := List.mem_map.mp hs
      simpa using hold.symm
  change (m.observers.subscriptions ++ _).filter _ = _
  rw [List.filter_append, hnew, List.append_nil]
  exact hsubscriptions

/-- Somebody else leaves. -/
theorem Attends.unwatch (h : l.Attends m) {gone : ObserverId} (hgone : gone ∉ m.clients) :
    l.Attends (m.unsubscribe gone).1 := by
  refine ⟨h.orderly.unsubscribe gone, ?_, fun id hid => ?_⟩
  · rw [RuleModel.unsubscribe_clients, List.filter_eq_self.mpr, h.clients]
    intro id hid
    have hne : id ≠ gone := fun he => hgone (he ▸ hid)
    simpa using hne
  · obtain ⟨k, hk, hlive, hsubscriptions⟩ := h.following id hid
    have hne : id ≠ gone := by
      rintro rfl
      exact hgone (by rw [h.clients, hid]; exact List.mem_singleton_self _)
    refine ⟨k, hk, List.mem_filter.mpr ⟨hlive, by simpa using hne⟩, ?_⟩
    change (m.observers.subscriptions.filter _).filter _ = _
    rw [List.filter_filter]
    refine (List.filter_congr fun s _ => ?_).trans hsubscriptions
    by_cases hs : s.observer = id <;> simp [hs, hne]

end Link

/-- What may be done to a model by others than the link. -/
def Action.foreign : Action → Bool
  | .subscribe (.connection _) _ => false
  | _ => true

namespace RuleModel

variable {m : RuleModel}

theorem orderly_of_build {resolve : String → AbsPath} {sourceRoot : String} {l : Location}
    (h : build resolve sourceRoot l = .ok m) : m.observers.Orderly ∧ m.clients = [] := by
  obtain ⟨t, -, rfl⟩ := build_eq_ofTree h
  exact ⟨⟨by simp [Observers.Fresh, ofTree], List.nodup_nil, nofun⟩, rfl⟩

theorem run_foreign (hc : m.Consistent) (ho : m.observers.Orderly) (hnone : m.clients = [])
    {actions : List Action} (hforeign : ∀ a ∈ actions, a.foreign = true) :
    (m.run actions).observers.Orderly ∧ (m.run actions).clients = [] := by
  induction actions generalizing m with
  | nil => exact ⟨ho, hnone⟩
  | cons a rest ih =>
    have hact : (m.act a).observers.Orderly ∧ (m.act a).clients = [] := by
      have ha := hforeign a List.mem_cons_self
      cases a with
      | edit e =>
        cases hu : m.edit? e with
        | none =>
          simp only [act, hu, Option.map_none, Option.getD_none]
          exact ⟨ho, hnone⟩
        | some u =>
          have hsame := (edit?_from hc hu).observers_eq
          simp only [act, hu, Option.map_some, Option.getD_some]
          exact ⟨hsame ▸ ho, (clients_congr hsame).trans hnone⟩
      | setExpanded n expanded => exact ⟨ho, hnone⟩
      | subscribe receiver nodes =>
        cases receiver with
        | connection k => cases ha
        | listener => exact ⟨ho.subscribe _ _, (subscribe_listener_clients m nodes).trans hnone⟩
      | unsubscribe id =>
        refine ⟨ho.unsubscribe id, ?_⟩
        rw [act, unsubscribe_clients, hnone]
        rfl
    exact ih (act_consistent hc a).1 hact.1 hact.2
      fun b hb => hforeign b (List.mem_cons_of_mem _ hb)

end RuleModel

/-- What a step of the client makes of a model `m`: it attends the model, leaves the observers of others
with their subscriptions, and leaves all else of the model. -/
structure Client.Keeps (m : RuleModel) (s : Client) : Prop where
  attends : s.link.Attends s.model
  others : s.model.others = m.others
  model : ∃ observers : Observers, s.model = { m with observers }

namespace Client

variable {s s' : Client} {m : RuleModel} {l l' : Link} {stage : Stage} {fault : Option LinkFault}

theorem same_keeps (h : l.Attends m) (hobserver : l'.observer = l.observer)
    (hcurrent : l'.current = l.current) : Keeps m ⟨l', m, stage, fault⟩ :=
  ⟨h.congr hobserver hcurrent rfl rfl, rfl, m.observers, rfl⟩

theorem unattached_keeps (h : l.Attends m) (hl : l.observer = none) (hl' : l'.observer = none) :
    Keeps m ⟨l', m, stage, fault⟩ := by
  have hclients := h.clients
  rw [hl] at hclients
  exact ⟨Link.attends_of_unattached h.orderly hclients hl', rfl, m.observers, rfl⟩

theorem detached_keeps (h : l.Attends m) (hl' : l'.observer = none) :
    Keeps m ⟨l', (l.detach m).2, stage, fault⟩ := by
  obtain ⟨horderly, hnone, hothers⟩ := h.detach
  exact ⟨Link.attends_of_unattached horderly hnone hl', hothers, l.detach_model m⟩

theorem beginAttach_keeps (h : l.Attends m) : Keeps m (beginAttach l m) := by
  rcases beginAttach_cases l m with ⟨-, he⟩ | ⟨k, -, he⟩
  · rw [he]
    exact detached_keeps h rfl
  · rw [he]
    exact detached_keeps h rfl

theorem send_keeps (h : l.Attends m) {message : Wire.StateMessage} {link : Link}
    (hsend : l.send message = .ok link) : Keeps m ⟨link, m, stage, fault⟩ := by
  obtain ⟨given, hfed, -⟩ := Link.exists_fed_send hsend
  exact same_keeps h hfed.observer_eq hfed.current_eq

/-- Following a model that has no client makes the open connection its only one. -/
theorem followed_keeps {k : Nat} (h : l.Attends m) (hobserver : l.observer = none)
    (hcurrent : l.current = some k) : Keeps m
      (ended { l with observer := some (m.subscribeRules (.connection k)).2 }
        (m.subscribeRules (.connection k)).1 fault) := by
  have hclients := h.clients
  rw [hobserver] at hclients
  obtain ⟨hone, hothers, hlive, hsubscriptions⟩ :=
    RuleModel.subscribeRules_spec h.orderly hclients k
  refine ⟨⟨h.orderly.subscribe _ _, hone, fun id hid => ?_⟩, hothers, _, rfl⟩
  cases hid
  exact ⟨k, hcurrent, hlive, hsubscriptions⟩

theorem answered_keeps (h : s.Sound) (hattends : s.link.Attends s.model) {addr : String}
    (hdialing : s.stage = .dialing addr) (dial : Dial) : Keeps s.model (s.answered addr dial) := by
  have hholds := h.holds
  rw [hdialing] at hholds
  obtain ⟨-, hcurrent, hobserver⟩ := s.link.publish_fields .disconnected
  cases dial with
  | accepted => exact unattached_keeps hattends hholds.2 hholds.2
  | refused | invalid | silent => exact same_keeps hattends hobserver hcurrent

theorem pushed_keeps (h : s.Sound) (hattends : s.link.Attends s.model) {k : Nat}
    {states : List Wire.StateMessage} (hpushing : s.stage = .pushing k states) :
    Keeps s.model (s.pushed k states) := by
  have hholds := h.holds
  rw [hpushing] at hholds
  obtain ⟨-, hcurrent, hobserver⟩ := hholds
  cases states with
  | nil => exact followed_keeps hattends hobserver hcurrent
  | cons message rest =>
    rw [Client.pushed]
    split
    next hsend => exact send_keeps hattends hsend
    next => exact same_keeps hattends rfl rfl

/-- Whatever is not the start of an operation keeps to the model that the operation was given. -/
theorem step?_keeps (h : s.Sound) (hattends : s.link.Attends s.model) {mv : Move}
    (hmv : ∀ o, mv ≠ .operation o) (hs : s.step? mv = some s') : Keeps s.model s' := by
  cases stepped_of_step? hs with
  | begun o => exact absurd rfl (hmv o)
  | answered dial hdialing => exact answered_keeps h hattends hdialing dial
  | published =>
    obtain ⟨-, hcurrent, hobserver⟩ := s.link.publish_fields .connected
    exact beginAttach_keeps (hattends.congr hobserver hcurrent rfl rfl)
  | pushed hpushing => exact pushed_keeps h hattends hpushing
  | worked ht =>
    have hw := Link.worked_of_task? ht
    exact same_keeps hattends hw.observer_eq hw.current_eq
  | forwarded m notices =>
    have hfed := Link.forward_fed m s.link notices
    exact same_keeps hattends hfed.observer_eq hfed.current_eq

end Client

namespace Station

open Client (Keeps)

/-- What can happen to a client among others who use its model. -/
inductive Move where
  | connect (addr : String)
  | attach
  | detach
  | disconnect
  | send (message : Wire.StateMessage)
  | answer (dial : Dial)
  | publish
  | push
  /-- A task of a connection takes a step; so the runtime closes a connection, or a write fails. -/
  | task (t : Link.Task)
  /-- A new model takes the place of the current one, and the client is told at once. -/
  | replace (resolve : String → AbsPath) (sourceRoot : String) (l : Location) (actions : List Action)
  /-- Somebody else changes the model. -/
  | edit (e : Edit)
  | expand (n : Nat) (expanded : Bool)
  /-- Somebody else begins to observe the model. -/
  | watch (nodes : List Nat)
  /-- Somebody else leaves. -/
  | unwatch (id : ObserverId)

def start (m : RuleModel) (timeout : Nat) : Client := { Client.start timeout with model := m }

/-- The model as others have made it, when the client comes to act on it. While an operation of the
client has it, nobody else does. -/
def handed? (s : Client) : Move → Option RuleModel
  | .connect _ | .attach | .detach | .disconnect | .send _ | .answer _ | .publish | .push | .task _ =>
    some s.model
  | .replace resolve sourceRoot l actions =>
    if s.stage = .idle ∧ actions.all Action.foreign = true then
      (RuleModel.build resolve sourceRoot l).toOption.map (·.run actions)
    else none
  | .edit e => if s.stage = .idle then (s.model.edit? e).map Update.model else none
  | .expand n expanded => if s.stage = .idle then some (s.model.setExpanded n expanded) else none
  | .watch nodes => if s.stage = .idle then some (s.model.subscribe .listener nodes).1 else none
  | .unwatch id =>
    if s.stage = .idle ∧ id ∉ s.model.clients then some (s.model.unsubscribe id).1 else none

/-- What the client does with the model `m`. Of what others do it hears the changes. -/
def move (s : Client) (m : RuleModel) : Move → Client.Move
  | .connect addr => .operation (.connect addr m)
  | .attach => .operation (.attach m)
  | .detach => .operation (.detach m)
  | .disconnect => .operation (.disconnect m)
  | .send message => .operation (.send message)
  | .answer dial => .answer dial
  | .publish => .publish
  | .push => .push
  | .task t => .task t
  | .replace _ _ _ _ => .operation (.replaced m)
  | .edit e => .forward m (((s.model.edit? e).map Update.notices).getD [])
  | .expand _ _ | .watch _ | .unwatch _ => .forward m []

def act? (s : Client) (m : RuleModel) (mv : Move) : Option Client :=
  ({ s with model := m } : Client).step? (move s m mv)

def step? (s : Client) (mv : Move) : Option Client := (handed? s mv).bind fun m => act? s m mv

def run? (s : Client) (moves : List Move) : Option Client := moves.foldlM step? s

structure Sound (s : Client) : Prop where
  client : s.Sound
  model : s.model.Consistent
  attends : s.link.Attends s.model

variable {s s' : Client} {m : RuleModel}

theorem start_client (m : RuleModel) (timeout : Nat) : (start m timeout).Sound :=
  ⟨(Client.start_sound timeout).steady, (Client.start_sound timeout).holds⟩

theorem start_sound (hc : m.Consistent) (ho : m.observers.Orderly) (hnone : m.clients = [])
    (timeout : Nat) : Sound (start m timeout) :=
  ⟨start_client m timeout, hc, Link.attends_of_unattached ho hnone rfl⟩

/-- What others do leaves a consistent model, which the link attends as before unless it is a new one;
a new model has no observer of the link's. -/
theorem Sound.handed (h : Sound s) {mv : Move} (hm : handed? s mv = some m) : m.Consistent ∧
    ((∀ resolve sourceRoot l actions, mv ≠ .replace resolve sourceRoot l actions) →
      s.link.Attends m) ∧
    (∀ resolve sourceRoot l actions, mv = .replace resolve sourceRoot l actions →
      m.observers.Orderly ∧ m.clients = []) := by
  cases mv with
  | connect | attach | detach | disconnect | send | answer | publish | push | task =>
    cases hm
    exact ⟨h.model, fun _ => h.attends, nofun⟩
  | replace resolve sourceRoot l actions =>
    simp only [handed?, Option.ite_none_right_eq_some] at hm
    obtain ⟨⟨-, hforeign⟩, hm⟩ := hm
    obtain ⟨built, hbuilt, rfl⟩ := Option.map_eq_some_iff.mp hm
    have hbuilt := eq_ok_of_toOption hbuilt
    have hc := RuleModel.build_consistent hbuilt
    obtain ⟨ho, hnone⟩ := RuleModel.orderly_of_build hbuilt
    exact ⟨(RuleModel.run_consistent hc actions).1, fun hne => absurd rfl (hne _ _ _ _),
      fun _ _ _ _ _ => RuleModel.run_foreign hc ho hnone (List.all_eq_true.mp hforeign)⟩
  | edit e =>
    simp only [handed?, Option.ite_none_right_eq_some] at hm
    obtain ⟨u, hu, rfl⟩ := Option.map_eq_some_iff.mp hm.2
    have hfrom := RuleModel.edit?_from h.model hu
    exact ⟨hfrom.consistent,
      fun _ => h.attends.congr rfl rfl hfrom.observers_eq hfrom.tree_eq, nofun⟩
  | expand n expanded =>
    simp only [handed?, Option.ite_none_right_eq_some, Option.some.injEq] at hm
    obtain ⟨-, rfl⟩ := hm
    exact ⟨RuleModel.setExpanded_consistent h.model n expanded,
      fun _ => h.attends.congr rfl rfl rfl rfl, nofun⟩
  | watch nodes =>
    simp only [handed?, Option.ite_none_right_eq_some, Option.some.injEq] at hm
    obtain ⟨-, rfl⟩ := hm
    exact ⟨h.model.withObservers _, fun _ => h.attends.watch nodes, nofun⟩
  | unwatch id =>
    simp only [handed?, Option.ite_none_right_eq_some, Option.some.injEq] at hm
    obtain ⟨⟨-, hid⟩, rfl⟩ := hm
    exact ⟨h.model.withObservers _, fun _ => h.attends.unwatch hid, nofun⟩

/-- Whatever the client does with the model that it is handed, it keeps to it. -/
theorem Sound.act (h : Sound s) {mv : Move} (hm : handed? s mv = some m)
    (hs : act? s m mv = some s') : s'.Sound ∧ Keeps m s' := by
  obtain ⟨-, hattends, hnew⟩ := h.handed hm
  have hclient : ({ s with model := m } : Client).Sound := ⟨h.client.steady, h.client.holds⟩
  refine ⟨hclient.step hs, ?_⟩
  cases mv with
  | connect addr =>
    cases Client.stepped_of_step? hs
    exact Client.detached_keeps (hattends nofun) (s.link.dial_fields m).2.2
  | attach =>
    cases Client.stepped_of_step? hs
    exact Client.beginAttach_keeps (hattends nofun)
  | detach =>
    cases Client.stepped_of_step? hs
    exact Client.detached_keeps (hattends nofun) (s.link.detach_observer m)
  | disconnect =>
    cases Client.stepped_of_step? hs
    exact Client.detached_keeps (hattends nofun) (Link.close_fields (s.link.detach m).1).2.2
  | send message =>
    cases Client.stepped_of_step? hs
    unfold Client.begun
    dsimp only
    split
    next hsend => exact Client.send_keeps (hattends nofun) hsend
    next => exact Client.same_keeps (hattends nofun) rfl rfl
  | replace resolve sourceRoot l actions =>
    cases Client.stepped_of_step? hs
    obtain ⟨horderly, hnone⟩ := hnew _ _ _ _ rfl
    have hquiet : ({ s.link with observer := none } : Link).Attends m :=
      Link.attends_of_unattached horderly hnone rfl
    unfold Client.begun
    dsimp only
    split
    next => exact Client.beginAttach_keeps hquiet
    next => exact Client.same_keeps hquiet rfl rfl
  | answer | publish | push | task | edit | expand | watch | unwatch =>
    exact Client.step?_keeps hclient (hattends nofun) (by rintro o ⟨⟩) hs

theorem Sound.step (h : Sound s) {mv : Move} (hs : step? s mv = some s') : Sound s' := by
  obtain ⟨m, hm, hact⟩ := Option.bind_eq_some_iff.mp hs
  obtain ⟨hclient, hattends, -, observers, hmodel⟩ := h.act hm hact
  refine ⟨hclient, ?_, hattends⟩
  rw [hmodel]
  exact (h.handed hm).1.withObservers observers

theorem Sound.run (h : Sound s) {moves : List Move} (hs : run? s moves = some s') : Sound s' := by
  induction moves generalizing s with
  | nil =>
    cases hs
    exact h
  | cons mv rest ih =>
    obtain ⟨s₁, hstep, hrest⟩ := Option.bind_eq_some_iff.mp hs
    exact ih (h.step hstep) hrest

end Station

namespace Station

variable {s : Client} {m : RuleModel}

/-- After any run: the connections among the observers of the model are the one that the link remembers,
or none when it is not attached; that one is the open connection and has one subscription to each rule.
Nobody is attached or connected without a connection, and no attempt to connect is left pending. No
move of the client changes the observers of others, nor what they have subscribed to, and a disconnect
leaves nothing of the link. An attempt to connect ends attached, or it fails and ends disconnected with
nothing attached; it leaves the connection in place if and only if that was accepted, and then a write
has failed before all states were queued. With two rules that can happen, with fewer it cannot. -/
theorem link_keeps_to_its_own {resolve : String → AbsPath} {sourceRoot : String} {l : Location}
    (built : RuleModel.build resolve sourceRoot l = .ok m) {actions : List Action}
    (hforeign : ∀ a ∈ actions, a.foreign = true) (timeout : Nat) {moves : List Move}
    (hs : run? (start (m.run actions) timeout) moves = some s) :
    s.model.clients = s.link.observer.toList ∧
    (∀ id, s.link.observer = some id →
      (∃ k, s.link.current = some k ∧ (id, .connection k) ∈ s.model.observers.live) ∧
      ∀ n, s.model.observers.subscriptions.count ⟨n, id⟩ =
        if s.model.tree.isRule n = true then 1 else 0) ∧
    (∀ sub ∈ s.model.observers.subscriptions,
      sub.observer ∈ s.model.observers.live.map Prod.fst) ∧
    (s.link.isAttached = true ∨ s.link.isConnected = true → s.link.peer?.isSome = true) ∧
    (s.stage = .idle → s.link.state ≠ .connecting) ∧
    (∀ mv m' s', handed? s mv = some m' → act? s m' mv = some s' →
      s'.model.others = m'.others ∧ ∃ observers, s'.model = { m' with observers }) ∧
    (s.stage = .idle → ∃ s', step? s .disconnect = some s' ∧ s'.stage = .idle ∧ s'.link.Down) ∧
    (∀ addr during s', s.run? (.operation (.connect addr s.model) :: during) = some s' →
      (∀ mv ∈ during, mv.carriesOn = true) → s'.stage = .idle →
      (s'.fault = none → s'.link.isAttached = true) ∧
      ∀ e, s'.fault = some e → s'.link.state = .disconnected ∧ s'.link.isAttached = false ∧
        (s'.link.peer? = none ↔ e ≠ .notConnected) ∧
        (e ≠ .notConnected ↔ .answer .accepted ∉ during) ∧
        (e = .notConnected → 2 ≤ s'.model.tree.rules.length ∧
          ∃ k, s'.link.current = some k ∧ .task (.write k .failed) ∈ during)) ∧
    (s.stage = .idle → 2 ≤ s.model.tree.rules.length → ∀ addr, ∃ during s',
      s.run? (.operation (.connect addr s.model) :: during) = some s' ∧
      (∀ mv ∈ during, mv.carriesOn = true) ∧ s'.stage = .idle ∧
      s'.fault = some .notConnected ∧ s'.link.peer?.isSome = true) := by
  obtain ⟨ho, hnone⟩ := RuleModel.orderly_of_build built
  have hc := RuleModel.build_consistent built
  obtain ⟨ho, hnone⟩ := RuleModel.run_foreign hc ho hnone hforeign
  have h := (start_sound (RuleModel.run_consistent hc actions).1 ho hnone timeout).run hs
  refine ⟨h.attends.clients, fun id hid => ?_, h.attends.orderly.owned, ?_, fun hidle => ?_,
    fun mv m' s' hm hact => ?_, fun hidle => ?_,
    fun addr during s' hrun hduring hidle => Client.connect_ends h.client h.model hrun hduring hidle,
    fun hidle hrules addr => Client.exists_broken_attempt h.client hidle h.model hrules addr⟩
  · obtain ⟨k, hk, hlive, hsubscriptions⟩ := h.attends.following id hid
    exact ⟨⟨k, hk, hlive⟩, RuleModel.count_subscriptions h.model hsubscriptions⟩
  · rintro (ha | hconnected)
    · obtain ⟨id, hid⟩ := Option.isSome_iff_exists.mp ha
      obtain ⟨k, hk, -⟩ := h.attends.following id hid
      exact h.client.steady.peer?_isSome hk
    · have hopen := h.client.steady.connected (of_decide_eq_true hconnected)
      obtain ⟨k, hk⟩ := Option.isSome_iff_exists.mp hopen
      exact h.client.steady.peer?_isSome hk
  · have hholds := h.client.holds
    rwa [hidle] at hholds
  · obtain ⟨-, -, hothers, hmodel⟩ := h.act hm hact
    exact ⟨hothers, hmodel⟩
  · obtain ⟨hstate, hcurrent, hobserver⟩ := Link.close_fields (s.link.detach s.model).1
    exact ⟨s.begun (.disconnect s.model), if_pos hidle, rfl,
      ⟨hstate, Link.peer?_eq_none hcurrent, Link.isAttached_eq_false hobserver⟩⟩

/-- The runtime closes the connection, and the model is replaced while nobody notices it here; others
observe both models. The link connects again, to the new model, and the other observers leave or stay. -/
def replacedMoves : List Move :=
  [.watch [0], .connect "127.0.0.1:7777", .answer .accepted, .publish, .push, .push, .watch [1],
    .edit (.setState 1 .always), .task (.read 0 .ended),
    .replace (AbsPath.lexical AbsPath.root) "/src" Mirror.rateLocation
      [.subscribe .listener [1, 1], .subscribe .listener [0]],
    .connect "127.0.0.1:7778", .answer .refused, .connect "127.0.0.1:7777", .task (.write 0 .turn),
    .answer .accepted, .publish, .push, .push, .unwatch ⟨0⟩]

theorem replaced_keeps_to_its_own : ∃ m s,
    RuleModel.build (AbsPath.lexical AbsPath.root) "/src" Mirror.rateLocation = .ok m ∧
    run? (start (m.run [.subscribe .listener [1]]) 5000) replacedMoves = some s ∧
    s.link.observer = some ⟨2⟩ ∧ s.model.clients = [⟨2⟩] ∧
    s.model.observers.subscriptions.count ⟨1, ⟨2⟩⟩ = 1 ∧ s.link.peer?.isSome = true ∧
    s.model.others = ⟨[(⟨1⟩, .listener)], [⟨0, ⟨1⟩⟩]⟩ := by
  have seen : ((RuleModel.build (AbsPath.lexical AbsPath.root) "/src" Mirror.rateLocation).toOption.bind
      fun m => (run? (start (m.run [.subscribe .listener [1]]) 5000) replacedMoves).map fun s =>
        decide (s.link.observer = some ⟨2⟩ ∧ s.model.tree.isRule 1 = true ∧
          s.model.others = ⟨[(⟨1⟩, .listener)], [⟨0, ⟨1⟩⟩]⟩)) = some true := by
    decide +kernel
  obtain ⟨m, hm, hrun⟩ := Option.bind_eq_some_iff.mp seen
  obtain ⟨s, hs, hfacts⟩ := Option.map_eq_some_iff.mp hrun
  obtain ⟨hobserver, hrule, hothers⟩ := of_decide_eq_true hfacts
  have built : RuleModel.build (AbsPath.lexical AbsPath.root) "/src" Mirror.rateLocation = .ok m :=
    eq_ok_of_toOption hm
  have hforeign : ∀ a ∈ [Action.subscribe .listener [1]], a.foreign = true := by decide
  obtain ⟨hclients, hfollowing, -, hpeer, -⟩ := link_keeps_to_its_own built hforeign 5000 hs
  rw [hobserver] at hclients
  obtain ⟨-, hcount⟩ := hfollowing ⟨2⟩ hobserver
  have hattached : s.link.isAttached = true := by rw [Link.isAttached, hobserver]; rfl
  exact ⟨m, s, built, hs, hobserver, hclients, by rw [hcount, if_pos hrule], hpeer (.inl hattached),
    hothers⟩

/-- An import with two rules. -/
def pairLocation : Location :=
  ⟨"rules", 1, .imported none [],
    [⟨"rate", 2, .rule ((RuleId.ofInt? 8).getD default) "rate > 0" [], []⟩,
      ⟨"fee", 3, .rule ((RuleId.ofInt? 9).getD default) "fee > 0" [], []⟩]⟩

/-- An attempt to connect that has failed may leave its connection in place. -/
theorem not_failed_connect_leaves_nothing : ¬ ∀ resolve sourceRoot l m timeout addr during s,
    RuleModel.build resolve sourceRoot l = .ok m →
    (start m timeout).run? (.operation (.connect addr m) :: during) = some s →
    (∀ mv ∈ during, mv.carriesOn = true) → s.stage = .idle → s.fault.isSome = true →
    s.link.Down := by
  intro nothing
  have seen : (RuleModel.build (AbsPath.lexical AbsPath.root) "/src" pairLocation).toOption.map
      (fun m => m.tree.rules.length) = some 2 := by
    decide +kernel
  obtain ⟨m, hm, hrules⟩ := Option.map_eq_some_iff.mp seen
  have built := eq_ok_of_toOption hm
  obtain ⟨during, s, hs, hduring, hidle, hfault, hpeer⟩ :=
    Client.exists_broken_attempt (start_client m 5000) rfl (RuleModel.build_consistent built)
      (Nat.le_of_eq hrules.symm) "127.0.0.1:7777"
  have hdown := nothing _ _ _ m 5000 _ during s built hs hduring hidle (by rw [hfault]; rfl)
  rw [hdown.peer] at hpeer
  cases hpeer

end Station

end RuleScope
