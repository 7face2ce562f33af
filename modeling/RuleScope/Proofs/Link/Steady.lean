import RuleScope.Proofs.Link.Tasks

namespace RuleScope

namespace Link

/-- A link whose open connection is the only one that is not closed. Closed connections have no reader,
and nobody counts as connected without a connection. -/
structure Steady (l : Link) : Prop where
  current : ∀ k, l.current = some k → l.connections[k]?.map Connection.closing = some false
  closing : ∀ k : Nat, k < l.connections.length → l.current ≠ some k →
    l.connections[k]?.map Connection.closing = some true
  silent : ∀ (k : Nat) c, l.connections[k]? = some c → c.closing = true → c.reading = false
  connected : l.state = .connected → l.current.isSome = true

/-- While a link counts as connected, the open connection is being read. -/
def Heard (l : Link) : Prop :=
  l.state = .connected → ∀ k, l.current = some k →
    l.connections[k]?.map Connection.reading = some true

/-- The same connections are open, closed and being read, and `l'` counts as connected only if `l`
does. -/
structure Alike (l l' : Link) : Prop where
  current_eq : l'.current = l.current
  ends_eq : ∀ k : Nat, l'.connections[k]?.map Connection.ends =
    l.connections[k]?.map Connection.ends
  state : l'.state = .connected → l.state = .connected

variable {l l' : Link} {m : RuleModel}

theorem steady_new (timeout : Nat) : (new timeout).Steady where
  current := nofun
  closing := nofun
  silent := by simp [new]
  connected := nofun

theorem Steady.alike (h : l.Steady) (ha : l.Alike l') : l'.Steady := by
  have hclosing := closing_of_ends ha.ends_eq
  refine ⟨fun k hk => ?_, fun k hlt hk => ?_, fun k c hc hclose => ?_, fun hs => ?_⟩
  · rw [hclosing]
    exact h.current k (ha.current_eq ▸ hk)
  · rw [hclosing]
    exact h.closing k (length_eq_of_ends ha.ends_eq ▸ hlt) (ha.current_eq ▸ hk)
  · have hsame := ha.ends_eq k
    rw [hc, Option.map_some] at hsame
    obtain ⟨d, hd, hde⟩ := Option.map_eq_some_iff.mp hsame.symm
    obtain ⟨hdc, hdr⟩ := Prod.mk.inj hde
    exact hdr ▸ h.silent k d hd (hdc.trans hclose)
  · rw [ha.current_eq]
    exact h.connected (ha.state hs)

theorem Heard.alike (h : l.Heard) (ha : l.Alike l') : l'.Heard := fun hs k hk => by
  rw [reading_of_ends ha.ends_eq]
  exact h (ha.state hs) k (ha.current_eq ▸ hk)

theorem heard_of_state_ne (h : l.state ≠ .connected) : l.Heard := fun hs => absurd hs h

theorem withObserver_alike (l : Link) (observer : Option ObserverId) :
    l.Alike { l with observer } := ⟨rfl, fun _ => rfl, id⟩

theorem Fed.alike {given : Nat → List Wire.StateMessage} (h : l.Fed l' given) : l.Alike l' := by
  refine ⟨h.current_eq, fun k => ?_, fun hs => h.state_eq ▸ hs⟩
  rw [h.connection k, Option.map_map]
  exact congrArg (Option.map · _) (funext fun c => c.feed_ends _)

theorem publish_alike (l : Link) {s : LinkState} (hs : s ≠ .connected) :
    l.Alike (l.publish s) := by
  obtain ⟨hconnections, hcurrent, -⟩ := l.publish_fields s
  refine ⟨hcurrent, fun k => by rw [hconnections], fun hc => ?_⟩
  rw [publish_state] at hc
  exact absurd hc hs

theorem detach_alike (l : Link) (m : RuleModel) : l.Alike (l.detach m).1 := by
  rw [detach_link]
  exact l.withObserver_alike none

/-- Attaching leaves the published state and the open connection as they are. -/
theorem attach_frame (l : Link) (m : RuleModel) :
    (l.attach m).1.state = l.state ∧ l.Alike (l.attach m).1 := by
  obtain ⟨l₁, given, hfed, -, ⟨-, hl, -⟩ | ⟨k, -, -, -, hl⟩⟩ := attach_outcome l m
  · obtain ⟨hcurrent, hends, hstate⟩ := hfed.alike
    rw [hl]
    exact ⟨hfed.state_eq, hcurrent, hends, hstate⟩
  · obtain ⟨hcurrent, hends, hstate⟩ := hfed.alike
    rw [hl]
    exact ⟨hfed.state_eq, hcurrent, hends, hstate⟩

/-- Whatever the tasks do, a link stays steady. -/
theorem Steady.worked (h : l.Steady) (hw : l.Worked l') : l'.Steady := by
  refine ⟨fun k hk => ?_, fun k hlt hk => ?_, fun k c' hc' hclose => ?_, fun hs => ?_⟩
  · rw [hw.closing_eq]
    exact h.current k (hw.current_eq ▸ hk)
  · rw [hw.closing_eq]
    exact h.closing k (hw.length_eq ▸ hlt) (hw.current_eq ▸ hk)
  · have hsame := hw.closing_eq k
    rw [hc', Option.map_some, hclose] at hsame
    obtain ⟨c, hc, hcc⟩ := Option.map_eq_some_iff.mp hsame.symm
    have hstopped := hw.stopped k (by rw [hc, Option.map_some, h.silent k c hc hcc])
    rw [hc', Option.map_some] at hstopped
    exact Option.some.inj hstopped
  · rw [hw.current_eq]
    refine h.connected ?_
    rwa [← hw.state.resolve_right (by simp [hs])]

/-- Who stops reading publishes it. -/
theorem Heard.worked (h : l.Heard) (hw : l.Worked l') : l'.Heard := fun hs k hk => by
  have hne : l'.state ≠ .disconnected := by simp [hs]
  rw [reading_of_ends (hw.reading hne)]
  exact h ((hw.state.resolve_right hne) ▸ hs) k (hw.current_eq ▸ hk)

theorem close_length (l : Link) : l.close.connections.length = l.connections.length := by
  unfold close
  rw [(publish_fields _ _).1]
  cases l.current with
  | none => rfl
  | some k => exact List.length_modify _ _ _

theorem Steady.close (h : l.Steady) : l.close.Steady := by
  obtain ⟨hstate, hcurrent, -⟩ := close_fields l
  have hconnection := close_connection l
  refine ⟨fun k hk => ?_, fun k hlt _ => ?_, fun k c hc hclose => ?_, fun hs => ?_⟩
  · rw [hcurrent] at hk
    cases hk
  · rw [close_length] at hlt
    rw [hconnection]
    split
    next =>
      rw [List.getElem?_eq_getElem hlt]
      rfl
    next hne => exact h.closing k hlt hne
  · rw [hconnection] at hc
    split at hc
    next =>
      obtain ⟨d, -, rfl⟩ := Option.map_eq_some_iff.mp hc
      rfl
    next => exact h.silent k c hc hclose
  · rw [hstate] at hs
    cases hs

theorem Steady.disconnect (h : l.Steady) (m : RuleModel) : (l.disconnect m).1.Steady :=
  (h.alike (l.detach_alike m)).close

theorem Steady.dial (h : l.Steady) (m : RuleModel) : (l.dial m).1.Steady :=
  (h.disconnect m).alike (publish_alike _ nofun)

theorem dial_fields (l : Link) (m : RuleModel) : (l.dial m).1.state = .connecting ∧
    (l.dial m).1.current = none ∧ (l.dial m).1.observer = none := by
  obtain ⟨-, hcurrent, hobserver⟩ := close_fields (l.detach m).1
  obtain ⟨-, hcurrent', hobserver'⟩ := (l.disconnect m).1.publish_fields .connecting
  exact ⟨publish_state _ _, hcurrent'.trans hcurrent, hobserver'.trans hobserver⟩

/-- Connections stay where they are when another joins them. -/
theorem stored_connection (l : Link) (addr : String) (k : Nat) : (l.stored addr).connections[k]? =
    if k = l.connections.length then some (.fresh addr) else l.connections[k]? := by
  have happend : (l.stored addr).connections = l.connections ++ [Connection.fresh addr] := rfl
  rw [happend]
  rcases Nat.lt_trichotomy k l.connections.length with hlt | rfl | hlt
  · rw [if_neg (Nat.ne_of_lt hlt), List.getElem?_append_left hlt]
  · rw [if_pos rfl, List.getElem?_concat_length]
  · rw [if_neg (Nat.ne_of_gt hlt), List.getElem?_eq_none (Nat.le_of_lt hlt)]
    exact List.getElem?_eq_none (by rw [List.length_append]; exact hlt)

theorem Steady.stored (h : l.Steady) (hnone : l.current = none) (addr : String) :
    (l.stored addr).Steady := by
  have hconnection := l.stored_connection addr
  have hcurrent : (l.stored addr).current = some l.connections.length := rfl
  refine ⟨fun k hk => ?_, fun k hlt hk => ?_, fun k c hc hclose => ?_, fun _ => rfl⟩
  · obtain rfl := Option.some.inj (hcurrent.symm.trans hk)
    rw [hconnection, if_pos rfl]
    rfl
  · have hne : k ≠ l.connections.length := fun he => hk (he ▸ hcurrent)
    have hlength : (l.stored addr).connections.length = l.connections.length + 1 :=
      List.length_append
    rw [hconnection, if_neg hne]
    exact h.closing k (by omega) (by simp [hnone])
  · rw [hconnection] at hc
    split at hc
    next =>
      cases hc
      cases hclose
    next => exact h.silent k c hc hclose

theorem Steady.publish_connected (h : l.Steady) (hcurrent : l.current.isSome = true) :
    (l.publish .connected).Steady := by
  obtain ⟨hconnections, hsame, -⟩ := l.publish_fields .connected
  refine ⟨?_, ?_, ?_, fun _ => hsame ▸ hcurrent⟩
  · rw [hconnections, hsame]
    exact h.current
  · rw [hconnections, hsame]
    exact h.closing
  · rw [hconnections]
    exact h.silent

theorem opened_fields (l : Link) (addr : String) : (l.opened addr).state = .connected ∧
    (l.opened addr).current = some l.connections.length ∧
    (l.opened addr).observer = l.observer ∧
    (l.opened addr).connections = l.connections ++ [Connection.fresh addr] := by
  obtain ⟨hconnections, hcurrent, hobserver⟩ := (l.stored addr).publish_fields .connected
  exact ⟨publish_state _ _, hcurrent, hobserver, hconnections⟩

theorem opened_heard (l : Link) (addr : String) : (l.opened addr).Heard := fun _ k hk => by
  obtain ⟨-, hcurrent, -, hconnections⟩ := opened_fields l addr
  obtain rfl := Option.some.inj (hcurrent.symm.trans hk)
  rw [hconnections, List.getElem?_concat_length]
  rfl

/-- An attempt to connect ends with the new connection as the open one, or without any. -/
theorem connect_outcome (l : Link) (addr : String) (dial : Dial) (m : RuleModel) :
    (dial = .accepted ∧
      l.connect addr dial m = ((l.dial m).1.opened addr).attach (l.dial m).2) ∨
    (dial ≠ .accepted ∧ ∃ e, l.connect addr dial m =
      ((l.dial m).1.publish .disconnected, (l.dial m).2, some e)) := by
  cases dial with
  | accepted => exact .inl ⟨rfl, rfl⟩
  | refused => exact .inr ⟨nofun, _, rfl⟩
  | invalid => exact .inr ⟨nofun, _, rfl⟩
  | silent => exact .inr ⟨nofun, _, rfl⟩

end Link

end RuleScope
