import RuleScope.Proofs.RuleModel.Changes
import RuleScope.Proofs.RuleModel.Observing

namespace RuleScope

open RuleTree

namespace Sweep

variable {t : RuleTree} {w w' w'' : Sweep} {n : Nat} {s : LoggingState}

/-- `w'` continues `w` by changes of nodes in a list, in their order and each at most once. -/
def Visits (w w' : Sweep) (nodes : List Nat) : Prop :=
  ∃ more, w'.changes = w.changes ++ more ∧ (more.map Change.node).Sublist nodes

theorem Visits.refl (w : Sweep) : w.Visits w [] := ⟨[], by simp, .slnil⟩

theorem Visits.trans {nodes more : List Nat} (h : w.Visits w' nodes) (h' : w'.Visits w'' more) :
    w.Visits w'' (nodes ++ more) := by
  obtain ⟨changes, hc, hs⟩ := h
  obtain ⟨changes', hc', hs'⟩ := h'
  refine ⟨changes ++ changes', by rw [hc', hc, List.append_assoc], ?_⟩
  rw [List.map_append]
  exact hs.append hs'

theorem write_visits (t : RuleTree) (w : Sweep) (n : Nat) (s : LoggingState) :
    w.Visits (w.write t n s) [n] := by
  unfold write
  split
  next => exact ⟨[], by simp, List.nil_sublist _⟩
  next => exact ⟨_, rfl, List.Sublist.refl _⟩

theorem refresh_visits (t : RuleTree) (w : Sweep) (n : Nat) : w.Visits (w.refresh t n) [n] := by
  unfold refresh
  split
  next => exact write_visits t w n _
  next => exact ⟨[], by simp, List.nil_sublist _⟩

theorem foldl_visits {f : Sweep → Nat → Sweep} (hf : ∀ w n, Visits w (f w n) [n]) (w : Sweep)
    (nodes : List Nat) : w.Visits (nodes.foldl f w) nodes := by
  induction nodes generalizing w with
  | nil => exact .refl w
  | cons n rest ih => exact (hf w n).trans (ih (f w n))

/-- The climb visits imports with smaller and smaller numbers. -/
theorem climb_visits (t : RuleTree) (w : Sweep) (n : Nat) :
    ∃ path, w.Visits (w.climb t n) path ∧ path.Pairwise (· > ·) ∧ ∀ k ∈ path, k < n := by
  fun_induction climb t w n with
  | case1 w n => exact ⟨[], .refl w, .nil, by simp⟩
  | case2 w n p hlt =>
    exact ⟨[p], refresh_visits t w p, List.pairwise_singleton _ _, by simpa using hlt⟩
  | case3 w n p hlt _ next _ ih =>
    obtain ⟨path, hvisits, hsorted, hbelow⟩ := ih
    refine ⟨p :: path, (refresh_visits t w p).trans hvisits,
      List.pairwise_cons.mpr ⟨hbelow, hsorted⟩, fun k hk => ?_⟩
    rcases List.mem_cons.mp hk with rfl | hk
    · exact hlt
    · exact Nat.lt_trans (hbelow k hk) hlt

end Sweep

/-- Nodes in an order in which none comes twice, and no import before a node below it. -/
def RuleTree.Upwards (t : RuleTree) (nodes : List Nat) : Prop :=
  nodes.Pairwise fun a b => a ≠ b ∧ (t.isImport a = true → ¬ t.Within a b)

namespace RuleTree

variable {t : RuleTree} (wf : t.WellFormed)
include wf

theorem upwards_of_decreasing {nodes : List Nat} (h : nodes.Pairwise (· > ·)) : t.Upwards nodes :=
  h.imp fun hab => ⟨Nat.ne_of_gt hab, fun _ hw =>
    absurd (le_of_within wf.sound hw) (Nat.not_le.mpr hab)⟩

/-- The rules of a subtree, then its imports from the leaves up, then nodes with smaller numbers. -/
theorem upwards_subtree {n : Nat} (hn : n < t.size) {path : List Nat}
    (hpath : path.Pairwise (· > ·)) (hbelow : ∀ k ∈ path, k < n) :
    t.Upwards ((t.postOrder n).filter t.isRule ++ ((t.postOrder n).filter t.isImport ++ path)) := by
  have nodup := subtree_nodup wf n
  have leavesFirst := subtree_leavesFirst wf n
  have le : ∀ k ∈ t.subtree n, n ≤ k := fun k hk =>
    le_of_within wf.sound ((mem_subtree_iff wf).mp hk)
  rw [postOrder_eq_subtree wf hn]
  -- Only imports must not come too early: a rule stands before the imports, and the path is above.
  refine List.pairwise_append.mpr ⟨?_, List.pairwise_append.mpr
    ⟨?_, upwards_of_decreasing wf hpath, ?_⟩, ?_⟩
  · refine (nodup.filter t.isRule).imp_of_mem fun {a b} ha _ hne => ⟨hne, fun hi => ?_⟩
    simp [isImport_eq_false_of_isRule (List.mem_filter.mp ha).2] at hi
  · exact ((nodup.and leavesFirst).filter t.isImport).imp fun h => ⟨h.1, fun _ => h.2⟩
  · intro a ha b hb
    have hna := le a (List.mem_filter.mp ha).1
    have hbn := hbelow b hb
    exact ⟨by omega, fun _ hw => by have := le_of_within wf.sound hw; omega⟩
  · intro a ha b hb
    obtain ⟨ha, hr⟩ := List.mem_filter.mp ha
    have hi := isImport_eq_false_of_isRule hr
    refine ⟨?_, by simp [hi]⟩
    rintro rfl
    rcases List.mem_append.mp hb with hb | hb
    · simp [hi] at hb
    · exact absurd (hbelow a hb) (Nat.not_lt.mpr (le a ha))

end RuleTree

namespace Sweep

variable {t : RuleTree} (wf : t.WellFormed)
include wf

theorem assign_visits (w : Sweep) {n : Nat} (hn : t.isRule n = true) (s : LoggingState) :
    ∃ nodes, w.Visits (w.assign t n s) nodes ∧ t.Upwards nodes := by
  unfold assign
  split
  next => exact ⟨[], .refl w, .nil⟩
  next =>
    obtain ⟨path, hvisits, hsorted, hbelow⟩ := climb_visits t (w.write t n s) n
    refine ⟨n :: path, (write_visits t w n s).trans hvisits, List.pairwise_cons.mpr
      ⟨fun k hk => ⟨Nat.ne_of_gt (hbelow k hk), ?_⟩, upwards_of_decreasing wf hsorted⟩⟩
    simp [isImport_eq_false_of_isRule hn]

theorem assignBelow_visits (w : Sweep) {n : Nat} (hn : n < t.size) (s : LoggingState) :
    ∃ nodes, w.Visits (w.assignBelow t n s) nodes ∧ t.Upwards nodes := by
  let written := ((t.postOrder n).filter t.isRule).foldl (fun w r => w.write t r s) w
  let derived := ((t.postOrder n).filter t.isImport).foldl (refresh t) written
  obtain ⟨path, hvisits, hsorted, hbelow⟩ := climb_visits t derived n
  have hwritten : w.Visits written _ := foldl_visits (fun w r => write_visits t w r s) w _
  have hderived : written.Visits derived _ := foldl_visits (refresh_visits t) written _
  exact ⟨_, hwritten.trans (hderived.trans hvisits), upwards_subtree wf hn hsorted hbelow⟩

end Sweep

/-- A change of states that is one call; restoring a snapshot makes many. -/
def Edit.IsCall : Edit → Prop
  | .restore _ => False
  | _ => True

namespace RuleModel

variable {m : RuleModel} {u : Update}

theorem setAllBelow_upwards (h : m.Consistent) {n : Nat} {s : LoggingState}
    (hu : m.setAllBelow n s = .ok u) : m.tree.Upwards (u.changes.map Change.node) := by
  have visited : ∀ {w : Sweep}, (∃ nodes, m.sweep.Visits w nodes ∧ m.tree.Upwards nodes) →
      m.tree.Upwards (w.changes.map Change.node) := by
    rintro w ⟨nodes, ⟨more, hchanges, hsub⟩, hup⟩
    obtain rfl : w.changes = more := by simpa [sweep] using hchanges
    exact hup.sublist hsub
  unfold setAllBelow at hu
  split at hu
  next => cases hu
  next =>
    split at hu
    next => cases hu
    next node hnode =>
      cases hu
      refine visited ?_
      split
      next hr =>
        exact Sweep.assign_visits h.wellFormed _ (by simpa [isRule, hnode] using hr) s
      next =>
        exact Sweep.assignBelow_visits h.wellFormed _ (Array.getElem?_eq_some_iff.mp hnode).1 s

theorem edit?_upwards (h : m.Consistent) {e : Edit} (he : e.IsCall) (hu : m.edit? e = some u) :
    m.tree.Upwards (u.changes.map Change.node) := by
  cases e with
  | setState n s => exact setAllBelow_upwards h (eq_ok_of_toOption hu)
  | setAllBelow n s => exact setAllBelow_upwards h (eq_ok_of_toOption hu)
  | setRuleState id s =>
    have hu := eq_ok_of_toOption hu
    unfold setRuleState at hu
    split at hu
    next => exact setAllBelow_upwards h hu
    next => cases hu
  | restore => exact he.elim

/-- A call changes a node once if its state is another one afterwards, and otherwise not. -/
theorem edit?_changes (h : m.Consistent) {e : Edit} (he : e.IsCall) (hu : m.edit? e = some u)
    (n : Nat) : u.changes.filter (·.node = n) =
      if u.model.state n = m.state n then []
      else [⟨n, m.tree.ruleId? n, m.state n, u.model.state n⟩] := by
  refine (edit?_from h hu).changes_of_once h ?_
  have once : (u.changes.map Change.node).Nodup := (edit?_upwards h he hu).imp And.left
  have hcount := List.nodup_iff_count_le_one.mp once n
  rwa [List.count_eq_countP, List.countP_map, List.countP_eq_length_filter] at hcount

end RuleModel

namespace Observers

variable (o : Observers) (id : ObserverId) (n : Nat)

/-- How often an observer has subscribed to a node. -/
def weight : Nat := o.subscriptions.count ⟨n, id⟩

theorem count_watchers : (o.watchers n).count id = o.weight id n := by
  unfold watchers weight
  induction o.subscriptions with
  | nil => rfl
  | cons s rest ih =>
    obtain ⟨node, observer⟩ := s
    by_cases hn : node = n <;> by_cases ho : observer = id <;> simp_all

/-- An observer is told of each change of a node as often as it has subscribed to it. -/
theorem notices_filter (changes : List Change) :
    (o.notices changes).filter (fun x => x.observer = id ∧ x.change.node = n) =
      (changes.filter (·.node = n)).flatMap fun c => List.replicate (o.weight id n) ⟨id, c⟩ := by
  induction changes with
  | nil => rfl
  | cons c rest ih =>
    have head : ((o.watchers c.node).map (⟨·, c⟩ : ObserverId → Notice)).filter
        (fun x => x.observer = id ∧ x.change.node = n) =
          if c.node = n then List.replicate (o.weight id n) ⟨id, c⟩ else [] := by
      by_cases hn : c.node = n
      · subst hn
        have mine : (o.watchers c.node).filter (· = id) = List.replicate (o.weight id c.node) id := by
          rw [← count_watchers, List.filter_eq]
        rw [if_pos rfl, List.filter_map]
        have same := congrArg (List.map (⟨·, c⟩ : ObserverId → Notice)) mine
        rw [List.map_replicate] at same
        simpa [Function.comp_def] using same
      · rw [if_neg hn]
        simp [List.filter_eq_nil_iff, hn]
    unfold notices at ih ⊢
    rw [List.flatMap_cons, List.filter_append, head, ih]
    by_cases hn : c.node = n <;> simp [hn]

end Observers

namespace Observers

variable {o : Observers} {id : ObserverId}

theorem weight_subscribe (h : o.Fresh) (hid : id ∈ o.live.map Prod.fst) (receiver : Receiver)
    (nodes : List Nat) (n : Nat) :
    (o.subscribe receiver nodes).1.weight id n = o.weight id n := by
  obtain ⟨e, he, rfl⟩ := List.mem_map.mp hid
  -- The new observer has a number of its own.
  have new : (nodes.map (⟨·, ⟨o.next⟩⟩ : Nat → Subscription)).count ⟨n, e.1⟩ = 0 := by
    refine List.count_eq_zero.mpr fun hm => ?_
    obtain ⟨k, -, hk⟩ := List.mem_map.mp hm
    have := h e he
    rw [← (Subscription.mk.inj hk).2] at this
    exact Nat.lt_irrefl _ this
  exact List.count_append.trans (by rw [new]; rfl)

theorem weight_unsubscribe {other : ObserverId} (hne : id ≠ other) (n : Nat) :
    (o.unsubscribe other).1.weight id n = o.weight id n :=
  List.count_filter (by simpa using hne)

theorem notices_pairwise {R : Change → Change → Prop} {changes : List Change}
    (h : changes.Pairwise R) (hself : ∀ c ∈ changes, R c c) :
    (o.notices changes).Pairwise fun x y => R x.change y.change := by
  refine List.pairwise_flatMap.mpr ⟨fun c hc => ?_, h.imp fun hab x hx y hy => ?_⟩
  · exact List.pairwise_map.mpr (List.pairwise_of_forall fun _ _ => hself c hc)
  · obtain ⟨_, -, rfl⟩ := List.mem_map.mp hx
    obtain ⟨_, -, rfl⟩ := List.mem_map.mp hy
    exact hab

end Observers

namespace RuleModel

variable {m : RuleModel}

def notices (m : RuleModel) : Action → List Notice
  | .edit e => ((m.edit? e).map Update.notices).getD []
  | _ => []

/-- What the observers are told in the course of a run. -/
def noticesIn (m : RuleModel) : List Action → List Notice
  | [] => []
  | a :: rest => m.notices a ++ (m.act a).noticesIn rest

/-- What an observer is told of a node. -/
def toldOf (id : ObserverId) (n : Nat) (notices : List Notice) : List Notice :=
  notices.filter fun x => x.observer = id ∧ x.change.node = n

/-- What is told of a call: each observer is told of the nodes whose state is another one after the
call, once for each subscription, and of an import after all that lies below it. -/
structure TellsOnce (m : RuleModel) (e : Edit) : Prop where
  told : ∀ id n, toldOf id n (m.notices (.edit e)) =
    if (m.act (.edit e)).state n = m.state n then []
    else List.replicate (m.observers.weight id n)
      ⟨id, n, m.tree.ruleId? n, m.state n, (m.act (.edit e)).state n⟩
  rule_iff : ∀ x ∈ m.notices (.edit e),
    x.change.rule.isSome = true ↔ m.tree.isRule x.change.node = true
  imports_last : (m.notices (.edit e)).Pairwise fun x y =>
    m.tree.isImport x.change.node = true → ¬ m.tree.Below x.change.node y.change.node
  silent : m.edit? e = none → m.notices (.edit e) = []

theorem not_below_self (wf : m.tree.WellFormed) (n : Nat) : ¬ m.tree.Below n n := by
  have lt : ∀ {a b : Nat}, m.tree.Below a b → a < b := by
    intro a b h
    induction h with
    | single h => exact wf.lt_of_mem_children h
    | tail _ h ih => exact Nat.lt_trans ih (wf.lt_of_mem_children h)
  exact fun h => Nat.lt_irrefl n (lt h)

theorem notices_edit (h : m.Consistent) {e : Edit} {u : Update} (hu : m.edit? e = some u) :
    m.notices (.edit e) = m.observers.notices u.changes := by
  simp [notices, hu, Update.notices, (edit?_from h hu).observers_eq]

theorem Consistent.tellsOnce (h : m.Consistent) {e : Edit} (he : e.IsCall) : m.TellsOnce e := by
  cases hu : m.edit? e with
  | none => constructor <;> simp [notices, act, toldOf, hu]
  | some u =>
    have hfrom := edit?_from h hu
    have hnotices := notices_edit h hu
    have hact : m.act (.edit e) = u.model := by simp [act, hu]
    refine ⟨fun id n => ?_, fun x hx => ?_, ?_, by simp [hu]⟩
    · rw [toldOf, hnotices, hact, Observers.notices_filter, edit?_changes h he hu n]
      split <;> simp
    · obtain ⟨c, hc, hx⟩ := List.mem_flatMap.mp (hnotices ▸ hx)
      obtain ⟨_, -, rfl⟩ := List.mem_map.mp hx
      rw [(hfrom.allowed h c hc).rule_eq, isRule_iff_ruleId?]
    · rw [hnotices]
      refine Observers.notices_pairwise (R := fun c d => m.tree.isImport c.node = true →
        ¬ m.tree.Below c.node d.node) ?_ fun c _ _ => not_below_self h.wellFormed c.node
      exact (List.pairwise_map.mp (edit?_upwards h he hu)).imp fun hab hi hb =>
        hab.2 hi (within_of_below h.wellFormed hb)

/-- An observer stays, with its subscriptions, until it leaves. -/
theorem act_weight (h : m.Consistent) (hf : m.observers.Fresh) {id : ObserverId}
    (hid : id ∈ m.observers.live.map Prod.fst) {a : Action} (ha : a ≠ .unsubscribe id) :
    id ∈ (m.act a).observers.live.map Prod.fst ∧
      ∀ n, (m.act a).observers.weight id n = m.observers.weight id n := by
  cases a with
  | edit e =>
    cases hu : m.edit? e with
    | none => simpa [act, hu] using hid
    | some u => simpa [act, hu, (edit?_from h hu).observers_eq] using hid
  | setExpanded n expanded => exact ⟨hid, fun _ => rfl⟩
  | subscribe receiver nodes =>
    refine ⟨?_, Observers.weight_subscribe hf hid receiver nodes⟩
    exact List.map_append ▸ List.mem_append_left _ hid
  | unsubscribe other =>
    have hne : id ≠ other := fun he => ha (he ▸ rfl)
    refine ⟨?_, Observers.weight_unsubscribe hne⟩
    obtain ⟨e, he, rfl⟩ := List.mem_map.mp hid
    exact List.mem_map_of_mem (List.mem_filter.mpr ⟨he, by simpa using hne⟩)

theorem toldOf_notices (h : m.Consistent) (a : Action) (id : ObserverId) (n : Nat) :
    ∃ changes, toldOf id n (m.notices a) =
        changes.flatMap (fun c => List.replicate (m.observers.weight id n) ⟨id, c⟩) ∧
      LeadTo (m.state n) changes ((m.act a).state n) := by
  cases a with
  | edit e =>
    cases hu : m.edit? e with
    | none => exact ⟨[], by simp [notices, toldOf, hu], by simp [LeadTo, act, hu]⟩
    | some u =>
      refine ⟨u.changes.filter (·.node = n), ?_, ?_⟩
      · rw [toldOf, notices_edit h hu, Observers.notices_filter]
      · simpa [act, hu] using (edit?_from h hu).leadTo h n
  | setExpanded => exact ⟨[], rfl, rfl⟩
  | subscribe => exact ⟨[], rfl, rfl⟩
  | unsubscribe => exact ⟨[], rfl, rfl⟩

theorem toldOf_noticesIn (h : m.Consistent) (hf : m.observers.Fresh) {id : ObserverId}
    (hid : id ∈ m.observers.live.map Prod.fst) {actions : List Action}
    (stays : .unsubscribe id ∉ actions) (n : Nat) :
    ∃ changes, toldOf id n (m.noticesIn actions) =
        changes.flatMap (fun c => List.replicate (m.observers.weight id n) ⟨id, c⟩) ∧
      LeadTo (m.state n) changes ((m.run actions).state n) := by
  induction actions generalizing m with
  | nil => exact ⟨[], rfl, rfl⟩
  | cons a rest ih =>
    have hne : a ≠ .unsubscribe id := fun he => stays (he ▸ List.mem_cons_self)
    have stays : .unsubscribe id ∉ rest := fun hm => stays (List.mem_cons_of_mem _ hm)
    obtain ⟨hlive, hweight⟩ := act_weight h hf hid hne
    obtain ⟨first, htold, hfirst⟩ := toldOf_notices h a id n
    obtain ⟨more, htold', hmore⟩ := ih (act_consistent h a).1 (run_fresh hf h [a]) hlive stays
    refine ⟨first ++ more, ?_, hfirst.append hmore⟩
    rw [hweight] at htold'
    rw [List.flatMap_append, ← htold, ← htold']
    exact List.filter_append _ _

/-- A call tells each observer once for each subscription of what it has changed; and over any run,
what an observer is told of a node as long as it stays leads from the node's state to its state. -/
theorem build_run_tells {resolve : String → AbsPath} {sourceRoot : String} {l : Location}
    (h : build resolve sourceRoot l = .ok m) (actions : List Action) :
    (∀ e : Edit, e.IsCall → (m.run actions).TellsOnce e) ∧
    ∀ id more n, id ∈ (m.run actions).observers.live.map Prod.fst →
      Action.unsubscribe id ∉ more →
      ∃ changes, toldOf id n ((m.run actions).noticesIn more) = changes.flatMap (fun c =>
          List.replicate ((m.run actions).observers.weight id n) ⟨id, c⟩) ∧
        LeadTo ((m.run actions).state n) changes ((m.run (actions ++ more)).state n) := by
  have hc := build_consistent h
  obtain ⟨hrun, -⟩ := run_consistent hc actions
  refine ⟨fun e he => hrun.tellsOnce he, fun id more n hid stays => ?_⟩
  obtain ⟨changes, htold, hlead⟩ :=
    toldOf_noticesIn hrun (run_fresh (build_fresh h) hc actions) hid stays n
  have hrun : m.run (actions ++ more) = (m.run actions).run more := List.foldl_append
  exact ⟨changes, htold, hrun ▸ hlead⟩

/-- Someone who follows the outer rule of the nested location twice, and the root. -/
def followOuterTwice : Action := .subscribe .listener [2, 0, 2]

/-- A sweep, a call that fails, someone else who comes and goes, and a change of the outer rule. -/
def eventfulActions : List Action :=
  [.edit (.setAllBelow 0 .always), .edit (.setState 4 .mixed), .subscribe .listener [2],
    .unsubscribe ⟨1⟩, .edit (.setState 2 .ifTrue)]

theorem build_nested_tells : ∃ m,
    build (AbsPath.lexical AbsPath.root) "/src" nestedLocation = .ok m ∧
    (m.run [followOuterTwice]).TellsOnce (.setAllBelow 1 .always) ∧
    ∃ changes, toldOf ⟨0⟩ 2 ((m.run [followOuterTwice]).noticesIn eventfulActions) =
        changes.flatMap (fun c => List.replicate 2 ⟨⟨0⟩, c⟩) ∧
      LeadTo .never changes .ifTrue := by
  obtain ⟨m, h⟩ : ∃ m, build (AbsPath.lexical AbsPath.root) "/src" nestedLocation = .ok m :=
    ⟨_, rfl⟩
  have facts : (build (AbsPath.lexical AbsPath.root) "/src" nestedLocation).toOption.map
      (fun m : RuleModel => decide ((m.run [followOuterTwice]).observers.weight ⟨0⟩ 2 = 2 ∧
        (⟨0⟩ : ObserverId) ∈ (m.run [followOuterTwice]).observers.live.map Prod.fst ∧
        (m.run [followOuterTwice]).state 2 = .never ∧
        (m.run ([followOuterTwice] ++ eventfulActions)).state 2 = .ifTrue)) = some true := by
    decide +kernel
  rw [h] at facts
  obtain ⟨hweight, hlive, hbefore, hafter⟩ := of_decide_eq_true (Option.some.inj facts)
  obtain ⟨hcall, hrun⟩ := build_run_tells h [followOuterTwice]
  obtain ⟨changes, htold, hlead⟩ := hrun ⟨0⟩ eventfulActions 2 hlive (by simp [eventfulActions])
  rw [hweight] at htold
  rw [hbefore, hafter] at hlead
  exact ⟨m, h, hcall (.setAllBelow 1 .always) trivial, changes, htold, hlead⟩

end RuleModel

end RuleScope
