import Mathlib.Algebra.GroupWithZero.Nat
import Mathlib.Data.List.Nodup
import RuleScope.Proofs.RuleModel.Observing

namespace RuleScope

open RuleTree

theorem nodup_eraseDups {α : Type} [DecidableEq α] (l : List α) : l.eraseDups.Nodup := by
  match l with
  | [] => simp
  | a :: rest =>
    have hlater : (rest.filter fun b => !b == a).length ≤ rest.length := List.length_filter_le _ _
    have hfresh : a ∉ (rest.filter fun b => !b == a).eraseDups := by
      rw [List.mem_eraseDups]
      simp
    rw [List.eraseDups_cons]
    exact List.nodup_cons.mpr ⟨hfresh, nodup_eraseDups _⟩
termination_by l.length

namespace Table

variable {α β : Type} [DecidableEq α]

theorem get?_filter_value (p : β → Bool) {t : List (α × β)} (h : (t.map Prod.fst).Nodup) (k : α) :
    get? k (t.filter fun e => p e.2) = (get? k t).filter p := by
  induction t with
  | nil => rfl
  | cons e rest ih =>
    obtain ⟨hfresh, hrest⟩ := List.nodup_cons.mp h
    by_cases hk : e.1 = k
    · subst hk
      have hnone : get? e.1 rest = none := get?_eq_none_iff.mpr hfresh
      by_cases hp : p e.2 = true
      · simp [get?, Option.filter, hp]
      · simp [get?, Option.filter, hp, ih hrest, hnone]
    · by_cases hp : p e.2 = true <;> simp [get?, hp, hk, ih hrest]

/-- Rows without values are the same as no rows. -/
theorem getD_filter_nonempty (l? : Option (List β)) :
    (l?.filter (!·.isEmpty)).getD [] = l?.getD [] := by
  rcases l? with _ | _ | _ <;> rfl

theorem values_filter_nonempty {κ : Type} (t : List (κ × List β)) :
    (t.filter fun e => !e.2.isEmpty).flatMap Prod.snd = t.flatMap Prod.snd := by
  induction t with
  | nil => rfl
  | cons e rest ih =>
    obtain ⟨k, l⟩ := e
    cases l with
    | nil => simpa using ih
    | cons b l => simpa using ih

/-- Whatever stands at a key, adding to it adds one value to the values of the table. -/
theorem append_values (k : α) (b : β) (t : List (α × List β)) :
    ((append k b t).flatMap Prod.snd).Perm (t.flatMap Prod.snd ++ [b]) := by
  unfold append
  induction t with
  | nil => simp [put, get?]
  | cons e rest ih =>
    by_cases hk : e.1 = k
    · have later : ([b] ++ rest.flatMap Prod.snd).Perm (rest.flatMap Prod.snd ++ [b]) :=
        List.perm_append_comm
      simpa [get?, put, hk, List.append_assoc] using later.append_left e.2
    · simpa [get?, put, hk, List.append_assoc] using ih.append_left e.2

end Table

/-- Who follows a node. -/
inductive Follower where
  | dependent (parent : Nat)
  | observer (id : ObserverId)
  deriving DecidableEq, Repr

namespace Follower

def dependent? : Follower → Option Nat
  | dependent parent => some parent
  | observer _ => none

def observer? : Follower → Option ObserverId
  | dependent _ => none
  | observer id => some id

end Follower

/-- The followers of the nodes that have any, and the number of the next observer. -/
structure FollowerTable where
  rows : List (Nat × List Follower)
  next : Nat

namespace FollowerTable

def enter (rows : List (Nat × List Follower)) (entries : List (Nat × Follower)) :
    List (Nat × List Follower) :=
  entries.foldl (fun rows e => Table.append e.1 e.2 rows) rows

/-- Each import follows its children. -/
def ofTree (t : RuleTree) : FollowerTable :=
  ⟨enter [] (t.dependencies.map fun d => (d.child, .dependent d.parent)), 0⟩

def subscribe (f : FollowerTable) (nodes : List Nat) : FollowerTable :=
  ⟨enter f.rows (nodes.map (·, .observer ⟨f.next⟩)), f.next + 1⟩

/-- Takes an observer out of all rows, drops the rows that are empty then, and tells how often the
observer was there. -/
def unsubscribe (f : FollowerTable) (id : ObserverId) : FollowerTable × Nat :=
  let kept := f.rows.map fun r => (r.1, r.2.filter (· ≠ .observer id))
  (⟨kept.filter fun r => !r.2.isEmpty, f.next⟩,
    (f.rows.map fun r => r.2.length - (r.2.filter (· ≠ .observer id)).length).sum)

def act (f : FollowerTable) : Action → FollowerTable
  | .subscribe _ nodes => f.subscribe nodes
  | .unsubscribe id => (f.unsubscribe id).1
  | .edit _ | .setExpanded _ _ => f

def run (f : FollowerTable) (actions : List Action) : FollowerTable := actions.foldl act f

def row (rows : List (Nat × List Follower)) (n : Nat) : List Follower := (Table.get? n rows).getD []

/-- The followers of a node, in the order in which they came. -/
def followers (f : FollowerTable) (n : Nat) : List Follower := row f.rows n

def everyone (rows : List (Nat × List Follower)) : List Follower := rows.flatMap Prod.snd

/-- Each node has one row at most, and no row is empty. -/
structure Tidy (rows : List (Nat × List Follower)) : Prop where
  nodup : (rows.map Prod.fst).Nodup
  nonempty : ∀ n, Table.get? n rows ≠ some []

section Rows

variable {rows : List (Nat × List Follower)}

theorem Tidy.mem_keys_iff (h : Tidy rows) (n : Nat) : n ∈ rows.map Prod.fst ↔ row rows n ≠ [] := by
  have hnone := Table.get?_eq_none_iff (k := n) (t := rows)
  have hempty := h.nonempty n
  rw [← not_iff_not, ← hnone, not_not]
  unfold row
  cases hg : Table.get? n rows with
  | none => simp
  | some l =>
    have hl : l ≠ [] := fun he => hempty (he ▸ hg)
    simp [hl]

theorem tidy_append (h : Tidy rows) (n : Nat) (x : Follower) : Tidy (Table.append n x rows) := by
  refine ⟨Table.nodup_put h.nodup _, fun k => ?_⟩
  unfold Table.append
  by_cases hk : k = n
  · subst hk
    simp [Table.get?_put_self]
  · rw [Table.get?_put_of_ne hk]
    exact h.nonempty k

theorem row_append (rows : List (Nat × List Follower)) (n : Nat) (x : Follower) (k : Nat) :
    row (Table.append n x rows) k = row rows k ++ if n = k then [x] else [] := by
  unfold row Table.append
  by_cases hk : n = k
  · subst hk
    simp [Table.get?_put_self]
  · simp [Table.get?_put_of_ne (Ne.symm hk), hk]

theorem tidy_enter (h : Tidy rows) (entries : List (Nat × Follower)) :
    Tidy (enter rows entries) := by
  induction entries generalizing rows with
  | nil => exact h
  | cons e rest ih => exact ih (tidy_append h e.1 e.2)

theorem row_enter (rows : List (Nat × List Follower)) (entries : List (Nat × Follower)) (n : Nat) :
    row (enter rows entries) n = row rows n ++ (entries.filter (·.1 = n)).map Prod.snd := by
  induction entries generalizing rows with
  | nil => simp [enter]
  | cons e rest ih =>
    have hstep : enter rows (e :: rest) = enter (Table.append e.1 e.2 rows) rest := rfl
    rw [hstep, ih, row_append]
    by_cases hn : e.1 = n <;> simp [hn]

theorem everyone_enter (rows : List (Nat × List Follower)) (entries : List (Nat × Follower)) :
    (everyone (enter rows entries)).Perm (everyone rows ++ entries.map Prod.snd) := by
  induction entries generalizing rows with
  | nil => simp [enter]
  | cons e rest ih =>
    have hfirst := (Table.append_values e.1 e.2 rows).append_right (rest.map Prod.snd)
    rw [List.append_assoc] at hfirst
    exact (ih (Table.append e.1 e.2 rows)).trans hfirst

end Rows

section Leaving

variable {f : FollowerTable} (id : ObserverId)

theorem unsubscribe_get? (h : Tidy f.rows) (n : Nat) :
    Table.get? n (f.unsubscribe id).1.rows =
      ((Table.get? n f.rows).map fun l => l.filter (· ≠ .observer id)).filter (!·.isEmpty) := by
  let kept := f.rows.map fun r => (r.1, r.2.filter (· ≠ .observer id))
  have hkeys : (kept.map Prod.fst).Nodup := by
    simpa [kept, Function.comp_def] using h.nodup
  have hkept := Table.get?_map_value (fun r : Nat × List Follower =>
    r.2.filter (· ≠ .observer id)) n f.rows
  exact (Table.get?_filter_value (!·.isEmpty) hkeys n).trans (congrArg _ hkept)

theorem unsubscribe_tidy (h : Tidy f.rows) : Tidy (f.unsubscribe id).1.rows := by
  refine ⟨?_, fun n => ?_⟩
  · have hsub : ((f.unsubscribe id).1.rows.map Prod.fst).Sublist _ :=
      List.filter_sublist.map Prod.fst
    refine hsub.nodup ?_
    simpa [Function.comp_def] using h.nodup
  · rw [unsubscribe_get? id h]
    intro hn
    simp [Option.filter_eq_some_iff] at hn

theorem unsubscribe_followers (h : Tidy f.rows) (n : Nat) :
    (f.unsubscribe id).1.followers n = (f.followers n).filter (· ≠ .observer id) := by
  unfold followers row
  rw [unsubscribe_get? id h, Table.getD_filter_nonempty]
  cases Table.get? n f.rows with
  | none => rfl
  | some l => rfl

theorem everyone_unsubscribe (f : FollowerTable) :
    everyone (f.unsubscribe id).1.rows = (everyone f.rows).filter (· ≠ .observer id) := by
  unfold unsubscribe everyone
  rw [Table.values_filter_nonempty, List.flatMap_map, List.filter_flatMap]

theorem unsubscribe_removed (f : FollowerTable) :
    (f.unsubscribe id).2 = (everyone f.rows).count (.observer id) := by
  have hrow : ∀ l : List Follower,
      l.length - (l.filter (· ≠ .observer id)).length = l.count (.observer id) := by
    intro l
    have hall := List.length_eq_countP_add_countP (l := l) (· == Follower.observer id)
    have hkept := List.countP_eq_length_filter (p := (· ≠ Follower.observer id)) (l := l)
    have hsame : l.countP (fun x => ¬ (x == Follower.observer id) = true) =
        l.countP (· ≠ Follower.observer id) := by simp
    rw [← hkept, ← hsame, List.count]
    omega
  unfold unsubscribe everyone
  rw [List.count_flatMap]
  exact congrArg List.sum (List.map_congr_left fun r _ => hrow r.2)

end Leaving

/-- The table has what the tree and the subscriptions of a model have. -/
structure Follows (f : FollowerTable) (m : RuleModel) : Prop where
  tidy : Tidy f.rows
  followers_eq : ∀ n, f.followers n =
    (m.tree.dependencies.filter (·.child = n)).map (.dependent ·.parent) ++
      (m.observers.watchers n).map .observer
  everyone_perm : (everyone f.rows).Perm
    (m.tree.dependencies.map (.dependent ·.parent) ++
      m.observers.subscriptions.map (.observer ·.observer))
  next_eq : f.next = m.observers.next

variable {f : FollowerTable} {m : RuleModel}

theorem ofTree_follows (t : RuleTree) : (ofTree t).Follows (RuleModel.ofTree t) := by
  have hempty : Tidy [] := ⟨List.nodup_nil, fun n => by simp [Table.get?]⟩
  refine ⟨tidy_enter hempty _, fun n => ?_, ?_, rfl⟩
  · refine (row_enter [] _ n).trans ?_
    simp [row, Table.get?, List.filter_map, Function.comp_def, RuleModel.ofTree, Observers.watchers]
  · refine (everyone_enter [] _).trans (List.Perm.of_eq ?_)
    simp [everyone, Function.comp_def, RuleModel.ofTree]

theorem Follows.subscribe (h : f.Follows m) (receiver : Receiver) (nodes : List Nat) :
    (f.subscribe nodes).Follows (m.subscribe receiver nodes).1 := by
  have hid : (⟨f.next⟩ : ObserverId) = ⟨m.observers.next⟩ := congrArg _ h.next_eq
  refine ⟨tidy_enter h.tidy _, fun n => ?_, ?_, congrArg (· + 1) h.next_eq⟩
  · refine (row_enter f.rows _ n).trans ?_
    have hold : row f.rows n = _ := h.followers_eq n
    rw [hold, hid, List.append_assoc]
    simp [RuleModel.subscribe, Observers.subscribe, Observers.watchers, List.filter_map,
      Function.comp_def]
  · refine (everyone_enter f.rows _).trans ((h.everyone_perm.append_right _).trans ?_)
    refine List.Perm.of_eq ?_
    simp [RuleModel.subscribe, Observers.subscribe, Function.comp_def, hid]

theorem Follows.unsubscribe (h : f.Follows m) (id : ObserverId) :
    (f.unsubscribe id).1.Follows (m.unsubscribe id).1 := by
  refine ⟨unsubscribe_tidy id h.tidy, fun n => ?_, ?_, h.next_eq⟩
  · have hwatchers := Observers.watchers_unsubscribe (o := m.observers) id n
    rw [unsubscribe_followers id h.tidy, h.followers_eq, List.filter_append]
    simp [RuleModel.unsubscribe, hwatchers, List.filter_map, Function.comp_def]
  · rw [everyone_unsubscribe]
    refine (h.everyone_perm.filter _).trans (List.Perm.of_eq ?_)
    simp [RuleModel.unsubscribe, Observers.unsubscribe, List.filter_map, Function.comp_def]

theorem Follows.act (h : f.Follows m) (hm : m.Consistent) (a : Action) :
    (f.act a).Follows (m.act a) := by
  cases a with
  | edit e =>
    cases hu : m.edit? e with
    | none => simpa [FollowerTable.act, RuleModel.act, hu] using h
    | some u =>
      have hfrom := RuleModel.edit?_from hm hu
      have hmodel : m.act (.edit e) = u.model := by simp [RuleModel.act, hu]
      rw [hmodel]
      refine ⟨h.tidy, ?_, ?_, ?_⟩
      · rw [hfrom.tree_eq, hfrom.observers_eq]
        exact h.followers_eq
      · rw [hfrom.tree_eq, hfrom.observers_eq]
        exact h.everyone_perm
      · rw [hfrom.observers_eq]
        exact h.next_eq
  | setExpanded n expanded => exact ⟨h.tidy, h.followers_eq, h.everyone_perm, h.next_eq⟩
  | subscribe receiver nodes => exact h.subscribe receiver nodes
  | unsubscribe id => exact h.unsubscribe id

theorem Follows.run (h : f.Follows m) (hm : m.Consistent) (actions : List Action) :
    (f.run actions).Follows (m.run actions) := by
  induction actions generalizing f m with
  | nil => exact h
  | cons a rest ih => exact ih (h.act hm a) (RuleModel.act_consistent hm a).1

/-- What is read off the table is what the model tells of its dependencies and subscriptions. -/
structure Agrees (f : FollowerTable) (m : RuleModel) : Prop where
  dependents : ∀ n, (f.followers n).filterMap Follower.dependent? =
    (m.tree.dependencies.filter (·.child = n)).map Dependency.parent
  observers : ∀ n, (f.followers n).filterMap Follower.observer? = m.observers.watchers n
  count : ∀ n, (f.followers n).length = m.subscriptionCount n
  removed : ∀ id, (f.unsubscribe id).2 = (m.unsubscribe id).2
  nodes : f.rows.length = m.subscribedNodes.length

theorem Follows.dependents (h : f.Follows m) (n : Nat) :
    (f.followers n).filterMap Follower.dependent? =
      (m.tree.dependencies.filter (·.child = n)).map Dependency.parent := by
  have hobservers : ((m.observers.watchers n).map Follower.observer).filterMap
      Follower.dependent? = [] := by
    simp [List.filterMap_map, Function.comp_def, Follower.dependent?]
  rw [h.followers_eq, List.filterMap_append, hobservers, List.append_nil, List.filterMap_map]
  exact congrFun List.filterMap_eq_map _

theorem Follows.observers (h : f.Follows m) (n : Nat) :
    (f.followers n).filterMap Follower.observer? = m.observers.watchers n := by
  have hdependents : ((m.tree.dependencies.filter (·.child = n)).map
      (Follower.dependent ·.parent)).filterMap Follower.observer? = [] := by
    simp [List.filterMap_map, Function.comp_def, Follower.observer?]
  rw [h.followers_eq, List.filterMap_append, hdependents, List.nil_append, List.filterMap_map]
  exact List.filterMap_some

theorem Follows.removed_eq (h : f.Follows m) (id : ObserverId) :
    (f.unsubscribe id).2 = (m.unsubscribe id).2 := by
  rw [unsubscribe_removed, h.everyone_perm.count_eq, List.count_append]
  have hdependents :
      (m.tree.dependencies.map (Follower.dependent ·.parent)).count (.observer id) = 0 :=
    List.count_eq_zero.mpr (by simp)
  rw [hdependents, Nat.zero_add, List.count, List.countP_map]
  unfold RuleModel.unsubscribe Observers.unsubscribe
  exact List.countP_congr (by simp)

theorem Follows.length_followers (h : f.Follows m) (n : Nat) :
    (f.followers n).length = m.subscriptionCount n := by
  rw [h.followers_eq]
  simp [RuleModel.subscriptionCount, Observers.watchers, List.countP_eq_length_filter]

/-- There is a row for each node that has dependencies or subscriptions. -/
theorem Follows.length_rows (h : f.Follows m) : f.rows.length = m.subscribedNodes.length := by
  have hkeys : ∀ n, n ∈ f.rows.map Prod.fst ↔ n ∈ m.subscribedNodes := by
    intro n
    have hrow : row f.rows n = _ := h.followers_eq n
    rw [h.tidy.mem_keys_iff, hrow]
    simp [RuleModel.subscribedNodes, Observers.watchers, List.filter_eq_nil_iff,
      or_iff_not_imp_left]
  have hperm : (f.rows.map Prod.fst).Perm m.subscribedNodes :=
    (List.perm_ext_iff_of_nodup h.tidy.nodup (nodup_eraseDups _)).mpr hkeys
  rw [← hperm.length_eq, List.length_map]

theorem Follows.agrees (h : f.Follows m) : f.Agrees m :=
  ⟨h.dependents, h.observers, h.length_followers, h.removed_eq, h.length_rows⟩

end FollowerTable

end RuleScope
