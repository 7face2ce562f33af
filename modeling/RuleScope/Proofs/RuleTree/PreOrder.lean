import RuleScope.Proofs.Location.Isolation
import RuleScope.Proofs.RuleTree.Indices

namespace RuleScope

open RuleTree

namespace Location

mutual
/-- A location and all that lies below it, in pre-order. -/
def preOrder : Location → List Location
  | ⟨label, line, kind, children⟩ => ⟨label, line, kind, children⟩ :: preOrderAll children

def preOrderAll : List Location → List Location
  | [] => []
  | l :: rest => l.preOrder ++ preOrderAll rest
end

theorem preOrder_eq (l : Location) : l.preOrder = l :: preOrderAll l.children := by
  obtain ⟨label, line, kind, children⟩ := l
  rfl

theorem mem_preOrderAll_iff {ls : List Location} {m : Location} :
    m ∈ preOrderAll ls ↔ ∃ l ∈ ls, m ∈ l.preOrder := by
  induction ls with
  | nil => simp [preOrderAll]
  | cons l rest ih => simp [preOrderAll, ih]

mutual

theorem holds_of_mem_preOrder {m : Location} (l : Location) (h : m ∈ l.preOrder) : Holds l m := by
  obtain ⟨label, line, kind, children⟩ := l
  rw [preOrder] at h
  rcases List.mem_cons.mp h with rfl | h
  · exact .self _
  · obtain ⟨c, hc, hm⟩ := holds_of_mem_preOrderAll children h
    exact .child hc hm

theorem holds_of_mem_preOrderAll {m : Location} (ls : List Location) (h : m ∈ preOrderAll ls) :
    ∃ l ∈ ls, Holds l m := by
  cases ls with
  | nil => cases h
  | cons l rest =>
    rcases List.mem_append.mp h with h | h
    · exact ⟨l, List.mem_cons_self, holds_of_mem_preOrder l h⟩
    · obtain ⟨c, hc, hm⟩ := holds_of_mem_preOrderAll rest h
      exact ⟨c, List.mem_cons_of_mem _ hc, hm⟩

end

theorem mem_preOrder_iff {l m : Location} : m ∈ l.preOrder ↔ Holds l m := by
  refine ⟨holds_of_mem_preOrder l, fun h => ?_⟩
  induction h with
  | self l =>
    rw [preOrder_eq]
    exact List.mem_cons_self
  | child hc _ ih =>
    rw [preOrder_eq]
    exact List.mem_cons_of_mem _ (mem_preOrderAll_iff.mpr ⟨_, hc, ih⟩)

/-- What a node keeps of its location: all but its mark and the numbers of its neighbours. -/
def Keeps {α : Type} (place : String → AbsPath) (f : Node → α) (g : Location → α) : Prop :=
  ∀ label line parent numbers below kind children,
    f ⟨label, line, parent, numbers, content place label below kind⟩ = g ⟨label, line, kind, children⟩

mutual

theorem map_nodes {α : Type} {place : String → AbsPath} {f : Node → α} {g : Location → α}
    (keeps : Keeps place f g) (parent : Option Nat) (n : Nat) (l : Location) :
    (l.nodes place parent n).map f = l.preOrder.map g := by
  obtain ⟨label, line, kind, children⟩ := l
  rw [nodes, preOrder, List.map_cons, List.map_cons, keeps, map_nodesAll keeps n (n + 1) children]

theorem map_nodesAll {α : Type} {place : String → AbsPath} {f : Node → α} {g : Location → α}
    (keeps : Keeps place f g) (p n : Nat) (ls : List Location) :
    (nodesAll place p n ls).map f = (preOrderAll ls).map g := by
  cases ls with
  | nil => rfl
  | cons l rest =>
    rw [nodesAll, preOrderAll, List.map_append, List.map_append, map_nodes keeps (some p) n l,
      map_nodesAll keeps p (n + l.count) rest]

end

/-- The diagnostics of an import; a rule has none. -/
def diagnostics (l : Location) : List Diagnostic :=
  match l.kind with
  | .imported _ diagnostics => diagnostics
  | .rule _ _ _ => []

/-- Where the source of an import lies; a rule has none of its own. -/
def place? (place : String → AbsPath) (l : Location) : Option AbsPath :=
  match l.kind with
  | .imported path _ => some (place (writtenPath l.label path))
  | .rule _ _ _ => none

theorem keeps_diagnostics (place : String → AbsPath) : Keeps place Node.diagnostics diagnostics := by
  intro label line parent numbers below kind children
  cases kind <;> rfl

theorem keeps_path? (place : String → AbsPath) : Keeps place Node.path? (place? place) := by
  intro label line parent numbers below kind children
  cases kind <;> rfl

end Location

namespace RuleTree.Represents

variable {t : RuleTree} {place : String → AbsPath} {l : Location}

theorem node?_map {α : Type} {f : Node → α} {g : Location → α} (h : t.Represents place l)
    (keeps : Location.Keeps place f g) (n : Nat) : (t.node? n).map f = l.preOrder[n]?.map g := by
  rw [node?, ← Array.getElem?_toList, ← List.getElem?_map, h.nodes_eq, Location.map_nodes keeps,
    List.getElem?_map]

theorem path?_eq (h : t.Represents place l) (n : Nat) :
    t.path? n = l.preOrder[n]?.bind (Location.place? place) := by
  have := congrArg Option.join (h.node?_map (Location.keeps_path? place) n)
  simpa [path?, ← Option.bind_id_eq_join, Option.bind_map] using this

theorem diagnostics_eq (h : t.Represents place l) (n : Nat) :
    t.diagnostics n = (l.preOrder[n]?.map Location.diagnostics).getD [] :=
  congrArg (Option.getD · []) (h.node?_map (Location.keeps_diagnostics place) n)

end RuleTree.Represents

end RuleScope
