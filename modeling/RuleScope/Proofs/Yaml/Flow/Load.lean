import RuleScope.Proofs.Yaml.Flow.Tokens
import RuleScope.Proofs.Yaml.Nesting

namespace RuleScope.Yaml

namespace Event

namespace Machine

/-- The machine comes from one state to another, in no more steps than it takes tokens. -/
def Reaches : Machine → Machine → Prop := Advances run fun m => m.tokens.length

section

variable {m m' : Machine} {goal : Goal} {gs goals : List Goal} {hs : List (String × Tag)}
  {es : List Event} {ts : List Token}

theorem run_step (hg : m.goals = goal :: goals) (h : m.step goal goals = some m') (fuel : Nat) :
    run (fuel + 1) m = run fuel m' := by
  rw [run, hg]
  dsimp only
  rw [h]
  rfl

theorem Reaches.of_step (hg : m.goals = goal :: goals) (h : m.step goal goals = some m')
    (hless : m'.tokens.length < m.tokens.length) : Reaches m m' :=
  Advances.of_round (run_step hg h) hless

/-- An item does not begin with the end of the list or with a key. -/
theorem step_item (first : Bool) (f : Flow) :
    step ⟨Flow.comma first ++ (f.tokens ++ ts), gs, hs, es⟩ (.flowEntry first) goals =
      node ⟨f.tokens ++ ts, gs, hs, es⟩ (.flowEntry false :: goals) false false := by
  cases first <;> cases f <;> rfl

theorem step_key (first : Bool) (k : Word) :
    step ⟨Flow.comma first ++ .key :: .scalar k.text true :: ts, gs, hs, es⟩ (.flowKey first)
      goals = some ⟨ts, .flowValue false :: goals, hs, .scalar none none k.text true :: es⟩ := by
  cases first <;> rfl

theorem step_value (f : Flow) :
    step ⟨.value :: (f.tokens ++ ts), gs, hs, es⟩ (.flowValue false) goals =
      node ⟨f.tokens ++ ts, gs, hs, es⟩ (.flowKey false :: goals) false false := by
  cases f <;> rfl

end

mutual
/-- The first token of a node is taken in the step that meets the node. -/
theorem node_flow (f : Flow) (ts : List Token) (gs goals : List Goal) (hs : List (String × Tag))
    (es : List Event) (block indentless : Bool) :
    ∃ m, node ⟨f.tokens ++ ts, gs, hs, es⟩ goals block indentless = some m ∧
      m.tokens.length < (f.tokens ++ ts).length ∧
      Reaches m ⟨ts, goals, hs, f.events.reverse ++ es⟩ := by
  match f with
  | .word w => exact ⟨_, rfl, Nat.lt_succ_self _, .refl _⟩
  | .list items =>
    have hitems := reaches_items items true ts goals hs (.sequenceStart none none :: es)
    refine ⟨_, rfl, Nat.lt_succ_self _, ?_⟩
    rw [Flow.events, List.reverse_cons, List.append_assoc]
    exact hitems
  | .record fields =>
    have hfields := reaches_fields fields true ts goals hs (.mappingStart none none :: es)
    refine ⟨_, rfl, Nat.lt_succ_self _, ?_⟩
    rw [Flow.events, List.reverse_cons, List.append_assoc]
    exact hfields

theorem reaches_items (items : List Flow) (first : Bool) (ts : List Token) (goals : List Goal)
    (hs : List (String × Tag)) (es : List Event) :
    Reaches ⟨Flow.itemTokens first items ++ ts, .flowEntry first :: goals, hs, es⟩
      ⟨ts, goals, hs, (Flow.itemEvents items).reverse ++ es⟩ := by
  match items with
  | [] => exact .of_step rfl (by cases first <;> rfl) (Nat.lt_succ_self _)
  | f :: items =>
    obtain ⟨m, hnode, hless, hreaches⟩ := node_flow f (Flow.itemTokens false items ++ ts)
      (.flowEntry first :: goals) (.flowEntry false :: goals) hs es false false
    have hitems := reaches_items items false ts goals hs (f.events.reverse ++ es)
    rw [Flow.itemTokens, Flow.itemEvents, List.append_assoc, List.append_assoc,
      List.reverse_append, List.append_assoc]
    refine (Reaches.of_step rfl ((step_item first f).trans hnode) ?_).trans
      (hreaches.trans hitems)
    rw [List.length_append]
    omega

theorem reaches_fields (fields : List (Word × Flow)) (first : Bool) (ts : List Token)
    (goals : List Goal) (hs : List (String × Tag)) (es : List Event) :
    Reaches ⟨Flow.fieldTokens first fields ++ ts, .flowKey first :: goals, hs, es⟩
      ⟨ts, goals, hs, (Flow.fieldEvents fields).reverse ++ es⟩ := by
  match fields with
  | [] => exact .of_step rfl (by cases first <;> rfl) (Nat.lt_succ_self _)
  | (k, f) :: fields =>
    obtain ⟨m, hnode, hless, hreaches⟩ := node_flow f (Flow.fieldTokens false fields ++ ts)
      (.flowValue false :: goals) (.flowKey false :: goals) hs (.scalar none none k.text true :: es)
      false false
    have hfields := reaches_fields fields false ts goals hs
      (f.events.reverse ++ .scalar none none k.text true :: es)
    have hkey : Reaches ⟨Flow.comma first ++ .key :: .scalar k.text true :: .value ::
        (f.tokens ++ (Flow.fieldTokens false fields ++ ts)), .flowKey first :: goals, hs, es⟩ _ :=
      .of_step rfl (step_key first k) (by
        simp only [List.length_append, List.length_cons]
        omega)
    rw [Flow.fieldTokens, Flow.fieldEvents, List.append_assoc, List.cons_append, List.cons_append,
      List.cons_append, List.append_assoc, List.reverse_cons, List.append_assoc,
      List.reverse_append, List.append_assoc]
    refine hkey.trans ((Reaches.of_step rfl ((step_value f).trans hnode) ?_).trans
      (hreaches.trans hfields))
    rw [List.length_cons]
    omega
end

end Machine

/-- Besides the steps that take a token, the machine takes five. -/
theorem ofTokens?_flow (f : Flow) :
    ofTokens? (f.tokens ++ [.streamEnd]) = some (.documentStart :: f.events ++ [.documentEnd]) := by
  obtain ⟨m, hnode, hless, n, hn, hrun⟩ := Machine.node_flow f [.streamEnd]
    [.node true false, .documentEnd] [.documentEnd] defaultHandles [.documentStart] true false
  have hn' : n + 1 ≤ m.tokens.length := hn
  have hfuel : 8 * (f.tokens ++ [Token.streamEnd]).length + 8 =
      8 * (f.tokens ++ [Token.streamEnd]).length + 3 - n + 3 + n + 1 + 1 := by
    omega
  have hbegin : (⟨f.tokens ++ [.streamEnd], [.document false], [], []⟩ : Machine).step
      (.document false) [] = some ⟨f.tokens ++ [.streamEnd], [.node true false, .documentEnd],
        defaultHandles, [.documentStart]⟩ := by
    cases f <;> rfl
  have hevents : (Event.documentEnd :: (f.events.reverse ++ [.documentStart])).reverse =
      .documentStart :: f.events ++ [.documentEnd] := by simp
  have hfirst : (⟨f.tokens ++ [.streamEnd], [.node true false, .documentEnd], defaultHandles,
      [.documentStart]⟩ : Machine).step (.node true false) [.documentEnd] = some m := hnode
  rw [ofTokens?, hfuel, Machine.run_step rfl hbegin, Machine.run_step rfl hfirst, hrun, ← hevents]
  rfl

/-- An event without an anchor that begins or ends no document. -/
def isBare : Event → Bool
  | scalar none _ _ _ | sequenceStart none _ | mappingStart none _ => true
  | sequenceEnd | mappingEnd => true
  | _ => false

theorem nodesLoop_bare {es : List Event} (h : es.all isBare) (n : Nat) (a : Anchors)
    (seen : List Node) : nodesLoop (es ++ [.documentEnd]) n a seen =
      some (seen.reverse ++ es.map .event, a, []) := by
  induction es generalizing n seen with
  | nil =>
    rw [List.map_nil, List.append_nil]
    rfl
  | cons e es ih =>
    rw [List.all_cons, Bool.and_eq_true] at h
    have hstep : nodesLoop (e :: (es ++ [.documentEnd])) n a seen =
        nodesLoop (es ++ [.documentEnd]) (n + 1) a (.event e :: seen) := by
      have hbare := h.1
      unfold isBare at hbare
      split at hbare <;> first | rfl | cases hbare
    rw [List.cons_append, hstep, ih h.2, List.reverse_cons, List.append_assoc]
    rfl

mutual
theorem isBare_events (f : Flow) : f.events.all isBare := by
  match f with
  | .word w => rfl
  | .list items => exact isBare_itemEvents items
  | .record fields => exact isBare_fieldEvents fields

theorem isBare_itemEvents (items : List Flow) : (Flow.itemEvents items).all isBare := by
  match items with
  | [] => rfl
  | f :: items =>
    rw [Flow.itemEvents, List.all_append, isBare_events f, isBare_itemEvents items]
    rfl

theorem isBare_fieldEvents (fields : List (Word × Flow)) :
    (Flow.fieldEvents fields).all isBare := by
  match fields with
  | [] => rfl
  | (k, f) :: fields =>
    rw [Flow.fieldEvents, List.all_cons, List.all_append, isBare_events f,
      isBare_fieldEvents fields]
    rfl
end

/-- From a place on, the nodes of a document begin with these events. -/
def Document.Holds (doc : Document) (place : Nat) (es : List Event) : Prop :=
  es.map .event <+: doc.nodes.toList.drop place

namespace Document.Holds

variable {doc : Document} {place : Nat} {e : Event} {es es' : List Event}

theorem left (h : doc.Holds place (es ++ es')) : doc.Holds place es := by
  rw [Holds, List.map_append] at h
  exact (List.prefix_append _ _).trans h

theorem right (h : doc.Holds place (es ++ es')) : doc.Holds (place + es.length) es' := by
  obtain ⟨post, hpost⟩ := h
  refine ⟨post, ?_⟩
  rw [← List.drop_drop, ← hpost, List.map_append, List.append_assoc, ← List.length_map Node.event,
    List.drop_left]

theorem head (h : doc.Holds place (e :: es)) : doc.nodes[place]? = some (.event e) := by
  obtain ⟨post, hpost⟩ := h
  rw [← Array.getElem?_toList, ← List.head?_drop, ← hpost]
  rfl

theorem tail (h : doc.Holds place (e :: es)) : doc.Holds (place + 1) es :=
  (show doc.Holds place ([e] ++ es) from h).right

theorem length_le (h : doc.Holds place es) : es.length ≤ doc.nodes.size := by
  have hlength := List.IsPrefix.length_le h
  have hsize : doc.nodes.toList.length = doc.nodes.size := Array.length_toList
  rw [List.length_map, List.length_drop, hsize] at hlength
  omega

end Document.Holds

theorem loader_bind_eq {α β : Type} {r : Loader α} {f : α → Loader β} {a : α} {j j' : Nat}
    (h : r j = some (a, j')) : (r >>= f) j = f a j' := by
  change Option.bind (r j) _ = _
  rw [h]
  rfl

theorem events_length_pos (f : Flow) : 0 < f.events.length := by
  cases f <;> exact Nat.succ_pos _

section

variable {doc : Document} {place next jumps : Nat}

theorem nodeValue_event {node : Option (Nat → Loader (Value × Nat))} {e : Event}
    (h : doc.nodes[place]? = some (.event e)) :
    nodeValue doc node place = eventValue doc node place := by
  rw [nodeValue, h]

theorem valueAt_scalar {text : String} {v : Value}
    (h : doc.nodes[place]? = some (.event (.scalar none none text true)))
    (hv : resolvePlain text = some v) (levels jumps : Nat) :
    valueAt doc levels place jumps = some ((v, place + 1), jumps) := by
  have hscalar : scalarValue none text true = some v := hv
  have hvalue (node : Option (Nat → Loader (Value × Nat))) :
      nodeValue doc node place jumps = some ((v, place + 1), jumps) := by
    rw [nodeValue_event h]
    simp only [eventValue, h, hscalar]
    rfl
  cases levels <;> exact hvalue _

theorem valueAt_sequence {levels : Nat} {vs : List Value}
    (h : doc.nodes[place]? = some (.event (.sequenceStart none none)))
    (hvs : itemsLoop (valueAt doc levels) doc.nodes (doc.nodes.size + 1) (place + 1) [] jumps =
      some ((vs, next), jumps)) :
    valueAt doc (levels + 1) place jumps = some ((.sequence vs, next), jumps) := by
  rw [valueAt, nodeValue_event h]
  simp only [eventValue, h]
  exact loader_bind_eq hvs

theorem valueAt_mapping {levels : Nat} {vs : List (Value × Value)}
    (h : doc.nodes[place]? = some (.event (.mappingStart none none)))
    (hvs : fieldsLoop (valueAt doc levels) doc.nodes (doc.nodes.size + 1) (place + 1) [] jumps =
      some ((vs, next), jumps)) :
    valueAt doc (levels + 1) place jumps = some ((.mapping vs, next), jumps) := by
  rw [valueAt, nodeValue_event h]
  simp only [eventValue, h]
  exact loader_bind_eq hvs

variable {node : Nat → Loader (Value × Nat)} {fuel : Nat}

/-- An item is no end of the sequence. -/
theorem itemsLoop_item {f : Flow} (h : doc.Holds place f.events) {v : Value}
    (hv : node place jumps = some ((v, next), jumps)) (seen : List Value) :
    itemsLoop node doc.nodes (fuel + 1) place seen jumps =
      itemsLoop node doc.nodes fuel next (v :: seen) jumps := by
  cases f <;> rw [itemsLoop, h.head] <;> exact loader_bind_eq hv

/-- A key is no end of the mapping. -/
theorem fieldsLoop_field {text : String}
    (h : doc.nodes[place]? = some (.event (.scalar none none text true)))
    {k v : Value} {seen : List (Value × Value)} (hnew : ∀ f ∈ seen, f.1.same k = false)
    {after : Nat} (hk : node place jumps = some ((k, next), jumps))
    (hv : node next jumps = some ((v, after), jumps)) :
    fieldsLoop node doc.nodes (fuel + 1) place seen jumps =
      fieldsLoop node doc.nodes fuel after ((k, v) :: seen) jumps := by
  rw [fieldsLoop, h]
  dsimp only
  rw [loader_bind_eq hk]
  dsimp only
  rw [if_neg]
  · exact loader_bind_eq hv
  · intro hany
    obtain ⟨f, hf, hsame⟩ := List.any_eq_true.mp hany
    have hknown : f.1.same k = true := hsame
    rw [hnew f hf] at hknown
    cases hknown

end

section

variable {doc : Document}

mutual
theorem valueAt_flow (f : Flow) {v : Value} (hv : f.value? = some v) {levels : Nat}
    (hl : v.nesting ≤ levels) {place : Nat} (h : doc.Holds place f.events) (jumps : Nat) :
    valueAt doc levels place jumps = some ((v, place + f.events.length), jumps) := by
  match f with
  | .word w => exact valueAt_scalar h.head hv levels jumps
  | .list items =>
    obtain ⟨vs, hvs, rfl⟩ := Option.map_eq_some_iff.mp hv
    rw [Value.nesting] at hl
    obtain ⟨levels, rfl⟩ : ∃ n, levels = n + 1 := ⟨levels - 1, by omega⟩
    have hinside : Value.nestingItems vs ≤ levels := by omega
    have hitems := itemsLoop_flow items hvs hinside h.tail
      (Nat.le_succ_of_le h.tail.length_le) [] jumps
    rw [valueAt_sequence h.head hitems, Flow.events, List.length_cons, Nat.add_assoc,
      Nat.add_comm 1]
    rfl
  | .record fields =>
    obtain ⟨vs, hvs, rfl⟩ := Option.map_eq_some_iff.mp hv
    rw [Value.nesting] at hl
    obtain ⟨levels, rfl⟩ : ∃ n, levels = n + 1 := ⟨levels - 1, by omega⟩
    have hinside : Value.nestingFields vs ≤ levels := by omega
    have hfields := fieldsLoop_flow fields hvs hinside h.tail
      (Nat.le_succ_of_le h.tail.length_le) [] nofun jumps
    rw [valueAt_mapping h.head hfields, Flow.events, List.length_cons, Nat.add_assoc,
      Nat.add_comm 1]
    rfl

theorem itemsLoop_flow (items : List Flow) {vs : List Value}
    (hv : Flow.itemValues? items = some vs) {levels : Nat} (hl : Value.nestingItems vs ≤ levels)
    {place : Nat} (h : doc.Holds place (Flow.itemEvents items)) {fuel : Nat}
    (hf : (Flow.itemEvents items).length ≤ fuel) (seen : List Value) (jumps : Nat) :
    itemsLoop (valueAt doc levels) doc.nodes fuel place seen jumps =
      some ((seen.reverse ++ vs, place + (Flow.itemEvents items).length), jumps) := by
  match items with
  | [] =>
    cases hv
    obtain ⟨fuel, rfl⟩ : ∃ n, fuel = n + 1 := ⟨fuel - 1, (Nat.sub_add_cancel hf).symm⟩
    rw [itemsLoop, h.head, List.append_nil]
    rfl
  | f :: items =>
    obtain ⟨v, hfirst, hv⟩ := Option.bind_eq_some_iff.mp hv
    obtain ⟨ws, hrest, hv⟩ := Option.bind_eq_some_iff.mp hv
    cases hv
    rw [Value.nestingItems] at hl
    rw [Flow.itemEvents] at h
    rw [Flow.itemEvents, List.length_append] at hf
    have hpos := events_length_pos f
    obtain ⟨fuel, rfl⟩ : ∃ n, fuel = n + 1 := ⟨fuel - 1, by omega⟩
    have hinside : v.nesting ≤ levels := by omega
    have hnode := valueAt_flow f hfirst hinside h.left jumps
    rw [itemsLoop_item h.left hnode, itemsLoop_flow items hrest (by omega) h.right (by omega),
      List.reverse_cons, List.append_assoc, Flow.itemEvents, List.length_append, Nat.add_assoc]
    rfl

/-- The keys read before must not be keys of the fields that follow. -/
theorem fieldsLoop_flow (fields : List (Word × Flow)) {vs : List (Value × Value)}
    (hv : Flow.fieldValues? fields = some vs) {levels : Nat}
    (hl : Value.nestingFields vs ≤ levels) {place : Nat}
    (h : doc.Holds place (Flow.fieldEvents fields)) {fuel : Nat}
    (hf : (Flow.fieldEvents fields).length ≤ fuel) (seen : List (Value × Value))
    (hs : ∀ f ∈ seen, ∀ g ∈ vs, f.1.same g.1 = false) (jumps : Nat) :
    fieldsLoop (valueAt doc levels) doc.nodes fuel place seen jumps =
      some ((seen.reverse ++ vs, place + (Flow.fieldEvents fields).length), jumps) := by
  match fields with
  | [] =>
    cases hv
    obtain ⟨fuel, rfl⟩ : ∃ n, fuel = n + 1 := ⟨fuel - 1, (Nat.sub_add_cancel hf).symm⟩
    rw [fieldsLoop, h.head, List.append_nil]
    rfl
  | (k, f) :: fields =>
    obtain ⟨key, hkey, hv⟩ := Option.bind_eq_some_iff.mp hv
    obtain ⟨v, hfirst, hv⟩ := Option.bind_eq_some_iff.mp hv
    obtain ⟨ws, hrest, hv⟩ := Option.bind_eq_some_iff.mp hv
    split at hv
    · cases hv
    next hdistinct =>
      cases hv
      rw [Value.nestingFields] at hl
      rw [Flow.fieldEvents] at h
      rw [Flow.fieldEvents, List.length_cons, List.length_append] at hf
      obtain ⟨fuel, rfl⟩ : ∃ n, fuel = n + 1 := ⟨fuel - 1, by omega⟩
      have hname := valueAt_scalar h.head hkey levels jumps
      have hinside : v.nesting ≤ levels := by omega
      have hnode := valueAt_flow f hfirst hinside h.tail.left jumps
      have hnew : ∀ a ∈ seen, a.1.same key = false := fun a ha => hs a ha _ List.mem_cons_self
      have hseen : ∀ a ∈ (key, v) :: seen, ∀ b ∈ ws, a.1.same b.1 = false := by
        rw [List.forall_mem_cons]
        refine ⟨fun b hb => ?_, fun a ha b hb => hs a ha b (List.mem_cons_of_mem _ hb)⟩
        rw [List.any_eq_true] at hdistinct
        exact Bool.eq_false_iff.mpr fun hsame => hdistinct ⟨b, hb, hsame⟩
      have hplace : place + (Flow.fieldEvents ((k, f) :: fields)).length =
          place + 1 + f.events.length + (Flow.fieldEvents fields).length := by
        rw [Flow.fieldEvents, List.length_cons, List.length_append]
        omega
      rw [fieldsLoop_field h.head hnew hname hnode,
        fieldsLoop_flow fields hrest (by omega) h.tail.right (by omega) _ hseen, List.reverse_cons,
        List.append_assoc, hplace]
      rfl
end

end

theorem toValue?_flow {f : Flow} {v : Value} (hv : f.value? = some v)
    (hl : v.nesting ≤ depthLimit) :
    toValue? (.documentStart :: f.events ++ [.documentEnd]) = some v := by
  have hnodes : nodesLoop (.documentStart :: f.events ++ [.documentEnd]) 0 ⟨[], []⟩ [] =
      some (f.events.map .event, ⟨[], []⟩, []) := nodesLoop_bare (isBare_events f) 0 _ []
  have hholds : Document.Holds ⟨(f.events.map Node.event).toArray, []⟩ 0 f.events :=
    List.prefix_refl _
  have hload : (valueAt ⟨(f.events.map Node.event).toArray, []⟩ depthLimit 0).run 0 =
      some ((v, 0 + f.events.length), 0) := valueAt_flow f hv hl hholds 0
  rw [toValue?, hnodes]
  change Option.bind ((valueAt ⟨(f.events.map Node.event).toArray, []⟩ depthLimit 0).run 0) _ = _
  rw [hload]
  rfl

end Event

/-- A collection on one line is read as what it says, as deep as the loader goes. -/
theorem ofText?_flow {f : Flow} {v : Value} (hf : f.isWord = false) (hv : f.value? = some v)
    (hl : v.nesting ≤ Event.depthLimit) : Value.ofText? f.text = some v := by
  rw [Value.ofText?, Flow.ofText?_tokens hf]
  exact (congrArg (·.bind Event.toValue?) (Event.ofTokens?_flow f)).trans
    (Event.toValue?_flow hv hl)

end RuleScope.Yaml
