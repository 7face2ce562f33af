import RuleScope.Text.Digits

namespace RuleScope

/-- The number by which the compiler, the location file and the runtime agree on a rule. It is
signed and has 32 bits. -/
structure RuleId where
  value : Int
  low : -2147483648 ≤ value := by omega
  high : value ≤ 2147483647 := by omega
  deriving DecidableEq

namespace RuleId

/-- The rule id with this value, if there is one. -/
def ofInt? (i : Int) : Option RuleId :=
  if h : -2147483648 ≤ i ∧ i ≤ 2147483647 then some ⟨i, h.1, h.2⟩ else none

def text (id : RuleId) : String := Text.intText id.value

def le (a b : RuleId) : Bool := a.value ≤ b.value

instance : Inhabited RuleId := ⟨⟨0, by omega, by omega⟩⟩

instance : Repr RuleId := ⟨fun id n => reprPrec id.value n⟩

theorem ext_value {a b : RuleId} (h : a.value = b.value) : a = b := by
  cases a
  cases b
  simp_all

theorem ofInt?_value (id : RuleId) : ofInt? id.value = some id := by
  simp [ofInt?, id.low, id.high]

theorem ofInt?_eq_some_iff {i : Int} {id : RuleId} : ofInt? i = some id ↔ i = id.value := by
  constructor
  · intro h
    unfold ofInt? at h
    split at h
    · cases h
      rfl
    · cases h
  · rintro rfl
    exact ofInt?_value id

end RuleId

end RuleScope
