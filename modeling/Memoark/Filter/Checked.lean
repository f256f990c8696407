import Memoark.Filter.Parser
import Memoark.Program.Returns

/-! What the parser has checked of the conditions that it builds. -/
namespace Memoark.Filter

open Program (bind_ok)

/-- `contains` is applied only where the schema supports it, and a field is compared only by
the operators that it allows. -/
def Condition.Checked (s : Schema) : Condition → Prop
  | .logical _ l r => l.Checked s ∧ r.Checked s
  | .not e => e.Checked s
  | .comparison left op _ => checkComparisonOp s op left = .ok ()
  | .contains field _ => ∃ f, s.field field = some f ∧ f.supportsContains = true
  | .fieldPredicate _ | .inList .. | .elementIn .. | .listComprehension .. | .constant _ => True

def Condition.IsLeaf : Condition → Prop
  | .logical .. | .not _ => False
  | _ => True

variable {now : Int} {s : Schema} {cond : Condition}

theorem comparison_leaf {function : String} {args : List Expr}
    (h : buildComparisonCondition now s function args = .ok cond) :
    cond.IsLeaf ∧ cond.Checked s := by
  unfold buildComparisonCondition at h
  split at h
  · split at h
    · cases h
    · obtain ⟨left, -, h⟩ := bind_ok h
      obtain ⟨right, -, h⟩ := bind_ok h
      obtain ⟨⟨⟩, hop, h⟩ := bind_ok h
      cases h
      exact ⟨trivial, hop⟩
  · cases h

theorem elementIn_leaf {left right : Expr}
    (h : buildElementIn now s left right = .ok cond) : cond.IsLeaf ∧ cond.Checked s := by
  unfold buildElementIn at h
  split at h
  · split at h
    · cases h
    · obtain ⟨element, -, h⟩ := bind_ok h
      cases h
      exact ⟨trivial, trivial⟩
  · cases h

theorem in_leaf {args : List Expr} (h : buildInCondition now s args = .ok cond) :
    cond.IsLeaf ∧ cond.Checked s := by
  unfold buildInCondition at h
  split at h
  · split at h
    · obtain ⟨-, -, h⟩ := bind_ok h
      obtain ⟨values, -, h⟩ := bind_ok h
      cases h
      exact ⟨trivial, trivial⟩
    · obtain ⟨-, -, h⟩ := bind_ok h
      exact elementIn_leaf h
    · exact elementIn_leaf h
  · cases h

theorem contains_leaf {target : Option Expr} {args : List Expr}
    (h : buildContainsCondition s target args = .ok cond) : cond.IsLeaf ∧ cond.Checked s := by
  unfold buildContainsCondition at h
  split at h
  · cases h
  · obtain ⟨name, -, h⟩ := bind_ok h
    split at h
    · cases h
    · rename_i f hf
      split at h
      · cases h
      · rename_i hc
        split at h
        · split at h
          · cases h
          · cases h
            exact ⟨trivial, f, hf, by simpa using hc⟩
          · cases h
        · cases h

theorem leafCall_leaf {target : Option Expr} {function : String} {args : List Expr}
    (h : buildLeafCall now s target function args = .ok cond) : cond.IsLeaf ∧ cond.Checked s := by
  unfold buildLeafCall at h
  split at h
  case h_7 => exact in_leaf h
  case h_8 => exact contains_leaf h
  case h_9 =>
    obtain ⟨value, -, h⟩ := bind_ok h
    split at h <;> cases h
    exact ⟨trivial, trivial⟩
  all_goals exact comparison_leaf h

theorem comprehension_leaf {iterVar : String} {iterRange accuInit loopStep : Expr}
    (h : buildComprehensionCondition s iterVar iterRange accuInit loopStep = .ok cond) :
    cond.IsLeaf ∧ cond.Checked s := by
  unfold buildComprehensionCondition at h
  obtain ⟨kind, -, h⟩ := bind_ok h
  split at h
  · split at h
    · cases h
    · split at h
      · cases h
      · obtain ⟨predicate, -, h⟩ := bind_ok h
        cases h
        exact ⟨trivial, trivial⟩
  · cases h

theorem buildCondition_checked {e : Expr} (h : buildCondition now s e = .ok cond) :
    cond.Checked s := by
  induction e using (buildCondition.induct s) generalizing cond with
  | case1 t l r hl hr | case3 t l r hl hr =>
    rw [buildCondition] at h
    obtain ⟨a, ha, h⟩ := bind_ok h
    obtain ⟨b, hb, h⟩ := bind_ok h
    cases h
    exact ⟨hl ha, hr hb⟩
  | case5 t arg ih =>
    rw [buildCondition] at h
    obtain ⟨a, ha, h⟩ := bind_ok h
    have hchecked := ih ha
    cases h
    exact hchecked
  | case2 t args hargs | case4 t args hargs | case6 t args hargs =>
    rw [buildCondition] at h
    · cases h
    · exact hargs
  | case7 t function args =>
    rw [buildCondition] at h
    · exact (leafCall_leaf h).2
    all_goals assumption
  | case8 value =>
    rw [buildCondition] at h
    obtain ⟨lit, -, h⟩ := bind_ok h
    split at h <;> cases h
    trivial
  | case9 name hf =>
    simp [buildCondition, hf] at h
  | case10 name f hf ht =>
    simp only [buildCondition, hf, ht, if_true] at h
    cases h
    trivial
  | case11 name f hf ht =>
    simp [buildCondition, hf, ht] at h
  | case12 =>
    rw [buildCondition] at h
    exact (comprehension_leaf h).2
  | case13 =>
    rw [buildCondition] at h
    · cases h
    all_goals assumption

end Memoark.Filter
