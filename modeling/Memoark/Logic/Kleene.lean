/-! Strong Kleene logic: truth values with an unknown one, and values that are known unless a
condition blocks them. -/
namespace Memoark.Logic

inductive Truth where
  | false
  | unknown
  | true
  deriving DecidableEq, Repr

namespace Truth

def ofBool : Bool → Truth
  | .false => .false
  | .true => .true

def and : Truth → Truth → Truth
  | .false, _ => .false
  | _, .false => .false
  | .true, .true => .true
  | _, _ => .unknown

def or : Truth → Truth → Truth
  | .true, _ => .true
  | _, .true => .true
  | .false, .false => .false
  | _, _ => .unknown

def not : Truth → Truth
  | .false => .true
  | .unknown => .unknown
  | .true => .false

def mask (blocked : Bool) (b : Bool) : Truth := if blocked then .unknown else ofBool b

@[simp] theorem mask_false (b : Bool) : mask .false b = ofBool b := rfl

@[simp] theorem mask_true (b : Bool) : mask .true b = .unknown := rfl

@[simp] theorem not_ofBool (b : Bool) : (ofBool b).not = ofBool (!b) := by cases b <;> rfl

@[simp] theorem and_ofBool (a b : Bool) : (ofBool a).and (ofBool b) = ofBool (a && b) := by
  cases a <;> cases b <;> rfl

@[simp] theorem or_ofBool (a b : Bool) : (ofBool a).or (ofBool b) = ofBool (a || b) := by
  cases a <;> cases b <;> rfl

@[simp] theorem ofBool_eq_true {b : Bool} : ofBool b = .true ↔ b = .true := by
  cases b <;> simp [ofBool]

@[simp] theorem ofBool_eq_false {b : Bool} : ofBool b = .false ↔ b = .false := by
  cases b <;> simp [ofBool]

@[simp] theorem ofBool_ne_unknown (b : Bool) : ofBool b ≠ .unknown := by
  cases b <;> simp [ofBool]

@[simp] theorem ofBool_beq_true (b : Bool) : (ofBool b == .true) = b := by cases b <;> rfl

@[simp] theorem true_and : Truth.and .true = id := by
  funext a
  cases a <;> rfl

@[simp] theorem false_or : Truth.or .false = id := by
  funext a
  cases a <;> rfl

@[simp] theorem and_false (a : Truth) : a.and .false = .false := by cases a <;> rfl

@[simp] theorem or_true (a : Truth) : a.or .true = .true := by cases a <;> rfl

@[simp] theorem and_true (a : Truth) : a.and .true = a := by cases a <;> rfl

@[simp] theorem or_false (a : Truth) : a.or .false = a := by cases a <;> rfl

@[simp] theorem not_not (a : Truth) : a.not.not = a := by cases a <;> rfl

theorem and_eq_true {a b : Truth} : a.and b = .true ↔ a = .true ∧ b = .true := by
  cases a <;> cases b <;> decide

theorem or_eq_true {a b : Truth} : a.or b = .true ↔ a = .true ∨ b = .true := by
  cases a <;> cases b <;> decide

theorem and_assoc (a b c : Truth) : (a.and b).and c = a.and (b.and c) := by
  cases a <;> cases b <;> cases c <;> rfl

theorem or_assoc (a b c : Truth) : (a.or b).or c = a.or (b.or c) := by
  cases a <;> cases b <;> cases c <;> rfl

theorem not_mask (p b : Bool) : (mask p b).not = mask p (!b) := by
  cases p <;> cases b <;> rfl

/-- A conjunction is blocked by an operand unless the other one is false. -/
theorem and_mask (p q a b : Bool) :
    (mask p a).and (mask q b) = mask ((p && (q || b)) || (q && (p || a))) (a && b) := by
  cases p <;> cases q <;> cases a <;> cases b <;> rfl

/-- A disjunction is blocked by an operand unless the other one is true. -/
theorem or_mask (p q a b : Bool) :
    (mask p a).or (mask q b) = mask ((p && (q || !b)) || (q && (p || !a))) (a || b) := by
  cases p <;> cases q <;> cases a <;> cases b <;> rfl

theorem or_mask_same (p a b : Bool) : (mask p a).or (mask p b) = mask p (a || b) := by
  cases p <;> cases a <;> cases b <;> rfl

end Truth

end Memoark.Logic
