/-! Schema versions and how `internal/version` compares them. -/
namespace Memoark.Migration

def releaseText (minor patch : Nat) : String := s!"0.{minor}.{patch}"

/-- `golang.org/x/mod/semver`: a total preorder on all texts, numeric on releases. -/
structure Semver where
  Compare : String → String → Ordering
  transCmp : Std.TransCmp Compare
  release : ∀ minor patch minor' patch' : Nat,
    Compare ("v" ++ releaseText minor patch) ("v" ++ releaseText minor' patch') =
      (compare minor minor').then (compare patch patch')

namespace Semver

variable (semver : Semver)

def IsVersionGreaterThan (version target : String) : Bool :=
  semver.Compare ("v" ++ version) ("v" ++ target) == .gt

def IsVersionGreaterOrEqualThan (version target : String) : Bool :=
  semver.Compare ("v" ++ version) ("v" ++ target) != .lt

variable {semver} {a b c : String} {minor patch minor' patch' : Nat}

theorem not_gt_self : semver.IsVersionGreaterThan a a = false := by
  have := semver.transCmp
  have h : semver.Compare ("v" ++ a) ("v" ++ a) = .eq := Std.ReflCmp.compare_self
  rw [IsVersionGreaterThan, h]
  rfl

theorem ge_iff_not_gt : semver.IsVersionGreaterOrEqualThan a b = true ↔
    semver.IsVersionGreaterThan b a = false := by
  have := semver.transCmp
  have h : semver.Compare ("v" ++ b) ("v" ++ a) = (semver.Compare ("v" ++ a) ("v" ++ b)).swap :=
    Std.OrientedCmp.eq_swap
  rw [IsVersionGreaterOrEqualThan, IsVersionGreaterThan, h]
  cases semver.Compare ("v" ++ a) ("v" ++ b) <;> decide

theorem gt_of_gt_of_ge (h : semver.IsVersionGreaterThan a b = true)
    (h' : semver.IsVersionGreaterOrEqualThan b c = true) :
    semver.IsVersionGreaterThan a c = true := by
  have := semver.transCmp
  have hba : semver.Compare ("v" ++ a) ("v" ++ b) = .gt := by
    simpa [IsVersionGreaterThan] using h
  have hcb : (semver.Compare ("v" ++ b) ("v" ++ c)).isGE = true := by
    rw [IsVersionGreaterOrEqualThan] at h'
    revert h'
    cases semver.Compare ("v" ++ b) ("v" ++ c) <;> decide
  have hca := Std.TransCmp.gt_of_gt_of_isGE hba hcb
  rw [IsVersionGreaterThan, hca]
  rfl

theorem gt_of_ge_of_gt (h : semver.IsVersionGreaterOrEqualThan a b = true)
    (h' : semver.IsVersionGreaterThan b c = true) :
    semver.IsVersionGreaterThan a c = true := by
  have := semver.transCmp
  have hba : (semver.Compare ("v" ++ a) ("v" ++ b)).isGE = true := by
    rw [IsVersionGreaterOrEqualThan] at h
    revert h
    cases semver.Compare ("v" ++ a) ("v" ++ b) <;> decide
  have hcb : semver.Compare ("v" ++ b) ("v" ++ c) = .gt := by
    simpa [IsVersionGreaterThan] using h'
  have hca := Std.TransCmp.gt_of_isGE_of_gt hba hcb
  rw [IsVersionGreaterThan, hca]
  rfl

theorem ge_of_gt (h : semver.IsVersionGreaterThan a b = true) :
    semver.IsVersionGreaterOrEqualThan a b = true := by
  rw [IsVersionGreaterThan] at h
  rw [IsVersionGreaterOrEqualThan]
  revert h
  cases semver.Compare ("v" ++ a) ("v" ++ b) <;> decide

theorem gt_release_iff :
    semver.IsVersionGreaterThan (releaseText minor patch) (releaseText minor' patch') = true ↔
      minor' < minor ∨ minor' = minor ∧ patch' < patch := by
  rw [IsVersionGreaterThan, semver.release, beq_iff_eq, Ordering.then_eq_gt,
    Nat.compare_eq_gt, Nat.compare_eq_gt, Nat.compare_eq_eq]
  omega

end Semver

def numbersOf : Nat → List Char → List Nat
  | n, [] => [n]
  | n, c :: cs =>
    if c.isDigit then numbersOf (10 * n + (c.toNat - '0'.toNat)) cs else n :: numbersOf 0 cs

theorem numbersOf_digits (n : Nat) (digits rest : List Char) (h : ∀ c ∈ digits, c.isDigit) :
    numbersOf n (digits ++ rest) = numbersOf (Nat.ofDigitChars 10 digits n) rest := by
  induction digits generalizing n with
  | nil => rfl
  | cons c cs ih =>
    have hc : c.isDigit := h c List.mem_cons_self
    rw [List.cons_append, numbersOf, if_pos hc, ih _ fun c hc => h c (List.mem_cons_of_mem _ hc),
      Nat.ofDigitChars_cons]

theorem numbersOf_toDigits (n : Nat) (rest : List Char) :
    numbersOf 0 (Nat.toDigits 10 n ++ rest) = numbersOf n rest := by
  rw [numbersOf_digits 0 _ _ fun c => Nat.isDigit_of_mem_toDigits (by decide) (by decide),
    Nat.ofDigitChars_ten_toDigits]

theorem numbersOf_release (minor patch : Nat) :
    numbersOf 0 ("v" ++ releaseText minor patch).toList = [0, 0, minor, patch] := by
  have h : ("v" ++ releaseText minor patch).toList =
      'v' :: '0' :: '.' :: (Nat.toDigits 10 minor ++ '.' :: (Nat.toDigits 10 patch ++ [])) := by
    simp [releaseText, toString, Nat.repr]
  rw [h]
  simp only [numbersOf, numbersOf_toDigits]
  rfl

def Semver.byNumbers : Semver where
  Compare := compareOn fun version : String => numbersOf 0 version.toList
  transCmp := inferInstance
  release minor patch minor' patch' := by
    rw [compareOn, numbersOf_release, numbersOf_release]
    simp only [List.compare_eq_compareLex, List.compareLex_cons_cons, List.compareLex_nil_nil]
    cases compare minor minor' <;> cases compare patch patch' <;> rfl

end Memoark.Migration
