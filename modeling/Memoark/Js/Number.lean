import Mathlib.Data.List.Induction
import Memoark.Js.JsonText

/-! The whole numbers of JavaScript that are not negative, and their texts. -/
namespace Memoark.Js

def decimal (n : Nat) : Units := (Nat.toDigits 10 n).map ascii

section text

def parseInt (digits : Units) : Number := toDouble ((digitsValue digits : Nat) : Rat)

def Number.plus (n : Nat) : Number → Number
  | .finite x => toDouble (x + (n : Rat))
  | .infinity negative => .infinity negative

def neighbours (x unit : Nat) : List Nat :=
  let q := x / unit
  let r := x % unit
  if 2 * r < unit ∨ 2 * r = unit ∧ q % 2 = 0 then [q, q + 1] else [q + 1, q]

/-- The fewest digits that tell a double from all others, before a power of ten. -/
def shortest (x : Nat) : Nat → Nat × Nat
  | 0 => (x, 0)
  | j + 1 =>
    let unit := 10 ^ (j + 1)
    match (neighbours x unit).find? fun s =>
        toDouble ((s * unit : Nat) : Rat) = .finite (x : Rat) with
    | some s => (s, j + 1)
    | none => shortest x j

def wholeToString (x : Nat) : Units :=
  if x = 0 then decimal 0
  else
    let (s, j) := shortest x (decimal x).length
    let digits := decimal s
    if digits.length + j ≤ 21 then digits ++ List.replicate j (ascii '0')
    else
      digits.take 1 ++ (if digits.length = 1 then [] else ascii '.' :: digits.drop 1) ++
        utf16 "e+" ++ decimal (digits.length + j - 1)

def Number.toString : Number → Units
  | .finite x => wholeToString x.num.toNat
  | .infinity negative => utf16 (if negative then "-Infinity" else "Infinity")

end text

section exact

variable {n x : Nat}

theorem log2Floor_nat (hn : n ≠ 0) : log2Floor n 1 = n.log2 := by
  have hone : Nat.log2 1 = 0 := by decide
  have hle := Nat.log2_self_le hn
  unfold log2Floor
  simp [hone, hle]

theorem roundHalfEven_one (n : Nat) : roundHalfEven n 1 = n := by
  unfold roundHalfEven
  simp [Nat.mod_one]

theorem toDouble_nat (h : n < 2 ^ 53) : toDouble (n : Rat) = .finite (n : Rat) := by
  unfold toDouble
  rw [Rat.num_natCast, Rat.den_natCast]
  by_cases hn : n = 0
  · rw [hn]
    rfl
  · have hnum : ¬(n : Int) = 0 := by omega
    have hlog : n.log2 < 53 := (Nat.log2_lt hn).mpr h
    have hexponent : max (log2Floor n 1 - 52) (-1074) = (n.log2 : Int) - 52 := by
      rw [log2Floor_nat hn]
      omega
    have hup : (-((n.log2 : Int) - 52)).toNat = 52 - n.log2 := by omega
    have hdown : ((n.log2 : Int) - 52).toNat = 0 := by omega
    have hsmall : n * 2 ^ (52 - n.log2) < 2 ^ 53 := by
      have hlt : n < 2 ^ (n.log2 + 1) := Nat.lt_log2_self
      have hpow : 2 ^ (n.log2 + 1) * 2 ^ (52 - n.log2) = 2 ^ 53 := by
        rw [← Nat.pow_add]
        congr 1
        omega
      have hpos : 0 < 2 ^ (52 - n.log2) := Nat.two_pow_pos _
      exact hpow ▸ Nat.mul_lt_mul_of_pos_right hlt hpos
    have hne : n * 2 ^ (52 - n.log2) ≠ 0 := Nat.mul_ne_zero hn (Nat.two_pow_pos _).ne'
    have hbits := (Nat.log2_lt hne).mpr hsmall
    have hfinite : ¬1024 ≤ ((n * 2 ^ (52 - n.log2)).log2 : Int) + ((n.log2 : Int) - 52) := by omega
    have hsign : (n : Int).sign = 1 := Int.sign_eq_one_of_pos (by omega)
    have hvalue : mkRat ((n * 2 ^ (52 - n.log2) : Nat) : Int) (2 ^ (52 - n.log2)) = (n : Rat) := by
      have hcancel := @Rat.mkRat_mul_right (n : Int) 1 (2 ^ (52 - n.log2)) (Nat.two_pow_pos _).ne'
      rw [Nat.one_mul] at hcancel
      rw [Int.natCast_mul, hcancel]
      exact Rat.mkRat_self (n : Rat)
    rw [if_neg hnum]
    dsimp only
    rw [Int.natAbs_natCast, hexponent, hup, hdown, Nat.pow_zero, Nat.mul_one, roundHalfEven_one,
      if_neg hfinite, hsign, Int.one_mul, Int.pow_zero, Int.mul_one, hvalue]

theorem le_of_mem_neighbours {unit s : Nat} (h : s ∈ neighbours x unit) : s ≤ x / unit + 1 := by
  unfold neighbours at h
  dsimp only at h
  split at h
  · simp at h
    omega
  · simp at h
    omega

/-- The fewest digits are the digits of the number, if no number near it is rounded to it. -/
theorem shortest_value {j : Nat} (hj : 10 ^ j ≤ 10 * x) (h : 11 * x < 2 ^ 53) :
    (shortest x j).1 * 10 ^ (shortest x j).2 = x := by
  induction j with
  | zero =>
    rw [shortest]
    exact Nat.mul_one x
  | succ j ih =>
    rw [shortest]
    cases hfind : (neighbours x (10 ^ (j + 1))).find?
        fun s => toDouble ((s * 10 ^ (j + 1) : Nat) : Rat) = .finite (x : Rat) with
    | none =>
      have hpow : 10 ^ j ≤ 10 ^ (j + 1) := Nat.pow_le_pow_right (by omega) (by omega)
      exact ih (by omega)
    | some s =>
      have hs := le_of_mem_neighbours (List.mem_of_find?_eq_some hfind)
      have hfound := (List.find?_eq_some_iff_append.mp hfind).1
      have hdouble := of_decide_eq_true hfound
      have hmul : s * 10 ^ (j + 1) ≤ (x / 10 ^ (j + 1) + 1) * 10 ^ (j + 1) :=
        Nat.mul_le_mul_right _ hs
      have hdiv := Nat.div_mul_le_self x (10 ^ (j + 1))
      rw [Nat.add_mul, Nat.one_mul] at hmul
      rw [toDouble_nat (by omega)] at hdouble
      injection hdouble with hcast
      exact_mod_cast hcast

theorem decimal_mul_pow (hn : 0 < n) (j : Nat) :
    decimal (n * 10 ^ j) = decimal n ++ List.replicate j (ascii '0') := by
  induction j with
  | zero => simp
  | succ j ih =>
    have hpos : 0 < n * 10 ^ j := Nat.mul_pos hn (Nat.pow_pos (by omega))
    have hdigits := @Nat.toDigits_append_toDigits 10 (n * 10 ^ j) 0 (by omega) hpos (by omega)
    have hmul : n * 10 ^ (j + 1) = 10 * (n * 10 ^ j) + 0 := by
      rw [Nat.pow_succ]
      ac_rfl
    rw [hmul, decimal, ← hdigits, List.map_append, ← decimal, ih, List.append_assoc,
      ← List.replicate_append_replicate]
    rfl

theorem length_decimal_le_iff {k : Nat} (hk : 0 < k) : (decimal n).length ≤ k ↔ n < 10 ^ k := by
  rw [decimal, List.length_map]
  exact Nat.length_toDigits_le_iff (by omega) hk

theorem pow_length_decimal (hx : x ≠ 0) : 10 ^ (decimal x).length ≤ 10 * x := by
  by_cases hone : (decimal x).length ≤ 1
  · have hpow : 10 ^ (decimal x).length ≤ 10 ^ 1 := Nat.pow_le_pow_right (by omega) hone
    omega
  · have hshort : ¬(decimal x).length ≤ (decimal x).length - 1 := by omega
    rw [length_decimal_le_iff (by omega)] at hshort
    have hpow : 10 ^ (decimal x).length = 10 ^ ((decimal x).length - 1) * 10 := by
      rw [← Nat.pow_succ]
      congr 1
      omega
    omega

theorem wholeToString_eq (h : x < 10 ^ 14) : wholeToString x = decimal x := by
  unfold wholeToString
  by_cases hx : x = 0
  · rw [if_pos hx, hx]
  · have hlength : (decimal x).length ≤ 14 := (length_decimal_le_iff (by omega)).mpr h
    have hpow := pow_length_decimal hx
    have hvalue := shortest_value hpow (by omega)
    rw [if_neg hx]
    generalize shortest x (decimal x).length = found at hvalue
    have hpos : 0 < found.1 := by
      apply Nat.pos_of_ne_zero
      intro hzero
      rw [hzero, Nat.zero_mul] at hvalue
      exact hx hvalue.symm
    have hdigits := decimal_mul_pow hpos found.2
    rw [hvalue] at hdigits
    have hsum := congrArg List.length hdigits
    rw [List.length_append, List.length_replicate] at hsum
    dsimp only
    rw [if_pos (by omega), hdigits]

theorem toString_plus_one {digits : Units} (h : digitsValue digits < 10 ^ 13) :
    ((parseInt digits).plus 1).toString = decimal (digitsValue digits + 1) := by
  have hsum : (digitsValue digits : Rat) + ((1 : Nat) : Rat) =
      ((digitsValue digits + 1 : Nat) : Rat) := by
    exact_mod_cast rfl
  have hnum : ((digitsValue digits + 1 : Nat) : Rat).num.toNat = digitsValue digits + 1 := by
    rw [Rat.num_natCast]
    rfl
  rw [parseInt, toDouble_nat (by omega), Number.plus, hsum, toDouble_nat (by omega),
    Number.toString, hnum, wholeToString_eq (by omega)]

end exact

section digits

theorem decimal_of_lt {n : Nat} (h : n < 10) : decimal n = [ascii n.digitChar] := by
  rw [decimal, Nat.toDigits_of_lt_base h]
  rfl

theorem decimal_of_le {n : Nat} (h : 10 ≤ n) :
    decimal n = decimal (n / 10) ++ [ascii (n % 10).digitChar] := by
  rw [decimal, Nat.toDigits_of_base_le (by omega) h, List.map_append]
  rfl

theorem toNat_digit {d : Nat} (h : d < 10) : (ascii d.digitChar).toNat = 48 + d := by
  have hall : ∀ d < 10, (ascii (Nat.digitChar d)).toNat = 48 + d := by decide
  exact hall d h

theorem decimal_digits (n : Nat) : ∀ u ∈ decimal n, isDigit u = true := by
  have hdigit : ∀ d < 10, isDigit (ascii (Nat.digitChar d)) = true := by decide
  induction n using Nat.strongRecOn with
  | ind n ih =>
    by_cases hn : n < 10
    · rw [decimal_of_lt hn]
      intro u hu
      rw [List.mem_singleton.mp hu]
      exact hdigit n hn
    · rw [decimal_of_le (by omega)]
      intro u hu
      rcases List.mem_append.mp hu with hu | hu
      · exact ih (n / 10) (by omega) u hu
      · rw [List.mem_singleton.mp hu]
        exact hdigit (n % 10) (by omega)

theorem digitsValue_decimal (n : Nat) : digitsValue (decimal n) = n := by
  induction n using Nat.strongRecOn with
  | ind n ih =>
    by_cases hn : n < 10
    · rw [decimal_of_lt hn, digitsValue, List.foldl_cons, List.foldl_nil, toNat_digit hn]
      omega
    · have hlast : (ascii (n % 10).digitChar).toNat = 48 + n % 10 := toNat_digit (by omega)
      have hrest := ih (n / 10) (by omega)
      rw [digitsValue] at hrest
      rw [decimal_of_le (by omega), digitsValue, List.foldl_append, List.foldl_cons, List.foldl_nil,
        hrest, hlast]
      omega

theorem digitsValue_lt {digits : Units} (h : ∀ u ∈ digits, isDigit u = true) :
    digitsValue digits < 10 ^ digits.length := by
  induction digits using List.reverseRecOn with
  | nil => decide
  | append_singleton us u ih =>
    have hu : isDigit u = true := h u (by simp)
    have hvalue : u.toNat ≤ 57 := by
      simp [isDigit] at hu
      omega
    have hus := ih fun v hv => h v (List.mem_append_left _ hv)
    rw [digitsValue] at hus
    rw [digitsValue, List.foldl_append, List.foldl_cons, List.foldl_nil, List.length_append,
      List.length_singleton, Nat.pow_succ]
    omega

end digits

end Memoark.Js
