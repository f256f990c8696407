import Mathlib.Algebra.Order.Ring.Nat

/-! Varints and `int32` fields of the protobuf wire format, `google.golang.org/protobuf`. -/
namespace Memoark.Go.Protowire

/-- `AppendVarint`, seven bits a byte, the lowest first. -/
def appendVarint (v : Nat) : List UInt8 :=
  if v < 128 then [UInt8.ofNat v]
  else UInt8.ofNat (v % 128 + 128) :: appendVarint (v / 128)

/-- `ConsumeVarint` from the byte at an index: the value and what follows it. The tenth byte of a
varint holds the last bit of 64. -/
def consumeVarint : Nat → List UInt8 → Option (Nat × List UInt8)
  | _, [] => none
  | i, b :: rest =>
    if i = 9 then if b.toNat < 2 then some (b.toNat, rest) else none
    else if b.toNat < 128 then some (b.toNat, rest)
    else (consumeVarint (i + 1) rest).map fun value =>
      (b.toNat - 128 + 128 * value.1, value.2)

/-- The 64 bits of an `int32` that is not zero, behind the tag of its field. -/
def appendInt32 (num : Nat) (v : Int) : List UInt8 :=
  if v = 0 then []
  else appendVarint (num * 8) ++ appendVarint (v % 18446744073709551616).toNat

def toInt32 (v : Nat) : Int := Int.bmod v 4294967296

def InInt32 (v : Int) : Prop := -2147483648 ≤ v ∧ v < 2147483648

theorem inInt32_natCast {n : Nat} (h : n < 2147483648) : InInt32 n := by
  constructor <;> omega

/-- A value that fits into the bits from an index on is read back. -/
theorem consumeVarint_appendVarint (v : Nat) (rest : List UInt8) {i : Nat} (hi : i ≤ 9)
    (hv : v < 2 ^ (64 - 7 * i)) :
    consumeVarint i (appendVarint v ++ rest) = some (v, rest) := by
  induction v using appendVarint.induct generalizing i with
  | case1 v hsmall =>
    have htoNat : (UInt8.ofNat v).toNat = v := by
      rw [UInt8.toNat_ofNat', Nat.mod_eq_of_lt (by omega)]
    rw [appendVarint, if_pos hsmall, List.singleton_append, consumeVarint, htoNat]
    by_cases hlast : i = 9
    · subst hlast
      have hbit : v < 2 := hv
      rw [if_pos rfl, if_pos hbit]
    · rw [if_neg hlast, if_pos hsmall]
  | case2 v hlarge ih =>
    have htoNat : (UInt8.ofNat (v % 128 + 128)).toNat = v % 128 + 128 := by
      rw [UInt8.toNat_ofNat', Nat.mod_eq_of_lt (by omega)]
    have hnext : i + 1 ≤ 9 := by
      refine Nat.lt_of_le_of_ne hi fun hlast => ?_
      subst hlast
      omega
    have hpow : 2 ^ (64 - 7 * i) = 128 * 2 ^ (64 - 7 * (i + 1)) := by
      rw [show 64 - 7 * i = 7 + (64 - 7 * (i + 1)) by omega, Nat.pow_add]
    have hquotient : v / 128 < 2 ^ (64 - 7 * (i + 1)) :=
      Nat.div_lt_of_lt_mul (hpow ▸ hv)
    rw [appendVarint, if_neg hlarge, List.cons_append, consumeVarint, htoNat, if_neg (by omega),
      if_neg (by omega), ih hnext hquotient, Option.map_some]
    congr 2
    omega

theorem appendVarint_ne_nil (v : Nat) : appendVarint v ≠ [] := by
  rw [appendVarint]
  split <;> exact List.cons_ne_nil _ _

theorem toInt32_bits {v : Int} (h : InInt32 v) :
    toInt32 (v % 18446744073709551616).toNat = v := by
  have hnonneg : 0 ≤ v % 18446744073709551616 := by omega
  unfold toInt32
  rw [Int.toNat_of_nonneg hnonneg]
  obtain ⟨hlow, hhigh⟩ := h
  have hbits : v % 18446744073709551616 = v ∨
      v % 18446744073709551616 = v + 18446744073709551616 := by omega
  rcases hbits with hbits | hbits
  · rw [hbits]
    exact Int.bmod_eq_of_le (by omega) (by omega)
  · have hsum : v + 18446744073709551616 = v + ((4294967296 : Nat) : Int) * 4294967296 := by omega
    rw [hbits, hsum, Int.add_mul_bmod_self_left]
    exact Int.bmod_eq_of_le (by omega) (by omega)

theorem bits_lt (v : Int) : (v % 18446744073709551616).toNat < 2 ^ 64 := by
  omega

end Memoark.Go.Protowire
