import Mathlib.Data.List.Nodup
import Mathlib.Data.List.Perm.Basic

/-! Selections in one pass over a list: each element once, and the least elements. -/
namespace Memoark.Order
open scoped List

theorem foldl_distinct {α : Type} [DecidableEq α] (l : List α) {kept : List α}
    (hnodup : kept.Nodup) :
    (l.foldl (fun kept a => if a ∈ kept then kept else kept ++ [a]) kept).Nodup ∧
      ∀ b, b ∈ l.foldl (fun kept a => if a ∈ kept then kept else kept ++ [a]) kept ↔
        b ∈ kept ∨ b ∈ l := by
  induction l generalizing kept with
  | nil => exact ⟨hnodup, by simp⟩
  | cons a l ih =>
    rw [List.foldl_cons]
    by_cases ha : a ∈ kept
    · rw [if_pos ha]
      obtain ⟨hn, hmem⟩ := ih hnodup
      refine ⟨hn, fun b => ?_⟩
      rw [hmem b, List.mem_cons]
      constructor
      · rintro (h | h)
        · exact .inl h
        · exact .inr (.inr h)
      · rintro (h | rfl | h)
        · exact .inl h
        · exact .inl ha
        · exact .inr h
    · rw [if_neg ha]
      have hsnoc : (kept ++ [a]).Nodup := List.nodup_append.mpr
        ⟨hnodup, List.nodup_singleton a, fun b hb c hc heq =>
          ha (List.mem_singleton.mp hc ▸ heq ▸ hb)⟩
      obtain ⟨hn, hmem⟩ := ih hsnoc
      refine ⟨hn, fun b => ?_⟩
      rw [hmem b]
      simp [or_assoc]

variable {α : Type} {lt : α → α → Bool}

structure StrictOrder (lt : α → α → Bool) : Prop where
  asymm : ∀ a b, lt a b = true → lt b a = false
  negTrans : ∀ a b c, lt a b = false → lt b c = false → lt a c = false

theorem StrictOrder.trans (h : StrictOrder lt) {a b c : α} (hab : lt a b = true)
    (hbc : lt b c = true) : lt a c = true := by
  apply Bool.of_not_eq_false
  intro hac
  have hcb := h.asymm b c hbc
  rw [h.negTrans a c b hac hcb] at hab
  cases hab

/-- The chosen elements are `n` of those seen, or all if they are fewer, and no other comes before
one of them. -/
def Smallest (lt : α → α → Bool) (n : Nat) (seen chosen : List α) : Prop :=
  ∃ rest, (chosen ++ rest).Perm seen ∧ chosen.length = min n seen.length ∧
    ∀ r ∈ rest, ∀ c ∈ chosen, lt r c = false

namespace Smallest

variable {n : Nat} {seen chosen : List α} {a : α}

theorem nil (lt : α → α → Bool) (n : Nat) : Smallest lt n [] [] := by
  refine ⟨[], .refl _, ?_, ?_⟩
  · simp
  · simp

theorem push (h : Smallest lt n seen chosen) (hroom : chosen.length < n) (a : α) :
    Smallest lt n (seen ++ [a]) (chosen ++ [a]) := by
  obtain ⟨rest, hperm, hlength, -⟩ := h
  have hall := hperm.length_eq
  rw [List.length_append] at hall
  have hrest : rest = [] := List.eq_nil_of_length_eq_zero (by omega)
  subst hrest
  rw [List.append_nil] at hperm
  refine ⟨[], ?_, ?_, ?_⟩
  · rw [List.append_nil]
    exact hperm.append_right [a]
  · simp only [List.length_append, List.length_singleton]
    omega
  · simp

theorem replace (hlt : StrictOrder lt) (h : Smallest lt n seen chosen) (hfull : chosen.length = n)
    {i : Nat} {m : α} (hi : chosen[i]? = some m) (hmax : ∀ c ∈ chosen, lt m c = false)
    (ha : lt a m = true) : Smallest lt n (seen ++ [a]) (chosen.set i a) := by
  obtain ⟨rest, hperm, hlength, hrest⟩ := h
  obtain ⟨hbound, rfl⟩ := List.getElem?_eq_some_iff.mp hi
  have hmem : chosen[i] ∈ chosen := List.getElem_mem hbound
  have hset : (chosen.set i a).Perm (a :: chosen.eraseIdx i) := List.set_perm_cons_eraseIdx hbound a
  have herase : (chosen[i] :: chosen.eraseIdx i).Perm chosen :=
    List.getElem_cons_eraseIdx_perm hbound
  refine ⟨chosen[i] :: rest, ?_, ?_, ?_⟩
  · have hmoved : ((a :: chosen.eraseIdx i) ++ chosen[i] :: rest).Perm
        (a :: ((chosen[i] :: chosen.eraseIdx i) ++ rest)) := List.perm_middle.cons a
    calc chosen.set i a ++ chosen[i] :: rest
      _ ~ (a :: chosen.eraseIdx i) ++ chosen[i] :: rest := hset.append_right _
      _ ~ a :: ((chosen[i] :: chosen.eraseIdx i) ++ rest) := hmoved
      _ ~ a :: (chosen ++ rest) := (herase.append_right rest).cons a
      _ ~ a :: seen := hperm.cons a
      _ ~ seen ++ [a] := (List.perm_append_singleton a seen).symm
  · simp only [List.length_set, List.length_append, List.length_singleton]
    omega
  · intro r hr c hc
    rcases List.mem_cons.mp (hset.subset hc) with rfl | hc
    · rcases List.mem_cons.mp hr with rfl | hr
      · exact hlt.asymm _ _ ha
      · apply Bool.of_not_eq_true
        intro hra
        have hrm := hlt.trans hra ha
        rw [hrest r hr _ hmem] at hrm
        cases hrm
    · have hc : c ∈ chosen := List.mem_of_mem_eraseIdx hc
      rcases List.mem_cons.mp hr with rfl | hr
      · exact hmax c hc
      · exact hrest r hr c hc

theorem skip (hlt : StrictOrder lt) (h : Smallest lt n seen chosen) (hfull : chosen.length = n)
    {m : α} (hmax : ∀ c ∈ chosen, lt m c = false) (ha : lt a m = false) :
    Smallest lt n (seen ++ [a]) chosen := by
  obtain ⟨rest, hperm, hlength, hrest⟩ := h
  refine ⟨rest ++ [a], ?_, ?_, ?_⟩
  · rw [← List.append_assoc]
    exact hperm.append_right [a]
  · simp only [List.length_append, List.length_singleton]
    omega
  · intro r hr c hc
    rcases List.mem_append.mp hr with hr | hr
    · exact hrest r hr c hc
    · obtain rfl := List.mem_singleton.mp hr
      exact hlt.negTrans _ _ _ ha (hmax c hc)

end Smallest

end Memoark.Order
