import Mathlib.Data.List.Nodup
import Mathlib.Logic.Function.Basic

/-! The elements of a list, each with the number of its earlier occurrences. -/
namespace Memoark.Syntax

variable {α β : Type} [DecidableEq α]

def counted (counts : α → Nat) (a : α) : α → Nat := Function.update counts a (counts a + 1)

def occurrencesFrom : (α → Nat) → List α → List (α × Nat)
  | _, [] => []
  | counts, a :: l => (a, counts a) :: occurrencesFrom (counted counts a) l

def occurrences (l : List α) : List (α × Nat) := occurrencesFrom (fun _ => 0) l

variable {counts : α → Nat} {l : List α}

theorem mem_occurrencesFrom {a : α} {n : Nat} : (a, n) ∈ occurrencesFrom counts l ↔
    counts a ≤ n ∧ n < counts a + l.count a := by
  induction l generalizing counts with
  | nil =>
    rw [occurrencesFrom, List.count_nil]
    refine iff_of_false List.not_mem_nil fun h => ?_
    omega
  | cons b l ih =>
    rw [occurrencesFrom, List.mem_cons, ih, Prod.mk.injEq]
    by_cases hb : a = b
    · subst hb
      rw [counted, Function.update_self, List.count_cons_self]
      constructor
      · rintro (⟨-, rfl⟩ | h)
        · omega
        · omega
      · intro h
        by_cases hn : n = counts a
        · exact .inl ⟨rfl, hn⟩
        · right
          omega
    · rw [counted, Function.update_of_ne hb, List.count_cons_of_ne (Ne.symm hb)]
      exact or_iff_right fun h => hb h.1

theorem nodup_occurrencesFrom (counts : α → Nat) (l : List α) :
    (occurrencesFrom counts l).Nodup := by
  induction l generalizing counts with
  | nil => exact List.nodup_nil
  | cons a l ih =>
    refine List.nodup_cons.mpr ⟨fun hmem => ?_, ih _⟩
    have hle := (mem_occurrencesFrom.mp hmem).1
    rw [counted, Function.update_self] at hle
    omega

theorem nodup_map_occurrences (name : α × Nat → β) :
    ((occurrences l).map name).Nodup ↔ ∀ a m, m < l.count a → ∀ b n, n < l.count b →
      name (a, m) = name (b, n) → (a, m) = (b, n) := by
  have hmem : ∀ a n, (a, n) ∈ occurrences l ↔ n < l.count a := fun a n => by
    rw [occurrences, mem_occurrencesFrom]
    omega
  rw [occurrences, List.nodup_map_iff_inj_on (nodup_occurrencesFrom _ l)]
  constructor
  · intro h a m hm b n hn heq
    exact h _ ((hmem a m).mpr hm) _ ((hmem b n).mpr hn) heq
  · rintro h ⟨a, m⟩ hm ⟨b, n⟩ hn heq
    exact h a m ((hmem a m).mp hm) b n ((hmem b n).mp hn) heq

end Memoark.Syntax
