import Mathlib.Data.List.Nodup
import Mathlib.Order.Lattice
import Mathlib.Tactic.Common

/-! Pages by limit and offset of a listing whose order leaves ties open. -/
namespace Memoark.Paging

section prefixes

variable {α : Type} {P : α → Bool} {l : List α}

theorem filter_eq_take (h : l.Pairwise fun a b => P b → P a) : l.filter P = l.take (l.countP P) := by
  induction l with
  | nil => rfl
  | cons a l ih =>
    obtain ⟨hhead, htail⟩ := List.pairwise_cons.mp h
    by_cases ha : P a = true
    · rw [List.filter_cons_of_pos ha, List.countP_cons_of_pos ha, List.take_succ_cons, ih htail]
    · have hnone : l.countP P = 0 := List.countP_eq_zero.mpr fun b hb hPb => ha (hhead b hb hPb)
      rw [List.filter_cons_of_neg ha, List.countP_cons_of_neg ha, ih htail, hnone]
      rfl

theorem getElem_iff_lt_countP (h : l.Pairwise fun a b => P b → P a) {i : Nat}
    (hi : i < l.length) : P l[i] ↔ i < l.countP P := by
  induction l generalizing i with
  | nil => exact absurd hi (by simp)
  | cons a l ih =>
    obtain ⟨hhead, htail⟩ := List.pairwise_cons.mp h
    by_cases ha : P a = true
    · rw [List.countP_cons_of_pos ha]
      cases i with
      | zero => simp [ha]
      | succ i =>
        have hrest := ih htail (i := i) (by simpa using hi)
        rw [List.getElem_cons_succ, hrest]
        omega
    · have hnone : ∀ b ∈ l, ¬ P b := fun b hb hPb => ha (hhead b hb hPb)
      rw [List.countP_cons_of_neg ha, List.countP_eq_zero.mpr hnone]
      cases i with
      | zero => simp [ha]
      | succ i =>
        have hi : i < l.length := by simpa using hi
        have hrest := hnone l[i] (List.getElem_mem hi)
        simp [hrest]

end prefixes

section listings

variable {α κ : Type} [LinearOrder κ] (key : α → κ)

/-- An order in which rows may be listed by a key, the greatest first. -/
structure Listing (rows l : List α) : Prop where
  perm : l.Perm rows
  sorted : l.Pairwise fun a b => key b ≤ key a

def above (rows : List α) (t : κ) : Nat := rows.countP fun a => t < key a

def atLeast (rows : List α) (t : κ) : Nat := rows.countP fun a => t ≤ key a

def Straddles (rows : List α) (place : Nat) : Prop :=
  ∃ t, above key rows t < place ∧ place < atLeast key rows t

def pages (limit : Nat) (listings : Nat → List α) (n : Nat) : List α :=
  (List.range n).flatMap fun j => ((listings j).drop (j * limit)).take limit

variable {key} {rows l l' : List α} {limit place : Nat}

theorem listing_mergeSort (key : α → κ) (rows : List α) :
    Listing key rows (rows.mergeSort fun a b => key b ≤ key a) where
  perm := List.mergeSort_perm rows _
  sorted := by
    have hsorted : (rows.mergeSort fun a b => key b ≤ key a).Pairwise
        fun a b => decide (key b ≤ key a) = true := by
      apply List.pairwise_mergeSort
      · intro a b c hab hbc
        exact decide_eq_true (le_trans (of_decide_eq_true hbc) (of_decide_eq_true hab))
      · intro a b
        rw [Bool.or_eq_true, decide_eq_true_eq, decide_eq_true_eq]
        exact le_total (key b) (key a)
    apply hsorted.imp
    intro a b hab
    exact of_decide_eq_true hab

theorem Listing.eq_of_pairwise (h : Listing key rows l) (hperm : l'.Perm rows)
    (horder : l'.Pairwise fun a b => key b < key a) : l = l' := by
  have hkeys : (l'.map key).Nodup := List.pairwise_map.mpr (horder.imp fun hlt => hlt.ne')
  apply (h.perm.trans hperm.symm).eq_of_pairwise _ h.sorted (horder.imp le_of_lt)
  intro a b ha hb hba hab
  have ha' : a ∈ l' := hperm.mem_iff.mpr (h.perm.mem_iff.mp ha)
  exact List.inj_on_of_nodup_map hkeys ha' hb (le_antisymm hab hba)

theorem Listing.countP_above (h : Listing key rows l) (t : κ) :
    l.countP (fun a => t < key a) = above key rows t := h.perm.countP_eq _

theorem Listing.countP_atLeast (h : Listing key rows l) (t : κ) :
    l.countP (fun a => t ≤ key a) = atLeast key rows t := h.perm.countP_eq _

theorem Listing.sorted_above (h : Listing key rows l) (t : κ) :
    l.Pairwise fun a b => decide (t < key b) = true → decide (t < key a) = true := by
  apply h.sorted.imp
  intro a b hle hb
  exact decide_eq_true (lt_of_lt_of_le (of_decide_eq_true hb) hle)

theorem Listing.sorted_atLeast (h : Listing key rows l) (t : κ) :
    l.Pairwise fun a b => decide (t ≤ key b) = true → decide (t ≤ key a) = true := by
  apply h.sorted.imp
  intro a b hle hb
  exact decide_eq_true (le_trans (of_decide_eq_true hb) hle)

theorem Listing.above_eq (h : Listing key rows l) (hplace : place < l.length)
    (hties : ¬ Straddles key rows place) : ∃ t, above key rows t = place := by
  refine ⟨key l[place], ?_⟩
  have hhere : place < atLeast key rows (key l[place]) := by
    rw [← h.countP_atLeast, ← getElem_iff_lt_countP (h.sorted_atLeast _) hplace]
    exact decide_eq_true (le_refl _)
  have hbefore : ¬ place < above key rows (key l[place]) := by
    rw [← h.countP_above, ← getElem_iff_lt_countP (h.sorted_above _) hplace]
    simp
  by_contra hne
  apply hties
  exact ⟨key l[place], by omega, hhere⟩

theorem Listing.take_perm (h : Listing key rows l) (h' : Listing key rows l')
    (hties : ¬ Straddles key rows place) : (l.take place).Perm (l'.take place) := by
  have hlength : l.length = l'.length := (h.perm.trans h'.perm.symm).length_eq
  by_cases hplace : place < l.length
  · obtain ⟨t, ht⟩ := h.above_eq hplace hties
    have htake : l.take place = l.filter fun a => t < key a := by
      rw [filter_eq_take (h.sorted_above t), h.countP_above, ht]
    have htake' : l'.take place = l'.filter fun a => t < key a := by
      rw [filter_eq_take (h'.sorted_above t), h'.countP_above, ht]
    rw [htake, htake']
    exact (h.perm.trans h'.perm.symm).filter _
  · rw [List.take_of_length_le (by omega), List.take_of_length_le (by omega)]
    exact h.perm.trans h'.perm.symm

theorem Listing.page_perm (h : Listing key rows l) (h' : Listing key rows l')
    (hstart : ¬ Straddles key rows place) (hend : ¬ Straddles key rows (place + limit)) :
    ((l.drop place).take limit).Perm ((l'.drop place).take limit) := by
  have hboth := h.take_perm h' hend
  rw [List.take_add, List.take_add] at hboth
  have hfirst := (h.take_perm h' hstart).append_right ((l'.drop place).take limit)
  exact (List.perm_append_left_iff _).mp (hboth.trans hfirst.symm)

theorem pages_succ (listings : Nat → List α) (n : Nat) : pages limit listings (n + 1) =
    pages limit listings n ++ ((listings n).drop (n * limit)).take limit := by
  rw [pages, List.range_succ, List.flatMap_append, List.flatMap_singleton]
  rfl

theorem pages_perm_take (h : Listing key rows l) {listings : Nat → List α}
    (hlistings : ∀ j, Listing key rows (listings j))
    (hties : ∀ j, ¬ Straddles key rows (j * limit)) (n : Nat) :
    (pages limit listings n).Perm (l.take (n * limit)) := by
  induction n with
  | zero => simp [pages]
  | succ n ih =>
    have hend : ¬ Straddles key rows (n * limit + limit) := by
      rw [← Nat.succ_mul]
      exact hties (n + 1)
    have hpage := (hlistings n).page_perm h (hties n) hend
    rw [pages_succ, Nat.succ_mul, List.take_add]
    exact ih.append hpage

theorem pages_perm {listings : Nat → List α} (hlistings : ∀ j, Listing key rows (listings j))
    (hties : ∀ j, ¬ Straddles key rows (j * limit)) {n : Nat} (hn : rows.length ≤ n * limit) :
    (pages limit listings n).Perm rows := by
  have htake := pages_perm_take (hlistings 0) hlistings hties n
  rw [List.take_of_length_le ((hlistings 0).perm.length_eq ▸ hn)] at htake
  exact htake.trans (hlistings 0).perm

/-- Two rows of one key that stand side by side may change places. -/
theorem Listing.swap {before after : List α} {a b : α}
    (h : Listing key rows (before ++ a :: b :: after)) (hkey : key a = key b) :
    Listing key rows (before ++ b :: a :: after) := by
  have hswap : (before ++ b :: a :: after).Perm (before ++ a :: b :: after) :=
    (List.Perm.swap a b after).append_left before
  obtain ⟨hbefore, hlater, hcross⟩ := List.pairwise_append.mp h.sorted
  obtain ⟨ha, hb, hafter⟩ : (∀ c ∈ b :: after, key c ≤ key a) ∧ (∀ c ∈ after, key c ≤ key b) ∧
      after.Pairwise fun a b => key b ≤ key a := by
    obtain ⟨ha, hrest⟩ := List.pairwise_cons.mp hlater
    exact ⟨ha, List.pairwise_cons.mp hrest⟩
  refine ⟨hswap.trans h.perm, List.pairwise_append.mpr ⟨hbefore, ?_, ?_⟩⟩
  · refine List.pairwise_cons.mpr ⟨?_, List.pairwise_cons.mpr ⟨?_, hafter⟩⟩
    · intro c hc
      rcases List.mem_cons.mp hc with rfl | hc
      · exact le_of_eq hkey
      · exact hb c hc
    · intro c hc
      exact ha c (List.mem_cons_of_mem b hc)
  · intro c hc d hd
    exact hcross c hc d ((List.Perm.swap a b after).mem_iff.mp hd)

theorem Listing.split (h : Listing key rows l) (hties : Straddles key rows place) :
    ∃ before a b after, l = before ++ a :: b :: after ∧ before.length + 1 = place ∧
      key a = key b := by
  obtain ⟨t, habove, hatLeast⟩ := hties
  have hlength : place < l.length := by
    have hle : l.countP (fun a => t ≤ key a) ≤ l.length := List.countP_le_length
    rw [h.countP_atLeast] at hle
    omega
  have hkey : ∀ i (hi : i < l.length), above key rows t ≤ i → i < atLeast key rows t →
      key l[i] = t := by
    intro i hi hlower hupper
    have hle : t ≤ key l[i] := by
      have hiff := getElem_iff_lt_countP (h.sorted_atLeast t) hi
      rw [h.countP_atLeast] at hiff
      exact of_decide_eq_true (hiff.mpr hupper)
    have hnot : ¬ t < key l[i] := by
      intro hlt
      have hiff := getElem_iff_lt_countP (h.sorted_above t) hi
      rw [h.countP_above] at hiff
      have := hiff.mp (decide_eq_true hlt)
      omega
    exact le_antisymm (not_lt.mp hnot) hle
  have hpred : place - 1 < l.length := by omega
  refine ⟨l.take (place - 1), l[place - 1], l[place], l.drop (place + 1), ?_, ?_, ?_⟩
  · have hnext : l[place] :: l.drop (place + 1) = l.drop place := List.getElem_cons_drop hlength
    have hthis : l[place - 1] :: l.drop (place - 1 + 1) = l.drop (place - 1) :=
      List.getElem_cons_drop hpred
    have hplace : place - 1 + 1 = place := by omega
    rw [hplace] at hthis
    rw [hnext, hthis, List.take_append_drop]
  · rw [List.length_take_of_le (by omega)]
    omega
  · rw [hkey (place - 1) hpred (by omega) (by omega), hkey place hlength (by omega) hatLeast]

/-- With ties over the end of a page, the pages can show a row twice. -/
theorem exists_pages_not_nodup (h : Listing key rows l) (hlimit : 0 < limit) {j : Nat}
    (hties : Straddles key rows (j * limit)) :
    ∃ listings : Nat → List α, (∀ i, Listing key rows (listings i)) ∧
      ∀ n, rows.length ≤ n * limit → ¬ (pages limit listings n).Nodup := by
  obtain ⟨before, a, b, after, rfl, hplace, hkey⟩ := h.split hties
  have hj : 0 < j := by
    by_contra hzero
    have : j = 0 := by omega
    subst this
    omega
  have hpred : (j - 1) * limit + limit = j * limit := by
    rw [← Nat.succ_mul]
    congr 1
    omega
  refine ⟨fun i => if i < j then before ++ a :: b :: after else before ++ b :: a :: after, ?_, ?_⟩
  · intro i
    dsimp only
    split
    · exact h
    · exact h.swap hkey
  · intro n hn hnodup
    have hlength := h.perm.length_eq
    rw [List.length_append, List.length_cons, List.length_cons] at hlength
    have hjn : j < n := by
      by_contra hle
      have := Nat.mul_le_mul_right limit (Nat.le_of_not_lt hle)
      omega
    have hdisjoint := (List.nodup_flatMap.mp hnodup).2
    have hpages := List.pairwise_iff_getElem.mp hdisjoint (j - 1) j (by simp; omega)
      (by simpa using hjn) (by omega)
    -- The row before the place is on the page that ends there and on the next one.
    refine hpages (a := a) ?_ ?_
    · have hindex : (j - 1) * limit + (limit - 1) - before.length = 0 := by omega
      simp only [List.getElem_range]
      rw [if_pos (by omega)]
      apply List.mem_iff_getElem?.mpr
      refine ⟨limit - 1, ?_⟩
      rw [List.getElem?_take_of_lt (by omega), List.getElem?_drop,
        List.getElem?_append_right (by omega), hindex]
      rfl
    · have hindex : j * limit + 0 - before.length = 1 := by omega
      simp only [List.getElem_range]
      rw [if_neg (by omega)]
      apply List.mem_iff_getElem?.mpr
      refine ⟨0, ?_⟩
      rw [List.getElem?_take_of_lt hlimit, List.getElem?_drop,
        List.getElem?_append_right (by omega), hindex]
      rfl

end listings

end Memoark.Paging
