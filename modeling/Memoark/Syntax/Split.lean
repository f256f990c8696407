import Mathlib.Algebra.GroupWithZero.Nat
import Mathlib.Data.List.Basic

/-! Texts and separators: the places of lines in a text, and a text that is cut at a separator while
it arrives in chunks. The part behind the last separator is kept until more arrives. -/
namespace Memoark.Syntax

section lines

variable {α : Type} {s : α} {lines : List (List α)} {line : List α}

def lineStart (lines : List (List α)) (n : Nat) : Nat := ((lines.take n).map (·.length + 1)).sum

@[simp] theorem lineStart_zero (lines : List (List α)) : lineStart lines 0 = 0 := rfl

@[simp] theorem lineStart_cons (line : List α) (lines : List (List α)) (n : Nat) :
    lineStart (line :: lines) (n + 1) = line.length + 1 + lineStart lines n := by
  simp [lineStart]

theorem lineStart_succ {n : Nat} (h : lines[n]? = some line) :
    lineStart lines (n + 1) = lineStart lines n + (line.length + 1) := by
  unfold lineStart
  rw [List.take_add_one, h, Option.toList_some, List.map_append, List.sum_append]
  simp

theorem length_intercalate (s : α) (h : lines ≠ []) :
    ([s].intercalate lines).length + 1 = lineStart lines lines.length := by
  induction lines with
  | nil => exact absurd rfl h
  | cons line lines ih =>
    cases lines with
    | nil => simp
    | cons line' lines =>
      have hrest := ih (List.cons_ne_nil _ _)
      rw [List.intercalate_cons_cons, List.length_append, List.length_append, List.length_singleton,
        List.length_cons, lineStart_cons, ← hrest]
      omega

theorem drop_lineStart (s : α) {n : Nat} (h : n < lines.length) :
    ([s].intercalate lines).drop (lineStart lines n) = [s].intercalate (lines.drop n) := by
  induction n generalizing lines with
  | zero => simp
  | succ n ih =>
    cases lines with
    | nil => simp at h
    | cons line lines =>
      have hrest : n < lines.length := by simpa using h
      have hne : lines ≠ [] := by
        intro hnil
        rw [hnil] at hrest
        simp at hrest
      rw [List.intercalate_cons_of_ne_nil hne, lineStart_cons, List.drop_succ_cons, ← ih hrest,
        ← List.drop_drop]
      congr 1
      apply List.drop_left'
      simp

theorem take_drop_lineStart (s : α) {n : Nat} (h : lines[n]? = some line) :
    (([s].intercalate lines).drop (lineStart lines n)).take line.length = line := by
  obtain ⟨hn, hline⟩ := List.getElem?_eq_some_iff.mp h
  rw [drop_lineStart s hn, List.drop_eq_getElem_cons hn, hline]
  cases lines.drop (n + 1) with
  | nil => simp
  | cons line' rest => simp

theorem intercalate_set (s : α) {n k : Nat} (h : lines[n]? = some line) (hk : k < line.length)
    (a : α) : [s].intercalate (lines.set n (line.set k a)) =
      ([s].intercalate lines).set (lineStart lines n + k) a := by
  induction n generalizing lines with
  | zero =>
    cases lines with
    | nil => simp at h
    | cons line' lines =>
      obtain rfl : line' = line := by simpa using h
      cases lines with
      | nil => simp
      | cons line'' lines =>
        rw [List.set_cons_zero, List.intercalate_cons_cons, List.intercalate_cons_cons,
          List.append_assoc, List.append_assoc, lineStart_zero, Nat.zero_add,
          List.set_append_left _ _ hk]
  | succ n ih =>
    cases lines with
    | nil => simp at h
    | cons line' lines =>
      have hrest : lines[n]? = some line := by simpa using h
      have hne : lines ≠ [] := by
        intro hnil
        rw [hnil] at hrest
        simp at hrest
      have hset : lines.set n (line.set k a) ≠ [] := by simpa using hne
      rw [List.set_cons_succ, List.intercalate_cons_of_ne_nil hset,
        List.intercalate_cons_of_ne_nil hne, ih hrest, lineStart_cons,
        List.set_append_right _ _ (by simp; omega)]
      congr 2
      simp
      omega

end lines

variable {α : Type} [DecidableEq α] {s : α} {sep xs ys : List α}

/-- The parts of a text before each separator `s :: sep`, and what is behind the last one. -/
def splitLast (s : α) (sep : List α) : List α → List (List α) × List α
  | [] => ([], [])
  | x :: xs =>
    if (s :: sep).isPrefixOf (x :: xs) then
      let (parts, last) := splitLast s sep (xs.drop sep.length)
      ([] :: parts, last)
    else
      match splitLast s sep xs with
      | ([], last) => ([], x :: last)
      | (part :: parts, last) => ((x :: part) :: parts, last)
termination_by xs => xs.length
decreasing_by
  · exact Nat.lt_succ_of_le (List.drop_suffix _ _).length_le
  · exact Nat.lt_succ_self _

theorem splitLast_separator (s : α) (sep ys : List α) :
    splitLast s sep (s :: (sep ++ ys)) =
      ([] :: (splitLast s sep ys).1, (splitLast s sep ys).2) := by
  have hprefix : (s :: sep).isPrefixOf (s :: (sep ++ ys)) = true :=
    List.isPrefixOf_iff_prefix.mpr (List.prefix_append (s :: sep) ys)
  rw [splitLast, if_pos hprefix, List.drop_left]

theorem splitLast_other {x : α} (h : ¬s :: sep <+: x :: xs) :
    splitLast s sep (x :: xs) =
      match splitLast s sep xs with
      | ([], last) => ([], x :: last)
      | (part :: parts, last) => ((x :: part) :: parts, last) := by
  rw [splitLast, if_neg fun hprefix => h (List.isPrefixOf_iff_prefix.mp hprefix)]

/-- Where nothing is cut off, all of the text is kept. -/
theorem splitLast_nil {last : List α} (h : splitLast s sep xs = ([], last)) : last = xs := by
  induction xs generalizing last with
  | nil =>
    rw [splitLast] at h
    exact (Prod.mk.inj h).2.symm
  | cons x xs ih =>
    by_cases hprefix : s :: sep <+: x :: xs
    · obtain ⟨ys, hys⟩ := hprefix
      rw [← hys, List.cons_append, splitLast_separator] at h
      cases h
    · rw [splitLast_other hprefix] at h
      cases hxs : splitLast s sep xs with
      | mk parts last' =>
        rw [hxs] at h
        cases parts with
        | nil =>
          rw [← ih hxs]
          exact (Prod.mk.inj h).2.symm
        | cons part parts => cases h

theorem length_of_part {part : List α} {parts : List (List α)} {last : List α}
    (h : splitLast s sep xs = (part :: parts, last)) : sep.length < xs.length := by
  induction xs generalizing part parts last with
  | nil =>
    rw [splitLast] at h
    cases h
  | cons x xs ih =>
    by_cases hprefix : s :: sep <+: x :: xs
    · exact hprefix.length_le
    · rw [splitLast_other hprefix] at h
      cases hxs : splitLast s sep xs with
      | mk parts' last' =>
        rw [hxs] at h
        cases parts' with
        | nil => cases h
        | cons part' parts' => exact Nat.lt_succ_of_lt (ih hxs)

/-- More text is cut together with what is behind the last separator. -/
theorem splitLast_append (xs ys : List α) : splitLast s sep (xs ++ ys) =
    ((splitLast s sep xs).1 ++ (splitLast s sep ((splitLast s sep xs).2 ++ ys)).1,
      (splitLast s sep ((splitLast s sep xs).2 ++ ys)).2) := by
  induction hn : xs.length using Nat.strongRecOn generalizing xs with
  | ind n ih =>
    cases xs with
    | nil => simp [splitLast]
    | cons x xs =>
      by_cases hprefix : s :: sep <+: x :: xs
      · obtain ⟨zs, hzs⟩ := hprefix
        have hlen : zs.length < n := by
          rw [← hn, ← hzs, List.length_append, List.length_cons]
          omega
        rw [← hzs, List.cons_append, List.cons_append, List.append_assoc, splitLast_separator,
          splitLast_separator, ih zs.length hlen zs rfl]
        rfl
      · rw [splitLast_other hprefix]
        cases hxs : splitLast s sep xs with
        | mk parts last =>
          cases parts with
          | nil =>
            rw [splitLast_nil hxs]
            rfl
          | cons part parts =>
            -- a separator that starts here would end within what is here
            have hnot : ¬s :: sep <+: x :: (xs ++ ys) := by
              intro hmore
              refine hprefix (List.prefix_of_prefix_length_le hmore
                (List.prefix_append (x :: xs) ys) ?_)
              exact Nat.succ_le_succ (Nat.le_of_lt (length_of_part hxs))
            have hrest := ih xs.length (by rw [← hn]; exact Nat.lt_succ_self _) xs rfl
            rw [List.cons_append, splitLast_other hnot, hrest, hxs]
            rfl

theorem splitLast_of_not_infix (h : ¬s :: sep <:+: xs) : splitLast s sep xs = ([], xs) := by
  induction xs with
  | nil => rw [splitLast]
  | cons x xs ih =>
    have hprefix : ¬s :: sep <+: x :: xs := fun hprefix => h hprefix.isInfix
    have hrest : ¬s :: sep <:+: xs := fun hinfix => h (List.infix_cons hinfix)
    rw [splitLast_other hprefix, ih hrest]

/-- A part without the first character of the separator ends at the separator. -/
theorem splitLast_part {part : List α} (h : s ∉ part) (ys : List α) :
    splitLast s sep (part ++ s :: (sep ++ ys)) =
      (part :: (splitLast s sep ys).1, (splitLast s sep ys).2) := by
  induction part with
  | nil => exact splitLast_separator s sep ys
  | cons x part ih =>
    have hprefix : ¬s :: sep <+: x :: (part ++ s :: (sep ++ ys)) := by
      intro hprefix
      obtain rfl := (List.cons_prefix_cons.mp hprefix).1
      exact h List.mem_cons_self
    rw [List.cons_append, splitLast_other hprefix, ih fun hmem => h (List.mem_cons_of_mem x hmem)]

end Memoark.Syntax
