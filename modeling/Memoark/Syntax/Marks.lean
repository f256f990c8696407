import Mathlib.Data.List.Forall2
import Mathlib.Data.List.ReduceOption

/-! Marks that start at a trigger character. What a scanner finds is what it reads at each
occurrence of the trigger, if what it takes has no trigger inside. -/
namespace Memoark.Syntax

variable {α : Type} {trigger : Char}

def lastOf (prev : Option Char) (part : List Char) : Option Char := part.getLast?.or prev

theorem lastOf_cons (prev : Option Char) (c : Char) (part : List Char) :
    lastOf prev (c :: part) = lastOf (some c) part := by
  cases part with
  | nil => rfl
  | cons d part => simp [lastOf, List.getLast?_cons]

/-- What is read at each occurrence of the trigger, from the character before it and the text
behind it. -/
def atEach (trigger : Char) (read : Option Char → List Char → Option α) :
    Option Char → List Char → List (Option α)
  | _, [] => []
  | prev, c :: cs =>
    if c = trigger then read prev cs :: atEach trigger read (some c) cs
    else atEach trigger read (some c) cs

variable {read read' : Option Char → List Char → Option α}

theorem atEach_append {part : List Char} (h : trigger ∉ part) (prev : Option Char)
    (rest : List Char) :
    atEach trigger read prev (part ++ rest) = atEach trigger read (lastOf prev part) rest := by
  induction part generalizing prev with
  | nil => rfl
  | cons c part ih =>
    have hc : c ≠ trigger := fun heq => h (heq ▸ List.mem_cons_self)
    rw [List.cons_append, atEach, if_neg hc, ih fun hmem => h (List.mem_cons_of_mem c hmem),
      lastOf_cons]

theorem map_atEach {β : Type} (f : α → β) (prev : Option Char) (text : List Char) :
    (atEach trigger read prev text).map (Option.map f) =
      atEach trigger (fun prev after => (read prev after).map f) prev text := by
  induction text generalizing prev with
  | nil => rfl
  | cons c cs ih =>
    rw [atEach, atEach]
    split
    · rw [List.map_cons, ih]
    · exact ih _

/-- At each step the scanner marks what it reads at a trigger and takes a part that has no further
trigger. -/
structure Scans (trigger : Char) (read : Option Char → List Char → Option α)
    (plain : List Char → Prop) (scan : Option Char → List Char → List α) : Prop where
  tail : ∀ c cs, plain (c :: cs) → plain cs
  nil : ∀ prev, scan prev [] = []
  step : ∀ prev c cs, plain (c :: cs) → ∃ part rest, cs = part ++ rest ∧ trigger ∉ part ∧
    scan prev (c :: cs) =
      (if c = trigger then (read prev cs).toList else []) ++ scan (lastOf (some c) part) rest

variable {plain : List Char → Prop} {scan : Option Char → List Char → List α}

theorem Scans.suffix (h : Scans trigger read plain scan) (part : List Char) {rest : List Char}
    (hplain : plain (part ++ rest)) : plain rest := by
  induction part with
  | nil => exact hplain
  | cons c part ih => exact ih (h.tail c _ hplain)

theorem Scans.eq_reduceOption (h : Scans trigger read plain scan) (prev : Option Char)
    {text : List Char} (hplain : plain text) :
    scan prev text = (atEach trigger read prev text).reduceOption := by
  induction hn : text.length using Nat.strongRecOn generalizing prev text with
  | ind n ih =>
    cases text with
    | nil => exact h.nil prev
    | cons c cs =>
      obtain ⟨part, rest, rfl, hpart, hscan⟩ := h.step prev c cs hplain
      have hrest : scan (lastOf (some c) part) rest =
          (atEach trigger read (lastOf (some c) part) rest).reduceOption := by
        refine ih rest.length ?_ _ (h.suffix part (h.tail c _ hplain)) rfl
        simp only [← hn, List.length_cons, List.length_append]
        omega
      rw [hscan, hrest, atEach, atEach_append hpart]
      split
      · cases read prev (part ++ rest) <;> simp [List.reduceOption]
      · rfl

/-- The places of the trigger in a text are its first character, if that is one, and those in the
rest. -/
theorem forall_split_cons {c : Char} {cs : List Char} {P : List Char → List Char → Prop} :
    (∀ before after, c :: cs = before ++ trigger :: after → P before after) ↔
      (c = trigger → P [] cs) ∧
        ∀ before after, cs = before ++ trigger :: after → P (c :: before) after := by
  constructor
  · intro h
    refine ⟨fun hc => h [] cs (by rw [hc]; rfl), fun before after heq => ?_⟩
    exact h (c :: before) after (by rw [heq]; rfl)
  · rintro ⟨hhead, htail⟩ before after heq
    cases before with
    | nil =>
      injection heq with hc hcs
      subst hcs
      exact hhead hc
    | cons b before =>
      injection heq with hb hcs
      subst hb
      exact htail before after hcs

/-- What two readers find is related place by place exactly if it is at each trigger. -/
theorem forall₂_atEach_iff {r : Option α → Option α → Prop} (prev : Option Char)
    (text : List Char) :
    List.Forall₂ r (atEach trigger read prev text) (atEach trigger read' prev text) ↔
      ∀ before after, text = before ++ trigger :: after →
        r (read (lastOf prev before) after) (read' (lastOf prev before) after) := by
  induction text generalizing prev with
  | nil => simp [atEach]
  | cons c cs ih =>
    rw [forall_split_cons, atEach, atEach]
    by_cases hc : c = trigger
    · rw [if_pos hc, if_pos hc, List.forall₂_cons, ih]
      simp only [hc, true_imp_iff, lastOf_cons]
      rfl
    · rw [if_neg hc, if_neg hc, ih]
      simp only [hc, false_imp_iff, true_and, lastOf_cons]

theorem atEach_eq_iff (prev : Option Char) (text : List Char) :
    atEach trigger read prev text = atEach trigger read' prev text ↔
      ∀ before after, text = before ++ trigger :: after →
        read (lastOf prev before) after = read' (lastOf prev before) after := by
  rw [← List.forall₂_eq_eq_eq]
  exact forall₂_atEach_iff prev text

theorem forall_mem_atEach {P : Option α → Prop} (prev : Option Char) (text : List Char) :
    (∀ a ∈ atEach trigger read prev text, P a) ↔
      ∀ before after, text = before ++ trigger :: after → P (read (lastOf prev before) after) := by
  induction text generalizing prev with
  | nil => simp [atEach]
  | cons c cs ih =>
    rw [forall_split_cons, atEach]
    by_cases hc : c = trigger
    · rw [if_pos hc, List.forall_mem_cons, ih]
      simp only [hc, true_imp_iff, lastOf_cons]
      rfl
    · rw [if_neg hc, ih]
      simp only [hc, false_imp_iff, true_and, lastOf_cons]

theorem reduceOption_atEach_eq_nil (prev : Option Char) (text : List Char) :
    (atEach trigger read prev text).reduceOption = [] ↔
      ∀ before after, text = before ++ trigger :: after →
        read (lastOf prev before) after = none := by
  rw [← forall_mem_atEach (P := (· = none)), List.reduceOption, List.filterMap_eq_nil_iff]
  rfl

section order

variable {as bs : List (Option α)}

theorem length_reduceOption_le
    (h : List.Forall₂ (fun a b => b.isSome = true → a.isSome = true) as bs) :
    bs.reduceOption.length ≤ as.reduceOption.length := by
  induction h with
  | nil => exact Nat.le_refl _
  | @cons a b as bs hab _ ih =>
    cases b with
    | none =>
      rw [List.reduceOption_cons_of_none]
      refine Nat.le_trans ih ?_
      cases a with
      | none => exact Nat.le_refl _
      | some a => exact Nat.le_succ _
    | some b =>
      obtain ⟨a, rfl⟩ := Option.isSome_iff_exists.mp (hab rfl)
      exact Nat.succ_le_succ ih

/-- Where one reader marks only places that the other marks too, they mark the same sequence
exactly if they agree at each place. -/
theorem reduceOption_eq_iff
    (h : List.Forall₂ (fun a b => b.isSome = true → a.isSome = true) as bs) :
    as.reduceOption = bs.reduceOption ↔ as = bs := by
  refine ⟨fun heq => ?_, fun heq => heq ▸ rfl⟩
  induction h with
  | nil => rfl
  | @cons a b as bs hab hrest ih =>
    cases b with
    | none =>
      cases a with
      | none => rw [ih heq]
      | some a =>
        -- the first sequence would be longer
        have hle := length_reduceOption_le hrest
        rw [List.reduceOption_cons_of_none, List.reduceOption_cons_of_some] at heq
        have hlength := congrArg List.length heq
        rw [List.length_cons] at hlength
        omega
    | some b =>
      obtain ⟨a, rfl⟩ := Option.isSome_iff_exists.mp (hab rfl)
      rw [List.reduceOption_cons_of_some, List.reduceOption_cons_of_some] at heq
      injection heq with hhead htail
      rw [hhead, ih htail]

end order

end Memoark.Syntax
