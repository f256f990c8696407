import Mathlib.Data.List.Infix

/-! Parts of a text that is cut at an element, such as the quotes around strings: a part that has
the element at its ends only lies between two cuts. -/
namespace Memoark.Logic.Quotes

variable {α : Type} {q : α} {w x y : List α}

def Uncut (q : α) (w : List α) : Prop := ∀ l r, w = l ++ q :: r → l = [] ∨ r = []

theorem uncut_of_notMem (h : q ∉ w) : Uncut q w := by
  rintro l r rfl
  exact absurd (List.mem_append_right l List.mem_cons_self) h

theorem Uncut.cons (h : q ∉ w) : Uncut q (q :: w) := by
  intro l r heq
  cases l with
  | nil => exact .inl rfl
  | cons a l =>
    injection heq with _ hw
    exact absurd (hw ▸ List.mem_append_right l List.mem_cons_self) h

theorem Uncut.concat (h : q ∉ w) : Uncut q (w ++ [q]) := by
  intro l r heq
  rcases List.eq_nil_or_concat' r with rfl | ⟨r, b, rfl⟩
  · exact .inr rfl
  · rw [← List.cons_append, ← List.append_assoc] at heq
    obtain ⟨hw, -⟩ := List.append_inj' heq rfl
    exact absurd (hw ▸ List.mem_append_right l List.mem_cons_self) h

theorem Uncut.enclosed (h : q ∉ w) : Uncut q (q :: w ++ [q]) := by
  intro l r heq
  cases l with
  | nil => exact .inl rfl
  | cons a l =>
    injection heq with _ hw
    rcases Uncut.concat h l r hw with rfl | hr
    · right
      cases w with
      | nil =>
        injection hw with _ hr
        exact hr.symm
      | cons b w =>
        injection hw with hb _
        exact absurd (hb ▸ List.mem_cons_self) h
    · exact .inr hr

theorem infix_cut (h : Uncut q w) : w <:+: x ++ q :: y ↔ w <:+: x ++ [q] ∨ w <:+: q :: y := by
  constructor
  · intro hw
    rcases List.infix_append_iff.mp hw with hx | hy | ⟨a, b, rfl, ha, hb⟩
    · exact .inl (hx.trans (List.prefix_append x [q]).isInfix)
    · exact .inr hy
    · cases b with
      | nil =>
        rw [List.append_nil]
        exact .inl (ha.isInfix.trans (List.prefix_append x [q]).isInfix)
      | cons c b =>
        obtain ⟨rfl, -⟩ := List.cons_prefix_cons.mp hb
        rcases h a b rfl with rfl | rfl
        · exact .inr hb.isInfix
        · exact .inl ((List.suffix_append_inj_of_length_eq rfl).mpr ⟨ha, rfl⟩).isInfix
  · rintro (hx | hy)
    · refine hx.trans ⟨[], y, ?_⟩
      rw [List.nil_append, List.append_assoc]
      rfl
    · exact hy.trans (List.suffix_append x (q :: y)).isInfix

section array

variable {sep close : List α} {bodies : List (List α)}

/-- What follows the first quoted body: further ones behind separators, and the end. -/
def following (q : α) (sep close : List α) : List (List α) → List α
  | [] => close
  | b :: bs => sep ++ q :: (b ++ q :: following q sep close bs)

@[simp] theorem following_cons (b : List α) (bs : List (List α)) :
    following q sep close (b :: bs) = sep ++ q :: (b ++ q :: following q sep close bs) := rfl

def array (q : α) (opening sep close : List α) : List (List α) → List α
  | [] => opening ++ close
  | b :: bs => opening ++ q :: (b ++ q :: following q sep close bs)

@[simp] theorem array_cons (opening b : List α) (bs : List (List α)) :
    array q opening sep close (b :: bs) =
      opening ++ q :: (b ++ q :: following q sep close bs) := rfl

theorem infix_following (h : Uncut q w) (bodies : List (List α)) :
    w <:+: q :: following q sep close bodies ↔
      (∃ b ∈ bodies, w <:+: q :: b ++ [q]) ∨ (bodies ≠ [] ∧ w <:+: q :: sep ++ [q]) ∨
        w <:+: q :: close := by
  induction bodies with
  | nil => simp [following]
  | cons b bs ih =>
    rw [following_cons, ← List.cons_append, infix_cut h, ← List.cons_append,
      infix_cut h (y := following q sep close bs), ih]
    constructor
    · rintro (hsep | hb | ⟨b', hmem, hb'⟩ | ⟨-, hsep⟩ | hclose)
      · exact .inr (.inl ⟨List.cons_ne_nil b bs, hsep⟩)
      · exact .inl ⟨b, List.mem_cons_self, hb⟩
      · exact .inl ⟨b', List.mem_cons_of_mem b hmem, hb'⟩
      · exact .inr (.inl ⟨List.cons_ne_nil b bs, hsep⟩)
      · exact .inr (.inr hclose)
    · rintro (⟨b', hmem, hb'⟩ | ⟨-, hsep⟩ | hclose)
      · rcases List.mem_cons.mp hmem with rfl | hmem
        · exact .inr (.inl hb')
        · exact .inr (.inr (.inl ⟨b', hmem, hb'⟩))
      · exact .inl hsep
      · exact .inr (.inr (.inr (.inr hclose)))

/-- A part without a cut inside lies in one body with its quotes, or between two bodies. -/
theorem infix_array (h : Uncut q w) (opening : List α) {b : List α} {bs : List (List α)} :
    w <:+: array q opening sep close (b :: bs) ↔
      (∃ b' ∈ b :: bs, w <:+: q :: b' ++ [q]) ∨ w <:+: opening ++ [q] ∨ w <:+: q :: close ∨
        (bs ≠ [] ∧ w <:+: q :: sep ++ [q]) := by
  rw [array_cons, infix_cut h, ← List.cons_append, infix_cut h (y := following q sep close bs),
    infix_following h]
  constructor
  · rintro (hopen | hb | ⟨b', hmem, hb'⟩ | hsep | hclose)
    · exact .inr (.inl hopen)
    · exact .inl ⟨b, List.mem_cons_self, hb⟩
    · exact .inl ⟨b', List.mem_cons_of_mem b hmem, hb'⟩
    · exact .inr (.inr (.inr hsep))
    · exact .inr (.inr (.inl hclose))
  · rintro (⟨b', hmem, hb'⟩ | hopen | hclose | hsep)
    · rcases List.mem_cons.mp hmem with rfl | hmem
      · exact .inr (.inl hb')
      · exact .inr (.inr (.inl ⟨b', hmem, hb'⟩))
    · exact .inl hopen
    · exact .inr (.inr (.inr (.inr hclose)))
    · exact .inr (.inr (.inr (.inl hsep)))

theorem map_following {β : Type} (f : α → β) (q : α) (sep close : List α)
    (bodies : List (List α)) : (following q sep close bodies).map f =
      following (f q) (sep.map f) (close.map f) (bodies.map (·.map f)) := by
  induction bodies with
  | nil => rfl
  | cons b bs ih => simp [ih]

theorem map_array {β : Type} (f : α → β) (q : α) (opening sep close : List α)
    (bodies : List (List α)) : (array q opening sep close bodies).map f =
      array (f q) (opening.map f) (sep.map f) (close.map f) (bodies.map (·.map f)) := by
  cases bodies with
  | nil => exact List.map_append
  | cons b bs => simp [map_following]

end array

end Memoark.Logic.Quotes
