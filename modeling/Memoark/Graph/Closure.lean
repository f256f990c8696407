import Mathlib.Data.List.Perm.Subperm

/-! The closure of a list under a successor function, computed with a queue, as a recursive query
does it: each element enters the result and the queue once. -/
namespace Memoark.Graph

variable {α : Type} [DecidableEq α] (next : α → List α)

def fresh : List α → List α → List α
  | _, [] => []
  | seen, a :: l => if a ∈ seen then fresh seen l else a :: fresh (a :: seen) l

/-- `fuel` bounds the number of elements taken from the queue. -/
def closureLoop : Nat → List α → List α → List α
  | 0, tree, _ => tree
  | _ + 1, tree, [] => tree
  | fuel + 1, tree, a :: queue =>
    closureLoop fuel (tree ++ fresh tree (next a)) (queue ++ fresh tree (next a))

def closure (fuel : Nat) (roots : List α) : List α :=
  closureLoop next fuel (fresh [] roots) (fresh [] roots)

inductive Reachable (next : α → List α) (roots : List α) : α → Prop
  | root {a : α} : a ∈ roots → Reachable next roots a
  | next {a b : α} : Reachable next roots a → b ∈ next a → Reachable next roots b

omit [DecidableEq α] in
theorem Reachable.mono {next : α → List α} {roots roots' : List α}
    (hroots : ∀ a ∈ roots, a ∈ roots') {a : α} (h : Reachable next roots a) :
    Reachable next roots' a := by
  induction h with
  | root ha => exact .root (hroots _ ha)
  | next _ hb ih => exact .next ih hb

@[simp] theorem fresh_nil (seen : List α) : fresh seen [] = [] := rfl

theorem fresh_cons (seen : List α) (a : α) (l : List α) :
    fresh seen (a :: l) = if a ∈ seen then fresh seen l else a :: fresh (a :: seen) l := rfl

theorem mem_fresh {seen l : List α} {a : α} : a ∈ fresh seen l ↔ a ∈ l ∧ a ∉ seen := by
  induction l generalizing seen with
  | nil => simp
  | cons b l ih =>
    rw [fresh_cons]
    split
    · rw [ih]
      grind
    · rw [List.mem_cons, ih]
      grind

theorem nodup_fresh (seen l : List α) : (fresh seen l).Nodup := by
  induction l generalizing seen with
  | nil => exact List.nodup_nil
  | cons b l ih =>
    rw [fresh_cons]
    split
    · exact ih seen
    · refine List.nodup_cons.mpr ⟨fun hb => ?_, ih _⟩
      exact (mem_fresh.mp hb).2 List.mem_cons_self

theorem fresh_congr {seen seen' l : List α} (h : ∀ a, a ∈ seen ↔ a ∈ seen') :
    fresh seen l = fresh seen' l := by
  induction l generalizing seen seen' with
  | nil => rfl
  | cons b l ih =>
    have hcons : ∀ a, a ∈ b :: seen ↔ a ∈ b :: seen' := fun a => by
      rw [List.mem_cons, List.mem_cons, h a]
    rw [fresh_cons, fresh_cons, ih h, ih hcons]
    exact if_congr (h b) rfl rfl

theorem fresh_append (seen l l' : List α) :
    fresh seen (l ++ l') = fresh seen l ++ fresh (seen ++ fresh seen l) l' := by
  induction l generalizing seen with
  | nil => rw [List.nil_append, fresh_nil, List.nil_append, List.append_nil]
  | cons b l ih =>
    rw [List.cons_append, fresh_cons, fresh_cons]
    by_cases hb : b ∈ seen
    · rw [if_pos hb, if_pos hb, ih]
    · rw [if_neg hb, if_neg hb, ih, List.cons_append]
      congr 2
      refine fresh_congr fun a => ?_
      simp only [List.mem_append, List.mem_cons]
      tauto

variable {next}

/-- The loop's invariant: what is in the tree is reachable and listed once, the queue is part of
the tree, and what has left the queue has its successors in the tree. -/
structure Closing (next : α → List α) (roots tree queue : List α) : Prop where
  start_mem : ∀ a ∈ roots, a ∈ tree
  sound : ∀ a ∈ tree, Reachable next roots a
  nodup : tree.Nodup
  queueNodup : queue.Nodup
  queue_mem : ∀ a ∈ queue, a ∈ tree
  closed : ∀ a ∈ tree, a ∉ queue → ∀ b ∈ next a, b ∈ tree

theorem Closing.start (next : α → List α) (roots : List α) :
    Closing next roots (fresh [] roots) (fresh [] roots) where
  start_mem := fun _ ha => mem_fresh.mpr ⟨ha, List.not_mem_nil⟩
  sound := fun _ ha => .root (mem_fresh.mp ha).1
  nodup := nodup_fresh _ _
  queueNodup := nodup_fresh _ _
  queue_mem := fun _ ha => ha
  closed := fun _ ha hnot => absurd ha hnot

theorem Closing.pop {roots tree queue : List α} {a : α}
    (h : Closing next roots tree (a :: queue)) :
    Closing next roots (tree ++ fresh tree (next a)) (queue ++ fresh tree (next a)) := by
  have ha : a ∈ tree := h.queue_mem a List.mem_cons_self
  obtain ⟨hnot, hqueue⟩ := List.nodup_cons.mp h.queueNodup
  refine ⟨?_, ?_, ?_, ?_, ?_, ?_⟩
  · intro b hb
    exact List.mem_append_left _ (h.start_mem b hb)
  · intro b hb
    rcases List.mem_append.mp hb with hb | hb
    · exact h.sound b hb
    · exact .next (h.sound a ha) (mem_fresh.mp hb).1
  · refine List.nodup_append.mpr ⟨h.nodup, nodup_fresh _ _, ?_⟩
    rintro b hb _ hfresh rfl
    exact (mem_fresh.mp hfresh).2 hb
  · refine List.nodup_append.mpr ⟨hqueue, nodup_fresh _ _, ?_⟩
    rintro b hb _ hfresh rfl
    exact (mem_fresh.mp hfresh).2 (h.queue_mem b (List.mem_cons_of_mem _ hb))
  · intro b hb
    rcases List.mem_append.mp hb with hb | hb
    · exact List.mem_append_left _ (h.queue_mem b (List.mem_cons_of_mem _ hb))
    · exact List.mem_append_right _ hb
  · intro b hb hout c hc
    rw [List.mem_append, not_or] at hout
    have hin : b ∈ tree := by
      rcases List.mem_append.mp hb with hb | hb
      · exact hb
      · exact absurd hb hout.2
    by_cases hba : b = a
    · subst hba
      by_cases hc' : c ∈ tree
      · exact List.mem_append_left _ hc'
      · exact List.mem_append_right _ (mem_fresh.mpr ⟨hc, hc'⟩)
    · have hnotin : b ∉ a :: queue := by
        rw [List.mem_cons, not_or]
        exact ⟨hba, hout.1⟩
      exact List.mem_append_left _ (h.closed b hin hnotin c hc)

omit [DecidableEq α] in
theorem Closing.level {roots tree queue new : List α} (h : Closing next roots tree queue)
    (hnew : new.Nodup) (hunseen : ∀ a ∈ new, a ∉ tree ∧ ∃ b ∈ queue, a ∈ next b)
    (hall : ∀ b ∈ queue, ∀ a ∈ next b, a ∈ tree ∨ a ∈ new) :
    Closing next roots (tree ++ new) new where
  start_mem := fun a ha => List.mem_append_left _ (h.start_mem a ha)
  sound := by
    intro a ha
    rcases List.mem_append.mp ha with ha | ha
    · exact h.sound a ha
    · obtain ⟨-, b, hb, hnext⟩ := hunseen a ha
      exact .next (h.sound b (h.queue_mem b hb)) hnext
  nodup := by
    refine List.nodup_append.mpr ⟨h.nodup, hnew, ?_⟩
    rintro a ha _ hin rfl
    exact (hunseen a hin).1 ha
  queueNodup := hnew
  queue_mem := fun a ha => List.mem_append_right _ ha
  closed := by
    intro a ha hout b hb
    have hin : a ∈ tree := (List.mem_append.mp ha).resolve_right hout
    by_cases hqueue : a ∈ queue
    · exact List.mem_append.mpr (hall a hqueue b hb)
    · exact List.mem_append_left _ (h.closed a hin hqueue b hb)

omit [DecidableEq α] in
theorem Closing.mem_iff {roots tree : List α} (h : Closing next roots tree []) {a : α} :
    a ∈ tree ↔ Reachable next roots a := by
  refine ⟨h.sound a, fun hr => ?_⟩
  induction hr with
  | root ha => exact h.start_mem _ ha
  | next _ hb ih => exact h.closed _ ih List.not_mem_nil _ hb

theorem mem_closureLoop {all roots tree queue : List α} {fuel : Nat}
    (h : Closing next roots tree queue) (hall : ∀ a, Reachable next roots a → a ∈ all)
    (hfuel : all.length + queue.length ≤ fuel + tree.length) {a : α} :
    a ∈ closureLoop next fuel tree queue ↔ Reachable next roots a := by
  have hlength : tree.length ≤ all.length :=
    (List.subperm_of_subset h.nodup fun b hb => hall b (h.sound b hb)).length_le
  induction fuel generalizing tree queue with
  | zero =>
    have hempty : queue = [] := List.length_eq_zero_iff.mp (by omega)
    subst hempty
    exact h.mem_iff
  | succ fuel ih =>
    cases queue with
    | nil => exact h.mem_iff
    | cons b queue =>
      have hpop := h.pop
      refine ih hpop ?_ ?_
      · rw [List.length_append, List.length_append]
        rw [List.length_cons] at hfuel
        omega
      · exact (List.subperm_of_subset hpop.nodup fun b hb => hall b (hpop.sound b hb)).length_le

theorem nodup_closureLoop {roots tree queue : List α} {fuel : Nat}
    (h : Closing next roots tree queue) : (closureLoop next fuel tree queue).Nodup := by
  induction fuel generalizing tree queue with
  | zero => exact h.nodup
  | succ fuel ih =>
    cases queue with
    | nil => exact h.nodup
    | cons b queue => exact ih h.pop

theorem mem_closure {all roots : List α} (hall : ∀ a, Reachable next roots a → a ∈ all) {a : α} :
    a ∈ closure next all.length roots ↔ Reachable next roots a :=
  mem_closureLoop (.start next roots) hall (Nat.le_refl _)

end Memoark.Graph
