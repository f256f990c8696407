import Mathlib.Data.List.Forall2

/-! Labelled systems whose steps are computed: runs, the states that the runs under a condition
reach, and invariants along such runs. -/
namespace Memoark.System

/-- All nondeterminism is in the labels; `none` is a label that is not enabled. -/
structure LabelledSystem (σ α : Type) where
  init : σ → Prop
  step : σ → α → Option σ

namespace LabelledSystem

variable {σ α : Type} (S : LabelledSystem σ α)

def run : σ → List α → Option σ
  | s, [] => some s
  | s, a :: as => (S.step s a).bind fun s' => run s' as

inductive Reaches (C : σ → α → Prop) : σ → Prop
  | init {s : σ} : S.init s → Reaches C s
  | step {s s' : σ} {a : α} : Reaches C s → C s a → S.step s a = some s' → Reaches C s'

variable {S}

theorem Reaches.invariant {C : σ → α → Prop} {I : σ → Prop} {s : σ} (h : S.Reaches C s)
    (hinit : ∀ s, S.init s → I s)
    (hstep : ∀ s a s', I s → C s a → S.step s a = some s' → I s') : I s := by
  induction h with
  | init hs => exact hinit _ hs
  | step _ hc hs ih => exact hstep _ _ _ ih hc hs

def Meets (S : LabelledSystem σ α) (C : σ → α → Prop) : σ → List α → Prop
  | _, [] => True
  | s, a :: as =>
    C s a ∧
      match S.step s a with
      | some s' => S.Meets C s' as
      | none => True

theorem Reaches.run {C : σ → α → Prop} {s s' : σ} {as : List α} (h : S.Reaches C s)
    (hm : S.Meets C s as) (hrun : S.run s as = some s') : S.Reaches C s' := by
  induction as generalizing s with
  | nil =>
    obtain rfl : s = s' := by simpa [LabelledSystem.run] using hrun
    exact h
  | cons a as ih =>
    obtain ⟨t, ht, hrest⟩ := Option.bind_eq_some_iff.mp hrun
    obtain ⟨hc, hm⟩ := hm
    rw [ht] at hm
    exact ih (.step h hc ht) hm hrest

theorem meets_of_invariant {C : σ → α → Prop} {I : σ → Prop} {s : σ} {as : List α} (hs : I s)
    (hC : ∀ s, ∀ a ∈ as, I s → C s a)
    (hstep : ∀ s, ∀ a ∈ as, ∀ s', I s → S.step s a = some s' → I s') : S.Meets C s as := by
  induction as generalizing s with
  | nil => trivial
  | cons a as ih =>
    refine ⟨hC s a List.mem_cons_self hs, ?_⟩
    cases ht : S.step s a with
    | none => trivial
    | some t =>
      exact ih (hstep s a List.mem_cons_self t hs ht)
        (fun s b hb => hC s b (List.mem_cons_of_mem a hb))
        fun s b hb => hstep s b (List.mem_cons_of_mem a hb)

theorem meets_of_forall {C : σ → α → Prop} {as : List α} (h : ∀ a ∈ as, ∀ s, C s a) (s : σ) :
    S.Meets C s as :=
  meets_of_invariant (I := fun _ => True) trivial (fun s a ha _ => h a ha s)
    fun _ _ _ _ _ _ => trivial

theorem meets_true (s : σ) (as : List α) : S.Meets (fun _ _ => True) s as :=
  meets_of_forall (fun _ _ _ => trivial) s

theorem run_cons {s t : σ} {a : α} (h : S.step s a = some t) (as : List α) :
    S.run s (a :: as) = S.run t as := by
  rw [run, h]
  rfl

theorem Meets.run_history {C : σ → α → Prop} {I : List α → σ → Prop} {s s' : σ} {as : List α}
    (hm : S.Meets C s as) (hrun : S.run s as = some s') (hinit : I [] s)
    (hstep : ∀ before s a s', I before s → C s a → S.step s a = some s' → I (before ++ [a]) s') :
    I as s' := by
  suffices h : ∀ before s, I before s → S.Meets C s as → S.run s as = some s' →
      I (before ++ as) s' from h [] s hinit hm hrun
  clear hinit hm hrun
  induction as with
  | nil =>
    intro before s hs _ hrun
    obtain rfl : s = s' := by simpa [run] using hrun
    rw [List.append_nil]
    exact hs
  | cons a as ih =>
    intro before s hs hm hrun
    obtain ⟨t, ht, hrest⟩ := Option.bind_eq_some_iff.mp hrun
    obtain ⟨hc, hm⟩ := hm
    rw [ht] at hm
    have happ := ih (before ++ [a]) t (hstep before s a t hs hc ht) hm hrest
    rw [List.append_assoc] at happ
    exact happ

theorem run_history {I : List α → σ → Prop} {s s' : σ} {as : List α} (hrun : S.run s as = some s')
    (hinit : I [] s)
    (hstep : ∀ before s a s', I before s → S.step s a = some s' → I (before ++ [a]) s') :
    I as s' :=
  (meets_true s as).run_history hrun hinit fun before s a s' hI _ => hstep before s a s' hI

theorem run_related {R : σ → σ → Prop} {L : α → α → Prop} {s s' t t' : σ} {as as' : List α}
    (has : List.Forall₂ L as as') (hs : R s s') (hrun : S.run s as = some t)
    (hrun' : S.run s' as' = some t')
    (hstep : ∀ s s' a a' t t', R s s' → L a a' → S.step s a = some t → S.step s' a' = some t' →
      R t t') : R t t' := by
  induction has generalizing s s' with
  | nil =>
    obtain rfl : s = t := by simpa [run] using hrun
    obtain rfl : s' = t' := by simpa [run] using hrun'
    exact hs
  | cons ha _ ih =>
    obtain ⟨u, hu, hrest⟩ := Option.bind_eq_some_iff.mp hrun
    obtain ⟨u', hu', hrest'⟩ := Option.bind_eq_some_iff.mp hrun'
    exact ih (hstep _ _ _ _ u u' hs ha hu hu') hrest hrest'

def Throughout (S : LabelledSystem σ α) (P : σ → Prop) : σ → List α → Prop
  | s, [] => P s
  | s, a :: as =>
    P s ∧
      match S.step s a with
      | some s' => S.Throughout P s' as
      | none => True

theorem Meets.throughout {C : σ → α → Prop} {I P : σ → Prop} {s : σ} {as : List α}
    (hm : S.Meets C s as) (hs : I s) (hP : ∀ s, I s → P s)
    (hstep : ∀ s a s', I s → C s a → S.step s a = some s' → I s') : S.Throughout P s as := by
  induction as generalizing s with
  | nil => exact hP s hs
  | cons a as ih =>
    obtain ⟨hc, hm⟩ := hm
    refine ⟨hP s hs, ?_⟩
    cases ht : S.step s a with
    | none => trivial
    | some t =>
      rw [ht] at hm
      exact ih hm (hstep s a t hs hc ht)

theorem Throughout.head {P : σ → Prop} {s : σ} {as : List α} (h : S.Throughout P s as) : P s := by
  cases as with
  | nil => exact h
  | cons a as => exact h.1

theorem Throughout.last {P : σ → Prop} {s s' : σ} {as : List α} (h : S.Throughout P s as)
    (hrun : S.run s as = some s') : P s' := by
  induction as generalizing s with
  | nil =>
    obtain rfl : s = s' := by simpa [LabelledSystem.run] using hrun
    exact h
  | cons a as ih =>
    obtain ⟨t, ht, hrest⟩ := Option.bind_eq_some_iff.mp hrun
    obtain ⟨-, h⟩ := h
    rw [ht] at h
    exact ih h hrest

theorem throughout_cons {P : σ → Prop} {s t : σ} {a : α} (h : S.step s a = some t) (as : List α) :
    S.Throughout P s (a :: as) ↔ P s ∧ S.Throughout P t as := by
  rw [Throughout, h]

/-- Where a step that breaks the condition leads to a state without the property. -/
theorem Throughout.meets {C : σ → α → Prop} {I P : σ → Prop} {s : σ} {as : List α}
    (h : S.Throughout P s as) (hs : I s)
    (hstep : ∀ s a s', I s → C s a → S.step s a = some s' → I s')
    (hbad : ∀ s a, I s → ¬C s a → ∃ s', S.step s a = some s' ∧ ¬P s') : S.Meets C s as := by
  induction as generalizing s with
  | nil => trivial
  | cons a as ih =>
    obtain ⟨_, h⟩ := h
    have hc : C s a := by
      apply Classical.byContradiction
      intro hc
      obtain ⟨t, ht, hnot⟩ := hbad s a hs hc
      rw [ht] at h
      exact hnot h.head
    refine ⟨hc, ?_⟩
    cases ht : S.step s a with
    | none => trivial
    | some t =>
      rw [ht] at h
      exact ih h (hstep s a t hs hc ht)

theorem Throughout.invariant {C : σ → α → Prop} {P I : σ → Prop} {s s' : σ} {as : List α}
    (h : S.Throughout P s as) (hm : S.Meets C s as) (hrun : S.run s as = some s') (hs : I s)
    (hstep : ∀ s a s', I s → C s a → P s' → S.step s a = some s' → I s') : I s' := by
  induction as generalizing s with
  | nil =>
    obtain rfl : s = s' := by simpa [LabelledSystem.run] using hrun
    exact hs
  | cons a as ih =>
    obtain ⟨t, ht, hrest⟩ := Option.bind_eq_some_iff.mp hrun
    obtain ⟨hc, hm⟩ := hm
    obtain ⟨-, h⟩ := h
    rw [ht] at hm h
    exact ih h hm hrest (hstep s a t hs hc h.head ht)

def tracked {η : Type} (S : LabelledSystem σ α) (start : η) (record : η → σ → α → η) :
    LabelledSystem (σ × η) α where
  init s := S.init s.1 ∧ s.2 = start
  step s a := (S.step s.1 a).map fun s' => (s', record s.2 s.1 a)

theorem Meets.throughout_tracked {η : Type} {start : η} {record : η → σ → α → η}
    {C : σ × η → α → Prop} {I : σ × η → Prop} {P : σ → Prop} {s : σ} {h : η} {as : List α}
    (hm : (S.tracked start record).Meets C (s, h) as) (hs : I (s, h)) (hP : ∀ s h, I (s, h) → P s)
    (hstep : ∀ s h a s', I (s, h) → C (s, h) a → S.step s a = some s' → I (s', record h s a)) :
    S.Throughout P s as := by
  induction as generalizing s h with
  | nil => exact hP s h hs
  | cons a as ih =>
    obtain ⟨hc, hm⟩ := hm
    refine ⟨hP s h hs, ?_⟩
    cases ht : S.step s a with
    | none => trivial
    | some t =>
      have hrecorded : (S.tracked start record).step (s, h) a = some (t, record h s a) := by
        unfold tracked
        dsimp only
        rw [ht, Option.map_some]
      rw [hrecorded] at hm
      exact ih hm (hstep s h a t hs hc ht)

def Passes (S : LabelledSystem σ α) : σ → List α → List σ → σ → Prop
  | s, as, [], s' => S.run s as = some s'
  | s, as, t :: ts, s' => ∃ before after, as = before ++ after ∧ S.run s before = some t ∧
      S.Passes t after ts s'

theorem run_append {s t : σ} {as : List α} (h : S.run s as = some t) (bs : List α) :
    S.run s (as ++ bs) = S.run t bs := by
  induction as generalizing s with
  | nil =>
    obtain rfl : s = t := by simpa [run] using h
    rfl
  | cons a as ih =>
    obtain ⟨u, hu, hrest⟩ := Option.bind_eq_some_iff.mp h
    rw [List.cons_append, run_cons hu, ih hrest]

theorem run_concat {s t u : σ} {as : List α} {a : α} (h : S.run s as = some t)
    (ha : S.step t a = some u) : S.run s (as ++ [a]) = some u := by
  rw [run_append h, run_cons ha]
  rfl

theorem Passes.concat {s t u : σ} {as : List α} {ts : List σ} {a : α} (h : S.Passes s as ts t)
    (ha : S.step t a = some u) : S.Passes s (as ++ [a]) ts u := by
  induction ts generalizing s as with
  | nil => exact run_concat h ha
  | cons v ts ih =>
    obtain ⟨before, after, rfl, hbefore, hafter⟩ := h
    exact ⟨before, after ++ [a], List.append_assoc _ _ _, hbefore, ih hafter⟩

theorem Passes.last {s t : σ} {as : List α} {ts : List σ} (h : S.Passes s as ts t) :
    S.Passes s as (ts ++ [t]) t := by
  induction ts generalizing s as with
  | nil => exact ⟨as, [], (List.append_nil as).symm, h, rfl⟩
  | cons v ts ih =>
    obtain ⟨before, after, rfl, hbefore, hafter⟩ := h
    exact ⟨before, after, rfl, hbefore, ih hafter⟩

end LabelledSystem

/-- A value with the number of the write it comes from; 0 before the first. -/
structure Version (α : Type) where
  number : Nat
  value : α

def update {ι β : Type} [DecidableEq ι] (f : ι → β) (i : ι) (b : β) : ι → β :=
  fun j => if j = i then b else f j

@[simp] theorem update_self {ι β : Type} [DecidableEq ι] (f : ι → β) (i : ι) (b : β) :
    update f i b i = b := if_pos rfl

@[simp] theorem update_of_ne {ι β : Type} [DecidableEq ι] {f : ι → β} {i j : ι} {b : β}
    (h : j ≠ i) : update f i b j = f j := if_neg h

/-- A property of all entries survives a change of one entry to a value that has it. -/
theorem forall_update {ι β : Type} [DecidableEq ι] {f : ι → β} {i : ι} {b : β} {P : β → Prop}
    (hb : P b) (hf : ∀ j, P (f j)) (j : ι) : P (update f i b j) := by
  by_cases h : j = i
  · subst h
    rw [update_self]
    exact hb
  · rw [update_of_ne h]
    exact hf j

end Memoark.System
