import Mathlib.Logic.Function.Basic
import Memoark.System.Runs

/-! Versions of a row that can be deleted, from the oldest to the newest. -/
namespace Memoark.System

namespace Version

variable {α : Type}

def row (v : Version α) : Version (Option α) := { v with value := some v.value }

/-- `w` is as new as `v`. A deletion and a row of one number are told apart: the deletion is
newer. -/
def AsNew (v w : Version (Option α)) : Prop :=
  v.number < w.number ∨ v.number = w.number ∧ (v.value.isNone → w.value.isNone)

instance (v w : Version (Option α)) : Decidable (AsNew v w) :=
  inferInstanceAs (Decidable (_ ∨ _ ∧ _))

variable {u v w : Version (Option α)}

theorem AsNew.refl (v : Version (Option α)) : AsNew v v := .inr ⟨rfl, id⟩

theorem AsNew.trans (h : AsNew u v) (h' : AsNew v w) : AsNew u w := by
  rcases h with h | ⟨hn, hd⟩
  · rcases h' with h' | ⟨hn', _⟩
    · exact .inl (Nat.lt_trans h h')
    · exact .inl (hn' ▸ h)
  · rcases h' with h' | ⟨hn', hd'⟩
    · exact .inl (hn ▸ h')
    · exact .inr ⟨hn.trans hn', fun hnone => hd' (hd hnone)⟩

theorem AsNew.total (v w : Version (Option α)) : AsNew v w ∨ AsNew w v := by
  rcases Nat.lt_trichotomy v.number w.number with h | h | h
  · exact .inl (.inl h)
  · cases hw : w.value with
    | none => exact .inl (.inr ⟨h, fun _ => by rw [hw]; rfl⟩)
    | some x => exact .inr (.inr ⟨h.symm, fun hnone => by rw [hw] at hnone; cases hnone⟩)
  · exact .inr (.inl h)

theorem AsNew.next {v w : Version (Option α)} (h : w.number = v.number + 1) : AsNew v w := by
  left
  omega

def newest (v w : Version (Option α)) : Version (Option α) := if AsNew v w then w else v

theorem asNew_newest_left (v w : Version (Option α)) : AsNew v (newest v w) := by
  unfold newest
  split
  · assumption
  · exact .refl v

theorem asNew_newest_right (v w : Version (Option α)) : AsNew w (newest v w) := by
  unfold newest
  split
  · exact .refl w
  · rename_i h
    exact (AsNew.total v w).resolve_left h

theorem AsNew.newest (hv : AsNew v u) (hw : AsNew w u) : AsNew (newest v w) u := by
  unfold Version.newest
  split <;> assumption

end Version

/-- Versions by key, where every entry of the second is as new as that of the first. -/
def AllAsNew {κ α : Type} (f g : κ → Version (Option α)) : Prop := ∀ k, Version.AsNew (f k) (g k)

namespace AllAsNew

variable {κ α : Type} {f g h : κ → Version (Option α)}

theorem refl (f : κ → Version (Option α)) : AllAsNew f f := fun k => .refl (f k)

theorem trans (hfg : AllAsNew f g) (hgh : AllAsNew g h) : AllAsNew f h :=
  fun k => (hfg k).trans (hgh k)

theorem update [DecidableEq κ] {k : κ} {v : Version (Option α)} (hv : Version.AsNew (f k) v) :
    AllAsNew f (System.update f k v) := by
  intro j
  by_cases hj : j = k
  · subst hj
    rw [update_self]
    exact hv
  · rw [update_of_ne hj]
    exact .refl _

end AllAsNew

end Memoark.System

/-! A cache that is filled when a row is read, whose entries can be evicted at any time and whose
values can be edited in place. -/
namespace Memoark.System.ReadThrough

variable {κ : Type} [DecidableEq κ] {β : κ → Type}

structure State (β : κ → Type) where
  rows : ∀ k, Option (β k)
  cache : ∀ k, Option (β k)

namespace State

def read (s : State β) (k : κ) : Option (β k) := (s.cache k).or (s.rows k)

def fill (s : State β) (k : κ) : State β := { s with cache := Function.update s.cache k (s.read k) }

def evict (s : State β) (k : κ) : State β := { s with cache := Function.update s.cache k none }

/-- The value that readers share is edited in place, and becomes `value`. -/
def edit (s : State β) (k : κ) (value : β k) : State β :=
  { s with cache := Function.update s.cache k (some value) }

def write (s : State β) (k : κ) (value : β k) : State β where
  rows := Function.update s.rows k (some value)
  cache := Function.update s.cache k (some value)

end State

inductive Event (κ : Type) where
  | read (k : κ)
  | evict (k : κ)

def outputs (s : State β) : List (Event κ) → List ((k : κ) × Option (β k))
  | [] => []
  | .read k :: events => ⟨k, s.read k⟩ :: outputs (s.fill k) events
  | .evict k :: events => outputs (s.evict k) events

/-- No later reader tells the states apart, whatever is evicted before and between the reads. -/
def Alike (s t : State β) : Prop := ∀ events, outputs s events = outputs t events

variable {s t : State β} {k : κ}

theorem read_fill (s : State β) (k l : κ) : (s.fill k).read l = s.read l := by
  by_cases h : l = k
  · subst h
    have hself : (s.fill l).cache l = s.read l := Function.update_self l _ _
    have hrows : (s.fill l).rows l = s.rows l := rfl
    rw [State.read, hself, hrows, State.read, Option.or_assoc, Option.or_self]
  · have hother : (s.fill k).cache l = s.cache l := Function.update_of_ne h _ _
    rw [State.read, hother]
    rfl

theorem read_evict_self (s : State β) (k : κ) : (s.evict k).read k = s.rows k := by
  have hself : (s.evict k).cache k = none := Function.update_self k _ _
  rw [State.read, hself, Option.none_or]
  rfl

theorem read_evict_of_ne (s : State β) {k l : κ} (h : l ≠ k) : (s.evict k).read l = s.read l := by
  have hother : (s.evict k).cache l = s.cache l := Function.update_of_ne h _ _
  rw [State.read, hother]
  rfl

theorem read_edit_self (s : State β) (k : κ) (value : β k) :
    (s.edit k value).read k = some value := by
  have hself : (s.edit k value).cache k = some value := Function.update_self k _ _
  rw [State.read, hself, Option.some_or]

theorem read_edit_of_ne (s : State β) {k l : κ} (value : β k) (h : l ≠ k) :
    (s.edit k value).read l = s.read l := by
  have hother : (s.edit k value).cache l = s.cache l := Function.update_of_ne h _ _
  rw [State.read, hother]
  rfl

theorem alike_of_read (hrows : s.rows = t.rows) (hread : ∀ k, s.read k = t.read k) : Alike s t := by
  intro events
  induction events generalizing s t with
  | nil => rfl
  | cons event events ih =>
    cases event with
    | read k =>
      have hrest := ih (s := s.fill k) (t := t.fill k) hrows fun l => by
        rw [read_fill, read_fill, hread]
      rw [outputs, outputs, hread, hrest]
    | evict k =>
      refine ih (s := s.evict k) (t := t.evict k) hrows fun l => ?_
      by_cases h : l = k
      · subst h
        rw [read_evict_self, read_evict_self, hrows]
      · rw [read_evict_of_ne s h, read_evict_of_ne t h, hread]

theorem Alike.read (h : Alike s t) (k : κ) : s.read k = t.read k := by
  have hout : [(⟨k, s.read k⟩ : (k : κ) × Option (β k))] = [⟨k, t.read k⟩] := h [.read k]
  exact eq_of_heq (Sigma.mk.inj (List.cons.inj hout).1).2

theorem Alike.refl (s : State β) : Alike s s := fun _ => rfl

/-- A reader that is answered leaves nothing that another reader notices. -/
theorem alike_fill (s : State β) (k : κ) : Alike s (s.fill k) :=
  alike_of_read rfl fun l => (read_fill s k l).symm

theorem alike_edit_iff {value edited : β k} (h : s.read k = some value) :
    Alike s (s.edit k edited) ↔ edited = value := by
  constructor
  · intro halike
    have hread := halike.read k
    rw [h, read_edit_self] at hread
    exact (Option.some.inj hread).symm
  · rintro rfl
    refine alike_of_read rfl fun l => ?_
    by_cases hl : l = k
    · subst hl
      rw [h, read_edit_self]
    · rw [read_edit_of_ne s _ hl]

end Memoark.System.ReadThrough
