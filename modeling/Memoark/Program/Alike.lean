import Memoark.Program.Returns

/-! Two programs side by side. In lockstep they fail with the same error, and where they succeed
they reach the same state with related results; alike, both succeed from any two states, or both
fail with the same error. -/
namespace Memoark.Program

variable {σ τ ε α β γ δ : Type}

section lockstep

/-- The outcomes of two steps agree, with results related by `R`. -/
def Agree (R : α → β → Prop) : Except ε (α × σ) → Except ε (β × σ) → Prop
  | .ok (a, s), .ok (b, s') => s = s' ∧ R a b
  | .error e, .error e' => e = e'
  | _, _ => False

def Parallel (m : StateT σ (Except ε) α) (m' : StateT σ (Except ε) β) (R : α → β → Prop) : Prop :=
  ∀ s, Agree R (m s) (m' s)

namespace Parallel

theorem pure {R : α → β → Prop} {a : α} {b : β} (h : R a b) :
    Parallel (Pure.pure a : StateT σ (Except ε) α) (Pure.pure b) R := fun _ => ⟨rfl, h⟩

theorem bind {m : StateT σ (Except ε) α} {m' : StateT σ (Except ε) β} {R : α → β → Prop}
    {f : α → StateT σ (Except ε) γ} {f' : β → StateT σ (Except ε) δ} {S : γ → δ → Prop}
    (hm : Parallel m m' R) (hf : ∀ a b, R a b → Parallel (f a) (f' b) S) :
    Parallel (m >>= f) (m' >>= f') S := by
  intro s
  have hs := hm s
  show Agree S ((m s).bind fun r => f r.1 r.2) ((m' s).bind fun r => f' r.1 r.2)
  cases hm₀ : m s with
  | error e =>
    cases hm₁ : m' s with
    | error e' =>
      rw [hm₀, hm₁] at hs
      exact hs
    | ok r => simp [hm₀, hm₁, Agree] at hs
  | ok r =>
    cases hm₁ : m' s with
    | error e' => simp [hm₀, hm₁, Agree] at hs
    | ok r' =>
      rw [hm₀, hm₁] at hs
      obtain ⟨hstate, hR⟩ := hs
      have hnext := hf r.1 r'.1 hR r.2
      rw [hstate] at hnext
      rw [Except.bind, Except.bind, hstate]
      exact hnext

theorem map {m : StateT σ (Except ε) α} {R : α → β → Prop} {f : α → β}
    (h : ∀ s a s', m s = .ok (a, s') → R a (f a)) :
    Parallel m (m >>= fun a => Pure.pure (f a)) R := by
  intro s
  show Agree R (m s) ((m s).bind fun r => .ok (f r.1, r.2))
  cases hm : m s with
  | error e => rfl
  | ok r => exact ⟨rfl, h s r.1 r.2 hm⟩

end Parallel

end lockstep

def SameOutcome : Except ε α → Except ε β → Prop
  | .ok _, .ok _ => True
  | .error e, .error e' => e = e'
  | _, _ => False

theorem SameOutcome.ok {x : Except ε α} {y : Except ε β} (h : SameOutcome x y) {a : α}
    (hx : x = .ok a) : ∃ b, y = .ok b := by
  cases y with
  | error e =>
    rw [hx] at h
    exact h.elim
  | ok b => exact ⟨b, rfl⟩

def Alike (m : StateT σ (Except ε) α) (m' : StateT τ (Except ε) β) : Prop :=
  ∀ s s', SameOutcome (m s) (m' s')

def Total (m : StateT σ (Except ε) α) : Prop := ∀ s, ∃ r, m s = .ok r

namespace Total

theorem pure (a : α) : Total (Pure.pure a : StateT σ (Except ε) α) := fun s => ⟨(a, s), rfl⟩

theorem bind {m : StateT σ (Except ε) α} {f : α → StateT σ (Except ε) β} (hm : Total m)
    (hf : ∀ a, Total (f a)) : Total (m >>= f) := by
  intro s
  obtain ⟨r, hr⟩ := hm s
  obtain ⟨r', hr'⟩ := hf r.1 r.2
  refine ⟨r', ?_⟩
  simpa [Bind.bind, StateT.bind, hr, Except.bind] using hr'

theorem ite {c : Prop} [Decidable c] {m m' : StateT σ (Except ε) α} (h : Total m)
    (h' : Total m') : Total (if c then m else m') := by
  by_cases hc : c
  · rwa [if_pos hc]
  · rwa [if_neg hc]

theorem mapM {f : α → StateT σ (Except ε) β} {l : List α} (hf : ∀ a ∈ l, Total (f a)) :
    Total (l.mapM f) := by
  induction l with
  | nil => exact pure []
  | cons a l ih =>
    have hl := ih fun b hb => hf b (List.mem_cons_of_mem a hb)
    rw [List.mapM_cons]
    exact (hf a List.mem_cons_self).bind fun b => hl.bind fun bs => pure _

theorem alike {m : StateT σ (Except ε) α} {m' : StateT τ (Except ε) β} (hm : Total m)
    (hm' : Total m') : Alike m m' := by
  intro s s'
  obtain ⟨r, hr⟩ := hm s
  obtain ⟨r', hr'⟩ := hm' s'
  rw [hr, hr']
  trivial

end Total

namespace Alike

theorem throw (e : ε) : Alike (MonadExcept.throw e : StateT σ (Except ε) α)
    (MonadExcept.throw e : StateT τ (Except ε) β) := fun _ _ => rfl

theorem bind {m : StateT σ (Except ε) α} {m' : StateT τ (Except ε) β}
    {f : α → StateT σ (Except ε) γ} {f' : β → StateT τ (Except ε) δ} (hm : Alike m m')
    (hf : ∀ a b, Alike (f a) (f' b)) : Alike (m >>= f) (m' >>= f') := by
  intro s s'
  have hs := hm s s'
  show SameOutcome ((m s).bind fun r => f r.1 r.2) ((m' s').bind fun r => f' r.1 r.2)
  cases hm₀ : m s with
  | error e =>
    cases hm₁ : m' s' with
    | error e' =>
      rw [hm₀, hm₁] at hs
      exact hs
    | ok r => simp [hm₀, hm₁, SameOutcome] at hs
  | ok r =>
    cases hm₁ : m' s' with
    | error e' => simp [hm₀, hm₁, SameOutcome] at hs
    | ok r' => exact hf r.1 r'.1 r.2 r'.2

theorem bindLift {e : Except ε α} {f : α → StateT σ (Except ε) γ} {f' : α → StateT τ (Except ε) δ}
    (hf : ∀ a, e = .ok a → Alike (f a) (f' a)) : Alike (liftM e >>= f) (liftM e >>= f') := by
  intro s s'
  cases e with
  | error e => rfl
  | ok a => exact hf a rfl s s'

theorem ite {c : Prop} [Decidable c] {m n : StateT σ (Except ε) α} {m' n' : StateT τ (Except ε) β}
    (h : c → Alike m m') (h' : ¬c → Alike n n') :
    Alike (if c then m else n) (if c then m' else n') := by
  by_cases hc : c
  · rw [if_pos hc, if_pos hc]
    exact h hc
  · rw [if_neg hc, if_neg hc]
    exact h' hc

theorem check {c : Prop} [Decidable c] {e : ε} {f : Unit → StateT σ (Except ε) α}
    {f' : Unit → StateT τ (Except ε) β} (h : ¬c → Alike (f ()) (f' ())) :
    Alike (if c then (MonadExcept.throw e : StateT σ (Except ε) Unit) >>= f else f ())
      (if c then (MonadExcept.throw e : StateT τ (Except ε) Unit) >>= f' else f' ()) :=
  ite (fun _ _ _ => rfl) h

theorem mapM {f : α → StateT σ (Except ε) γ} {f' : α → StateT τ (Except ε) δ} {l : List α}
    (hf : ∀ a, Alike (f a) (f' a)) : Alike (l.mapM f) (l.mapM f') := by
  induction l with
  | nil => exact (Total.pure []).alike (.pure [])
  | cons a l ih =>
    rw [List.mapM_cons, List.mapM_cons]
    exact (hf a).bind fun b b' => ih.bind fun bs bs' => (Total.pure _).alike (.pure _)

end Alike

end Memoark.Program
