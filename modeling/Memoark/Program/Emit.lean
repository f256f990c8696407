/-! Programs that append to a log as they run: what a successful run emits, and how the emissions of
parts compose; and those that append the same to every log, or fail with the same error. -/
namespace Memoark.Program

class Log (σ : Type) (ω : outParam Type) where
  push : σ → List ω → σ
  push_nil : ∀ s, push s [] = s
  push_append : ∀ s a b, push s (a ++ b) = push (push s a) b

export Log (push)

variable {σ ω ε α β γ : Type} [Log σ ω]

/-- Every successful run of `m` appends `n` entries and leaves `P` between the state it
started from, the entries and the result. -/
def Emits (m : StateT σ (Except ε) α) (n : Nat) (P : σ → List ω → α → Prop) : Prop :=
  ∀ s a s', m s = .ok (a, s') → ∃ new, new.length = n ∧ s' = push s new ∧ P s new a

namespace Emits

theorem mono {m : StateT σ (Except ε) α} {n : Nat} {P Q : σ → List ω → α → Prop}
    (hm : Emits m n P) (h : ∀ s new a, new.length = n → P s new a → Q s new a) :
    Emits m n Q := by
  intro s a s' hs
  obtain ⟨new, hn, hs', hp⟩ := hm s a s' hs
  exact ⟨new, hn, hs', h s new a hn hp⟩

theorem pure {n : Nat} {P : σ → List ω → α → Prop} (a : α) (hn : n = 0) (h : ∀ s, P s [] a) :
    Emits (Pure.pure a : StateT σ (Except ε) α) n P := by
  intro s b s' hs
  have hok : (Except.ok (a, s) : Except ε (α × σ)) = .ok (b, s') := hs
  obtain ⟨rfl, rfl⟩ : a = b ∧ s = s' := by simpa using hok
  exact ⟨[], hn.symm, (Log.push_nil s).symm, h s⟩

theorem throw {n : Nat} {P : σ → List ω → α → Prop} (e : ε) :
    Emits (MonadExcept.throw e : StateT σ (Except ε) α) n P := by
  intro s a s' hs
  exact absurd hs nofun

theorem throwBind {n : Nat} {P : σ → List ω → β → Prop} (e : ε)
    (f : α → StateT σ (Except ε) β) :
    Emits ((MonadExcept.throw e : StateT σ (Except ε) α) >>= f) n P := by
  intro s b s' hs
  exact absurd hs nofun

theorem ite {c : Prop} [Decidable c] {m m' : StateT σ (Except ε) α} {n : Nat}
    {P : σ → List ω → α → Prop} (h : c → Emits m n P) (h' : ¬c → Emits m' n P) :
    Emits (if c then m else m') n P := by
  by_cases hc : c
  · rw [if_pos hc]
    exact h hc
  · rw [if_neg hc]
    exact h' hc

theorem check {c : Prop} [Decidable c] {n : Nat} {P : σ → List ω → β → Prop} {e : ε}
    {f : Unit → StateT σ (Except ε) β} (h : ¬c → Emits (f ()) n P) :
    Emits (if c then (MonadExcept.throw e : StateT σ (Except ε) Unit) >>= f else f ()) n P := by
  by_cases hc : c
  · rw [if_pos hc]
    exact throwBind e f
  · rw [if_neg hc]
    exact h hc

theorem bind {m : StateT σ (Except ε) α} {f : α → StateT σ (Except ε) β} {k l n : Nat}
    {P : σ → List ω → α → Prop} {Q : σ → List ω → β → Prop} (hn : n = k + l)
    (hm : Emits m k P)
    (hf : ∀ a, Emits (f a) l fun s new b =>
      ∀ s₀ new₀, new₀.length = k → s = push s₀ new₀ → P s₀ new₀ a → Q s₀ (new₀ ++ new) b) :
    Emits (m >>= f) n Q := by
  intro s b s' hs
  cases hm₀ : m s with
  | error e => exact absurd hs (by simp [Bind.bind, StateT.bind, hm₀, Except.bind])
  | ok r =>
    obtain ⟨a, s₁⟩ := r
    have hf₀ : f a s₁ = .ok (b, s') := by
      simpa [Bind.bind, StateT.bind, hm₀, Except.bind] using hs
    obtain ⟨new₀, hk, rfl, hp⟩ := hm s a s₁ hm₀
    obtain ⟨new, hl, rfl, hq⟩ := hf a _ b s' hf₀
    refine ⟨new₀ ++ new, ?_, (Log.push_append s new₀ new).symm, hq s new₀ hk rfl hp⟩
    rw [List.length_append, hk, hl, hn]

theorem bindLift {e : Except ε α} {f : α → StateT σ (Except ε) β} {n : Nat}
    {Q : σ → List ω → β → Prop} (hf : ∀ a, e = .ok a → Emits (f a) n Q) :
    Emits (liftM e >>= f) n Q := by
  intro s b s' hs
  cases e with
  | error e => exact absurd hs nofun
  | ok a => exact hf a rfl s b s' hs

/-- The last step of a chain: only the result is reshaped. -/
theorem bindPure {m : StateT σ (Except ε) α} {g : α → β} {n : Nat}
    {P : σ → List ω → α → Prop} {Q : σ → List ω → β → Prop} (hm : Emits m n P)
    (h : ∀ s new a, new.length = n → P s new a → Q s new (g a)) :
    Emits (m >>= fun a => Pure.pure (g a)) n Q := by
  refine bind (l := 0) rfl hm fun a => pure _ rfl ?_
  intro s s₀ new₀ hk _ hp
  rw [List.append_nil]
  exact h s₀ new₀ a hk hp

theorem mapM {f : α → StateT σ (Except ε) β} {as : List α} {k n : Nat}
    {P : σ → List ω → β → Prop} {Q : σ → List ω → List β → Prop} (hn : n = k * as.length)
    (hf : ∀ a, Emits (f a) k P) (hnil : ∀ s, Q s [] [])
    (hcons : ∀ s new b rest bs, new.length = k → P s new b → Q (push s new) rest bs →
      Q s (new ++ rest) (b :: bs)) :
    Emits (as.mapM f) n Q := by
  induction as generalizing n with
  | nil => exact pure [] (by simpa using hn) hnil
  | cons a as ih =>
    rw [List.mapM_cons]
    refine bind (by rw [hn, List.length_cons, Nat.mul_succ, Nat.add_comm]) (hf a) fun b => ?_
    refine bindPure (ih rfl) fun s new bs _ hq s₀ new₀ hk hs hp => ?_
    subst hs
    exact hcons s₀ new₀ b new bs hk hp hq

end Emits

def Logs (m : StateT σ (Except ε) α) (new : List ω) : Prop :=
  ∀ s, ∃ a, m s = .ok (a, push s new)

def Fails (m : StateT σ (Except ε) α) (e : ε) : Prop := ∀ s, m s = .error e

def Steady (m : StateT σ (Except ε) α) : Prop := (∃ new, Logs m new) ∨ ∃ e, Fails m e

namespace Logs

variable {m : StateT σ (Except ε) α} {new more : List ω}

theorem pure (a : α) : Logs (Pure.pure a : StateT σ (Except ε) α) [] := by
  intro s
  refine ⟨a, ?_⟩
  rw [Log.push_nil]
  rfl

theorem bind {f : α → StateT σ (Except ε) β} (hm : Logs m new) (hf : ∀ a, Logs (f a) more) :
    Logs (m >>= f) (new ++ more) := by
  intro s
  obtain ⟨a, ha⟩ := hm s
  obtain ⟨b, hb⟩ := hf a (push s new)
  refine ⟨b, ?_⟩
  rw [Log.push_append, ← hb]
  simp [Bind.bind, StateT.bind, ha, Except.bind]

theorem map {g : α → β} (hm : Logs m new) : Logs (m >>= fun a => Pure.pure (g a)) new := by
  have h := hm.bind fun a => Logs.pure (g a)
  rwa [List.append_nil] at h

end Logs

namespace Steady

variable {m : StateT σ (Except ε) α}

theorem logs (h : Steady m) {s : σ} {r : α × σ} (hs : m s = .ok r) : ∃ new, Logs m new := by
  rcases h with h | ⟨e, he⟩
  · exact h
  · exact absurd ((he s).symm.trans hs) nofun

theorem pure (a : α) : Steady (Pure.pure a : StateT σ (Except ε) α) := .inl ⟨[], .pure a⟩

theorem throw (e : ε) : Steady (MonadExcept.throw e : StateT σ (Except ε) α) :=
  .inr ⟨e, fun _ => rfl⟩

theorem throwBind (e : ε) (f : α → StateT σ (Except ε) β) :
    Steady ((MonadExcept.throw e : StateT σ (Except ε) α) >>= f) := .inr ⟨e, fun _ => rfl⟩

theorem ite {c : Prop} [Decidable c] {m' : StateT σ (Except ε) α} (h : c → Steady m)
    (h' : ¬c → Steady m') : Steady (if c then m else m') := by
  by_cases hc : c
  · rw [if_pos hc]
    exact h hc
  · rw [if_neg hc]
    exact h' hc

theorem check {c : Prop} [Decidable c] {e : ε} {f : Unit → StateT σ (Except ε) β}
    (h : ¬c → Steady (f ())) :
    Steady (if c then (MonadExcept.throw e : StateT σ (Except ε) Unit) >>= f else f ()) :=
  .ite (fun _ => throwBind e f) h

theorem bindLift {e : Except ε α} {f : α → StateT σ (Except ε) β}
    (hf : ∀ a, e = .ok a → Steady (f a)) : Steady (liftM e >>= f) := by
  cases e with
  | error e => exact .inr ⟨e, fun _ => rfl⟩
  | ok a => exact hf a rfl

theorem both {m' : StateT σ (Except ε) β} {g : α → β → γ} (hm : Steady m) (hm' : Steady m') :
    Steady (m >>= fun a => m' >>= fun b => Pure.pure (g a b)) := by
  rcases hm with ⟨new, hnew⟩ | ⟨e, he⟩
  · rcases hm' with ⟨more, hmore⟩ | ⟨e, he⟩
    · exact .inl ⟨new ++ more, hnew.bind fun _ => hmore.map⟩
    · refine .inr ⟨e, fun s => ?_⟩
      obtain ⟨a, ha⟩ := hnew s
      simp [Bind.bind, StateT.bind, ha, Except.bind, he _]
  · refine .inr ⟨e, fun s => ?_⟩
    simp [Bind.bind, StateT.bind, Except.bind, he s]

theorem thenSilent {f : α → StateT σ (Except ε) β} (hm : Steady m) (hf : ∀ a, Logs (f a) []) :
    Steady (m >>= f) := by
  rcases hm with ⟨new, hnew⟩ | ⟨e, he⟩
  · exact .inl ⟨_, hnew.bind hf⟩
  · refine .inr ⟨e, fun s => ?_⟩
    simp [Bind.bind, StateT.bind, Except.bind, he s]

theorem map {g : α → β} (hm : Steady m) : Steady (m >>= fun a => Pure.pure (g a)) :=
  hm.thenSilent fun a => .pure (g a)

theorem mapM {f : α → StateT σ (Except ε) β} {as : List α} (hf : ∀ a, Steady (f a)) :
    Steady (as.mapM f) := by
  induction as with
  | nil => exact pure []
  | cons a as ih =>
    rw [List.mapM_cons]
    exact (hf a).both ih

end Steady

end Memoark.Program
