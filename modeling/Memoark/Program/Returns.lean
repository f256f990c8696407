/-! Rules for what a program returns when it succeeds, whatever its state. -/
namespace Memoark.Program

variable {σ ε α β : Type}

theorem bind_ok {x : Except ε α} {f : α → Except ε β} {b : β} (h : x >>= f = .ok b) :
    ∃ a, x = .ok a ∧ f a = .ok b := by
  cases x with
  | error e => cases h
  | ok a => exact ⟨a, rfl, h⟩

theorem bind_error {x : Except ε α} {f : α → Except ε β} {e : ε} (h : x >>= f = .error e) :
    x = .error e ∨ ∃ a, x = .ok a ∧ f a = .error e := by
  cases x with
  | error e' => exact .inl (congrArg Except.error (Except.error.inj h))
  | ok a => exact .inr ⟨a, rfl, h⟩

theorem mapError_error {ε' : Type} {x : Except ε α} {g : ε → ε'} {e : ε'}
    (h : x.mapError g = .error e) : ∃ e', x = .error e' ∧ g e' = e := by
  cases x with
  | error e' => exact ⟨e', rfl, Except.error.inj h⟩
  | ok a => cases h

theorem exists_bind_ok {x : Except ε α} {f : α → Except ε β} (hx : ∃ a, x = .ok a)
    (hf : ∀ a, ∃ b, f a = .ok b) : ∃ b, x >>= f = .ok b := by
  obtain ⟨a, rfl⟩ := hx
  exact hf a

theorem mapError_ok {ε' : Type} {x : Except ε α} {g : ε → ε'} {a : α}
    (h : x.mapError g = .ok a) : x = .ok a := by
  cases x with
  | error e => cases h
  | ok b =>
    cases h
    rfl

theorem map_ok {x : Except ε α} {g : α → β} {b : β} (h : x.map g = .ok b) :
    ∃ a, x = .ok a ∧ g a = b := by
  cases x with
  | error e => cases h
  | ok a => exact ⟨a, rfl, Except.ok.inj h⟩

theorem check_ok {c : Prop} [Decidable c] {e : ε} {f : Unit → Except ε β} {b : β}
    (h : (if c then (throw e : Except ε Unit) >>= f else f ()) = .ok b) : ¬c ∧ f () = .ok b := by
  by_cases hc : c
  · rw [if_pos hc] at h
    cases h
  · rw [if_neg hc] at h
    exact ⟨hc, h⟩

/-- What a successful loop collects comes from its rounds. -/
theorem mem_of_mapM_ok {f : α → Except ε β} {l : List α} {bs : List β} (h : l.mapM f = .ok bs) :
    ∀ b ∈ bs, ∃ a ∈ l, f a = .ok b := by
  induction l generalizing bs with
  | nil =>
    cases h
    exact fun b hb => absurd hb List.not_mem_nil
  | cons a l ih =>
    rw [List.mapM_cons] at h
    obtain ⟨b, hb, h⟩ := bind_ok h
    obtain ⟨rest, hrest, h⟩ := bind_ok h
    cases h
    intro c hc
    rcases List.mem_cons.mp hc with rfl | hc
    · exact ⟨a, List.mem_cons_self, hb⟩
    · obtain ⟨a', ha', hfa'⟩ := ih hrest c hc
      exact ⟨a', List.mem_cons_of_mem a ha', hfa'⟩

theorem ok_of_mapM_ok {f : α → Except ε β} {l : List α} {bs : List β} (h : l.mapM f = .ok bs) :
    ∀ a ∈ l, ∃ b ∈ bs, f a = .ok b := by
  induction l generalizing bs with
  | nil => exact fun a ha => absurd ha List.not_mem_nil
  | cons a l ih =>
    rw [List.mapM_cons] at h
    obtain ⟨b, hb, h⟩ := bind_ok h
    obtain ⟨rest, hrest, h⟩ := bind_ok h
    cases h
    intro a' ha'
    rcases List.mem_cons.mp ha' with rfl | ha'
    · exact ⟨b, List.mem_cons_self, hb⟩
    · obtain ⟨b', hb', hfa'⟩ := ih hrest a' ha'
      exact ⟨b', List.mem_cons_of_mem b hb', hfa'⟩

/-- What a successful loop collects, seen through a function that each round determines. -/
theorem map_of_mapM_ok {γ : Type} {f : α → Except ε β} {g : β → γ} {k : α → γ} {l : List α}
    {bs : List β} (h : l.mapM f = .ok bs) (hf : ∀ a ∈ l, ∀ b, f a = .ok b → g b = k a) :
    bs.map g = l.map k := by
  induction l generalizing bs with
  | nil =>
    cases h
    rfl
  | cons a l ih =>
    rw [List.mapM_cons] at h
    obtain ⟨b, hb, h⟩ := bind_ok h
    obtain ⟨rest, hrest, h⟩ := bind_ok h
    cases h
    have hrest := ih hrest fun a ha => hf a (List.mem_cons_of_mem _ ha)
    rw [List.map_cons, List.map_cons, hrest, hf a List.mem_cons_self b hb]

/-- What two successful loops collect, where the rounds are related. -/
theorem map_of_mapM_ok_both {f f' : α → Except ε β} {g : β → β} {l : List α} {bs bs' : List β}
    (h : l.mapM f = .ok bs) (h' : l.mapM f' = .ok bs')
    (hf : ∀ a b b', f a = .ok b → f' a = .ok b' → b' = g b) : bs' = bs.map g := by
  induction l generalizing bs bs' with
  | nil =>
    cases h
    cases h'
    rfl
  | cons a l ih =>
    rw [List.mapM_cons] at h h'
    obtain ⟨b, hb, h⟩ := bind_ok h
    obtain ⟨rest, hrest, h⟩ := bind_ok h
    obtain ⟨b', hb', h'⟩ := bind_ok h'
    obtain ⟨rest', hrest', h'⟩ := bind_ok h'
    cases h
    cases h'
    rw [List.map_cons, ih hrest hrest', hf a b b' hb hb']

/-- A loop over some of the elements, where each round tells what it is for. -/
theorem filter_of_mapM_ok {f : α → Except ε β} {p : β → Bool} {q : α → Bool} {l : List α}
    {bs : List β} (h : l.mapM f = .ok bs) (hf : ∀ a ∈ l, ∀ b, f a = .ok b → p b = q a) :
    (l.filter q).mapM f = .ok (bs.filter p) := by
  induction l generalizing bs with
  | nil =>
    cases h
    rfl
  | cons a l ih =>
    rw [List.mapM_cons] at h
    obtain ⟨b, hb, h⟩ := bind_ok h
    obtain ⟨rest, hrest, h⟩ := bind_ok h
    cases h
    have hrest := ih hrest fun a ha => hf a (List.mem_cons_of_mem _ ha)
    have hsame := hf a List.mem_cons_self b hb
    rw [List.filter_cons, List.filter_cons, hsame]
    split
    · rw [List.mapM_cons, hb, hrest]
      rfl
    · exact hrest

theorem exists_mapM_ok {f : α → Except ε β} {l : List α} (h : ∀ a ∈ l, ∃ b, f a = .ok b) :
    ∃ bs, l.mapM f = .ok bs := by
  induction l with
  | nil => exact ⟨[], rfl⟩
  | cons a l ih =>
    obtain ⟨b, hb⟩ := h a List.mem_cons_self
    obtain ⟨bs, hbs⟩ := ih fun a ha => h a (List.mem_cons_of_mem _ ha)
    refine ⟨b :: bs, ?_⟩
    rw [List.mapM_cons, hb, hbs]
    rfl

def Returns (m : StateT σ (Except ε) α) (P : α → Prop) : Prop :=
  ∀ s a s', m s = .ok (a, s') → P a

namespace Returns

theorem mono {m : StateT σ (Except ε) α} {P Q : α → Prop} (hm : Returns m P)
    (h : ∀ a, P a → Q a) : Returns m Q := fun s a s' hs => h a (hm s a s' hs)

theorem pure {P : α → Prop} {a : α} (h : P a) :
    Returns (Pure.pure a : StateT σ (Except ε) α) P := by
  intro s b s' hs
  have hok : (Except.ok (a, s) : Except ε (α × σ)) = .ok (b, s') := hs
  obtain ⟨rfl, rfl⟩ : a = b ∧ s = s' := by simpa using hok
  exact h

theorem throw {P : α → Prop} (e : ε) :
    Returns (MonadExcept.throw e : StateT σ (Except ε) α) P := by
  intro s a s' hs
  exact absurd hs nofun

theorem ite {c : Prop} [Decidable c] {m m' : StateT σ (Except ε) α} {P : α → Prop}
    (h : c → Returns m P) (h' : ¬c → Returns m' P) : Returns (if c then m else m') P := by
  by_cases hc : c
  · rw [if_pos hc]
    exact h hc
  · rw [if_neg hc]
    exact h' hc

theorem check {c : Prop} [Decidable c] {P : β → Prop} {e : ε}
    {f : Unit → StateT σ (Except ε) β} (h : ¬c → Returns (f ()) P) :
    Returns (if c then (MonadExcept.throw e : StateT σ (Except ε) Unit) >>= f else f ()) P :=
  ite (fun _ _ _ _ hs => absurd hs nofun) h

theorem bind {m : StateT σ (Except ε) α} {f : α → StateT σ (Except ε) β} {P : α → Prop}
    {Q : β → Prop} (hm : Returns m P) (hf : ∀ a, P a → Returns (f a) Q) :
    Returns (m >>= f) Q := by
  intro s b s' hs
  cases hm₀ : m s with
  | error e => exact absurd hs (by simp [Bind.bind, StateT.bind, hm₀, Except.bind])
  | ok r =>
    have hf₀ : f r.1 r.2 = .ok (b, s') := by
      simpa [Bind.bind, StateT.bind, hm₀, Except.bind] using hs
    exact hf r.1 (hm s r.1 r.2 hm₀) r.2 b s' hf₀

theorem bindLift {e : Except ε α} {f : α → StateT σ (Except ε) β} {Q : β → Prop}
    (hf : ∀ a, e = .ok a → Returns (f a) Q) : Returns (liftM e >>= f) Q := by
  intro s b s' hs
  cases e with
  | error e => exact absurd hs nofun
  | ok a => exact hf a rfl s b s' hs

theorem mapM {f : α → StateT σ (Except ε) β} {l : List α} {P : α → β → Prop}
    {Q : List α → List β → Prop} (hf : ∀ a, Returns (f a) (P a)) (hnil : Q [] [])
    (hcons : ∀ a b as bs, P a b → Q as bs → Q (a :: as) (b :: bs)) :
    Returns (l.mapM f) (Q l) := by
  induction l with
  | nil => exact pure hnil
  | cons a as ih =>
    rw [List.mapM_cons]
    exact bind (hf a) fun b hb => bind ih fun bs hbs => pure (hcons a b as bs hb hbs)

end Returns

end Memoark.Program
