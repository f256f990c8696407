import Mathlib.Data.Nat.Init
import Memoark.Program.Durable
import Memoark.Program.Returns

/-! Contracts of programs over a store that outlives the process: what each write leaves, since
the process can stop after it, and what a success returns; and programs that keep a part of the
store, wherever they stop. -/
namespace Memoark.Program.Durable

variable {σ ω ε ε' α β γ : Type}

def ofExcept : Except ε α → Durable σ ω ε α
  | .ok a => done a
  | .error e => fail e

def mapFailure (g : ε → ε') : Durable σ ω ε α → Durable σ ω ε' α
  | done a => done a
  | fail e => fail (g e)
  | read next => read fun s => (next s).mapFailure g
  | write label f next => write label f (next.mapFailure g)

def forEach (f : α → Durable σ ω ε Unit) : List α → Durable σ ω ε Unit
  | [] => pure ()
  | a :: as => do
    f a
    forEach f as

def fold (f : β → α → Durable σ ω ε β) : β → List α → Durable σ ω ε β
  | b, [] => pure b
  | b, a :: as => do
    let b ← f b a
    fold f b as

theorem run_bind_ok {p : Durable σ ω ε α} {q : α → Durable σ ω ε β} {s s'' : σ} {b : β} :
    (p >>= q).run s = (.ok b, s'') ↔
      ∃ a s', p.run s = (.ok a, s') ∧ (q a).run s' = (.ok b, s'') := by
  change (p.bind q).run s = _ ↔ _
  induction p generalizing s with
  | done a =>
    constructor
    · intro h
      exact ⟨a, s, rfl, h⟩
    · rintro ⟨_, _, ⟨⟩, h⟩
      exact h
  | fail e => simp [Durable.bind, run]
  | read next ih => exact ih s
  | write label f next ih => exact ih

theorem run_bind_of_ok {p : Durable σ ω ε α} {q : α → Durable σ ω ε β} {s s' : σ} {a : α}
    (h : p.run s = (.ok a, s')) : (p >>= q).run s = (q a).run s' := by
  change (p.bind q).run s = _
  induction p generalizing s with
  | done b =>
    cases h
    rfl
  | fail e => cases h
  | read next ih => exact ih s h
  | write label f next ih => exact ih h

theorem run_bind_of_error {p : Durable σ ω ε α} {q : α → Durable σ ω ε β} {s s' : σ} {e : ε}
    (h : p.run s = (.error e, s')) : (p >>= q).run s = (.error e, s') := by
  change (p.bind q).run s = _
  induction p generalizing s with
  | done b => cases h
  | fail e =>
    cases h
    rfl
  | read next ih => exact ih s h
  | write label f next ih => exact ih h

theorem run_mapFailure_eq (g : ε → ε') (p : Durable σ ω ε α) (s : σ) :
    (p.mapFailure g).run s = ((p.run s).1.mapError g, (p.run s).2) := by
  induction p generalizing s with
  | done b => rfl
  | fail e => rfl
  | read next ih => exact ih s s
  | write label f next ih => exact ih (f s)

theorem run_mapFailure_of_error {g : ε → ε'} {p : Durable σ ω ε α} {s s' : σ} {e : ε}
    (h : p.run s = (.error e, s')) : (p.mapFailure g).run s = (.error (g e), s') := by
  rw [run_mapFailure_eq, h]
  rfl

theorem run_ofExcept_eq (x : Except ε α) (s : σ) :
    (ofExcept x : Durable σ ω ε α).run s = (x, s) := by
  cases x with
  | error e => rfl
  | ok a => rfl

theorem run_ofExcept {x : Except ε α} {s s' : σ} {a : α} :
    (ofExcept x : Durable σ ω ε α).run s = (.ok a, s') ↔ x = .ok a ∧ s' = s := by
  cases x with
  | error e => simp [ofExcept, run]
  | ok b => simp [ofExcept, run, eq_comm]

theorem run_mapFailure {g : ε → ε'} {p : Durable σ ω ε α} {s s' : σ} {a : α} :
    (p.mapFailure g).run s = (.ok a, s') ↔ p.run s = (.ok a, s') := by
  induction p generalizing s with
  | done b => simp [mapFailure, run]
  | fail e => simp [mapFailure, run]
  | read next ih => exact ih s
  | write label f next ih => exact ih

theorem fold_append (f : β → α → Durable σ ω ε β) (b : β) (as as' : List α) (s : σ) :
    (fold f b (as ++ as')).run s = (fold f b as >>= fun b' => fold f b' as').run s := by
  induction as generalizing b s with
  | nil => rfl
  | cons a as ih =>
    show (f b a >>= fun b' => fold f b' (as ++ as')).run s =
      ((f b a >>= fun b' => fold f b' as) >>= fun b' => fold f b' as').run s
    cases hrun : (f b a).run s with
    | mk result s' =>
      cases result with
      | error e => rw [run_bind_of_error hrun, run_bind_of_error (run_bind_of_error hrun)]
      | ok b' =>
        rw [run_bind_of_ok hrun, ih]
        cases hrest : (fold f b' as).run s' with
        | mk result' s'' =>
          have hboth : (f b a >>= fun b' => fold f b' as).run s = (result', s'') :=
            (run_bind_of_ok hrun).trans hrest
          cases result' with
          | error e => rw [run_bind_of_error hrest, run_bind_of_error hboth]
          | ok b'' => rw [run_bind_of_ok hrest, run_bind_of_ok hboth]

/-- A loop that fails stops in the first round that does. -/
theorem fold_error {f : β → α → Durable σ ω ε β} {b : β} {as : List α} {s s' : σ} {e : ε}
    (h : (fold f b as).run s = (.error e, s')) : ∃ before a after b' t, as = before ++ a :: after ∧
      (fold f b before).run s = (.ok b', t) ∧ (f b' a).run t = (.error e, s') := by
  induction as generalizing b s with
  | nil => cases h
  | cons a as ih =>
    cases hrun : (f b a).run s with
    | mk result t =>
      cases result with
      | error e' =>
        have hstop : (fold f b (a :: as)).run s = (.error e', t) := run_bind_of_error hrun
        rw [hstop] at h
        exact ⟨[], a, as, b, s, rfl, rfl, hrun.trans h⟩
      | ok b₁ =>
        have hrest : (fold f b₁ as).run t = (.error e, s') := (run_bind_of_ok hrun).symm.trans h
        obtain ⟨before, a', after, b', t', rfl, hbefore, hround⟩ := ih hrest
        exact ⟨a :: before, a', after, b', t', rfl, (run_bind_of_ok hrun).trans hbefore, hround⟩

def stopAfter : Durable σ ω ε α → Nat → σ → σ
  | done _, _, s => s
  | fail _, _, s => s
  | read next, n, s => (next s).stopAfter n s
  | write _ _ _, 0, s => s
  | write _ f next, n + 1, s => next.stopAfter n (f s)

theorem Executes.ofExcept {x : Except ε α} {s : σ} {a : α} (h : x = .ok a) :
    (Durable.ofExcept x : Durable σ ω ε α).Executes s [] (.ok a) s := by
  rw [h]
  exact ⟨rfl, rfl⟩

def leaves (p : Durable σ ω ε α) (stop : Option Nat) (s : σ) : σ :=
  p.stopAfter (stop.getD (p.writes s).length) s

theorem leaves_none (p : Durable σ ω ε α) (s : σ) : p.leaves none s = (p.run s).2 := by
  show p.stopAfter (p.writes s).length s = _
  induction p generalizing s with
  | done a => rfl
  | fail e => rfl
  | read next ih => exact ih s s
  | write label f next ih => exact ih (f s)

theorem stopAfter_zero (p : Durable σ ω ε α) (s : σ) : p.stopAfter 0 s = s := by
  induction p with
  | done a => rfl
  | fail e => rfl
  | read next ih => exact ih s
  | write label f next ih => rfl

theorem stopAfter_stopped (p : Durable σ ω ε α) (n : Nat) (s : σ) :
    ∃ last, p.Stopped s last (p.stopAfter n s) := by
  suffices h : p.stopAfter n s = s ∨ ∃ w ∈ p.writes s, w.2 = p.stopAfter n s by
    rcases h with h | ⟨w, hw, h⟩
    · rw [h]
      exact ⟨none, .start⟩
    · rw [← h]
      exact ⟨some w.1, .after hw⟩
  induction p generalizing n s with
  | done a => exact .inl rfl
  | fail e => exact .inl rfl
  | read next ih => exact ih s n s
  | write label f next ih =>
    cases n with
    | zero => exact .inl rfl
    | succ n =>
      rcases ih n (f s) with h | ⟨w, hw, h⟩
      · exact .inr ⟨_, List.mem_cons_self, h.symm⟩
      · exact .inr ⟨w, List.mem_cons_of_mem _ hw, h⟩

/-- Two parts stop in the second if the first one succeeds with fewer writes, else in the first. -/
theorem stopAfter_bind (p : Durable σ ω ε α) (q : α → Durable σ ω ε β) (n : Nat) (s : σ) :
    (∃ a s', p.run s = (.ok a, s') ∧ (p.writes s).length < n ∧
        (p >>= q).stopAfter n s = (q a).stopAfter (n - (p.writes s).length) s') ∨
      (∀ a s', p.run s = (.ok a, s') → n ≤ (p.writes s).length) ∧
        (p >>= q).stopAfter n s = p.stopAfter n s := by
  change (∃ a s', _ ∧ _ ∧ (p.bind q).stopAfter n s = _) ∨ _ ∧ (p.bind q).stopAfter n s = _
  induction p generalizing n s with
  | done a =>
    cases n with
    | zero =>
      refine .inr ⟨fun _ _ _ => Nat.zero_le _, ?_⟩
      exact stopAfter_zero (q a) s
    | succ n => exact .inl ⟨a, s, rfl, Nat.succ_pos n, rfl⟩
  | fail e => exact .inr ⟨fun _ _ h => (by cases h), rfl⟩
  | read next ih => exact ih s n s
  | write label f next ih =>
    cases n with
    | zero => exact .inr ⟨fun _ _ _ => Nat.zero_le _, rfl⟩
    | succ n =>
      rcases ih n (f s) with ⟨a, s', hrun, hlt, hstop⟩ | ⟨hlast, hstop⟩
      · refine .inl ⟨a, s', hrun, Nat.succ_lt_succ hlt, ?_⟩
        rw [writes, List.length_cons, Nat.add_sub_add_right]
        exact hstop
      · exact .inr ⟨fun a s' hrun => Nat.succ_le_succ (hlast a s' hrun), hstop⟩

theorem leaves_bind (p : Durable σ ω ε α) (q : α → Durable σ ω ε β) (stop : Option Nat) (s : σ) :
    (∃ a s' n, p.run s = (.ok a, s') ∧
        (p.writes s).length < stop.getD ((p >>= q).writes s).length ∧
        (p >>= q).leaves stop s = (q a).stopAfter (n + 1) s') ∨
      (∀ a s', p.run s = (.ok a, s') → stop.getD ((p >>= q).writes s).length ≤ (p.writes s).length) ∧
        ∃ n, (p >>= q).leaves stop s = p.stopAfter n s := by
  unfold leaves
  generalize stop.getD ((p >>= q).writes s).length = n
  rcases stopAfter_bind p q n s with ⟨a, s', hrun, hlt, hstop⟩ | ⟨hlast, hstop⟩
  · obtain ⟨m, hm⟩ := Nat.exists_eq_succ_of_ne_zero (Nat.sub_ne_zero_of_lt hlt)
    rw [hm] at hstop
    exact .inl ⟨a, s', m, hrun, hlt, hstop⟩
  · exact .inr ⟨hlast, n, hstop⟩

/-- From states with `P`, the store has `I` after every write, and a success leaves `Q`. -/
structure Contract (I P : σ → Prop) (p : Durable σ ω ε α) (Q : α → σ → Prop) : Prop where
  writes : ∀ s, P s → ∀ w ∈ p.writes s, I w.2
  result : ∀ s a s', P s → p.run s = (.ok a, s') → Q a s'

namespace Contract

variable {I P : σ → Prop} {p : Durable σ ω ε α} {Q : α → σ → Prop}

theorem mono {P' : σ → Prop} {Q' : α → σ → Prop} (h : Contract I P p Q) (hP : ∀ s, P' s → P s)
    (hQ : ∀ a s, Q a s → Q' a s) : Contract I P' p Q' where
  writes := fun s hs => h.writes s (hP s hs)
  result := fun s a s' hs hrun => hQ a s' (h.result s a s' (hP s hs) hrun)

theorem weaken {I' : σ → Prop} (h : Contract I P p Q) (hI : ∀ s, I s → I' s) :
    Contract I' P p Q where
  writes := fun s hs w hw => hI w.2 (h.writes s hs w hw)
  result := h.result

theorem done {a : α} (h : ∀ s, P s → Q a s) : Contract I P (done a : Durable σ ω ε α) Q where
  writes := fun s _ w hw => absurd hw List.not_mem_nil
  result := by
    intro s b s' hs hrun
    cases hrun
    exact h s hs

theorem pure {a : α} (h : ∀ s, P s → Q a s) :
    Contract I P (Pure.pure a : Durable σ ω ε α) Q := done h

theorem fail {e : ε} : Contract I P (fail e : Durable σ ω ε α) Q where
  writes := fun s _ w hw => absurd hw List.not_mem_nil
  result := fun s b s' _ hrun => by cases hrun

theorem read {next : σ → Durable σ ω ε α}
    (h : ∀ s, P s → Contract I (fun s' => s' = s) (next s) Q) : Contract I P (read next) Q where
  writes := fun s hs w hw => (h s hs).writes s rfl w hw
  result := fun s a s' hs hrun => (h s hs).result s a s' rfl hrun

theorem commit {label : ω} {f : σ → σ} {R : Unit → σ → Prop} (hI : ∀ s, P s → I (f s))
    (hR : ∀ s, P s → R () (f s)) :
    Contract I P (commit label f : Durable σ ω ε Unit) R where
  writes := by
    intro s hs w hw
    obtain rfl := List.mem_singleton.mp hw
    exact hI s hs
  result := by
    intro s a s' hs hrun
    cases hrun
    exact hR s hs

theorem bind {q : α → Durable σ ω ε β} {R : β → σ → Prop} (hp : Contract I P p Q)
    (hq : ∀ a, Contract I (Q a) (q a) R) : Contract I P (p >>= q) R := by
  suffices h : ∀ s, (∀ w ∈ p.writes s, I w.2) → (∀ a s', p.run s = (.ok a, s') → Q a s') →
      (∀ w ∈ (p >>= q).writes s, I w.2) ∧
        ∀ b s', (p >>= q).run s = (.ok b, s') → R b s' by
    constructor
    · intro s hs
      exact (h s (hp.writes s hs) fun a s' => hp.result s a s' hs).1
    · intro s b s' hs
      exact (h s (hp.writes s hs) fun a s' => hp.result s a s' hs).2 b s'
  intro s hwrites hresult
  change (∀ w ∈ (p.bind q).writes s, I w.2) ∧ ∀ b s', (p.bind q).run s = (.ok b, s') → R b s'
  clear hp
  induction p generalizing s with
  | done a =>
    have ha := hresult a s rfl
    exact ⟨(hq a).writes s ha, fun b s' => (hq a).result s b s' ha⟩
  | fail e => exact ⟨fun w hw => absurd hw List.not_mem_nil, fun b s' hrun => by cases hrun⟩
  | read next ih => exact ih s s hwrites hresult
  | write label f next ih =>
    obtain ⟨hw, hr⟩ := ih (f s) (fun w hw => hwrites w (List.mem_cons_of_mem _ hw)) hresult
    refine ⟨fun w hmem => ?_, hr⟩
    rcases List.mem_cons.mp hmem with rfl | hmem
    · exact hwrites _ List.mem_cons_self
    · exact hw w hmem

theorem stopAfter (h : Contract I P p Q) {s : σ} (hP : P s) (hI : I s) (n : Nat) :
    I (p.stopAfter n s) := by
  obtain ⟨last, hstop⟩ := stopAfter_stopped p n s
  generalize p.stopAfter n s = s' at hstop
  cases hstop with
  | start => exact hI
  | after hmem => exact h.writes s hP _ hmem

theorem leaves (h : Contract I P p Q) {s : σ} (hP : P s) (hI : I s) (stop : Option Nat) :
    I (p.leaves stop s) := h.stopAfter hP hI _

/-- The store is read, and what follows may use what is there. -/
theorem get {q : σ → Durable σ ω ε β} {R : β → σ → Prop}
    (h : ∀ s, P s → Contract I (fun s' => s' = s) (q s) R) : Contract I P (get >>= q) R :=
  read h

/-- A computation that fails or gives a value that what follows may use. -/
theorem ofExcept {x : Except ε α} {q : α → Durable σ ω ε β} {R : β → σ → Prop}
    (h : ∀ a, x = .ok a → Contract I P (q a) R) : Contract I P (ofExcept x >>= q) R := by
  cases x with
  | error e => exact fail
  | ok a => exact h a rfl

theorem last {x : Except ε α} (h : ∀ a, x = .ok a → ∀ s, P s → Q a s) :
    Contract I P (Durable.ofExcept x : Durable σ ω ε α) Q := by
  cases x with
  | error e => exact fail
  | ok a => exact done (h a rfl)

theorem mapFailure {g : ε → ε'} (h : Contract I P p Q) : Contract I P (p.mapFailure g) Q := by
  have hwrites : ∀ s, (p.mapFailure g).writes s = p.writes s := by
    clear h
    induction p with
    | done a => exact fun s => rfl
    | fail e => exact fun s => rfl
    | read next ih => exact fun s => ih s s
    | write label f next ih => exact fun s => congrArg (_ :: ·) (ih (f s))
  constructor
  · intro s hs
    rw [hwrites]
    exact h.writes s hs
  · intro s a s' hs hr
    exact h.result s a s' hs (run_mapFailure.mp hr)

theorem forEach {as : List α} {f : α → Durable σ ω ε Unit}
    (h : ∀ a ∈ as, Contract I P (f a) fun _ => P) :
    Contract I P (forEach f as) fun _ => P := by
  induction as with
  | nil => exact pure fun s hs => hs
  | cons a as ih =>
    exact (h a List.mem_cons_self).bind fun _ => ih fun b hb => h b (List.mem_cons_of_mem a hb)

/-- A loop with a value, by an invariant that speaks of the rounds to come. -/
theorem fold {as : List α} {f : β → α → Durable σ ω ε β} {J : List α → β → σ → Prop}
    (h : ∀ b a rest, Contract I (J (a :: rest) b) (f b a) (J rest)) (b : β) :
    Contract I (J as b) (fold f b as) (J []) := by
  induction as generalizing b with
  | nil => exact pure fun s hs => hs
  | cons a as ih => exact (h b a as).bind ih

theorem ite {c : Prop} [Decidable c] {p p' : Durable σ ω ε α} (h : c → Contract I P p Q)
    (h' : ¬c → Contract I P p' Q) : Contract I P (if c then p else p') Q := by
  by_cases hc : c
  · rw [if_pos hc]
    exact h hc
  · rw [if_neg hc]
    exact h' hc

end Contract

/-- The part `g` of the store is what it was, after every write and at the end. -/
def Keeps (g : σ → γ) (p : Durable σ ω ε α) : Prop :=
  ∀ c, p.Contract (g · = c) (g · = c) fun _ s => g s = c

theorem run_bind_pure (p : Durable σ ω ε α) (f : α → β) (s : σ) :
    ((p >>= fun a => Pure.pure (f a)).run s).2 = (p.run s).2 := by
  cases hrun : p.run s with
  | mk result s' =>
    cases result with
    | error e => rw [run_bind_of_error hrun]
    | ok a =>
      rw [run_bind_of_ok hrun]
      rfl

namespace Keeps

variable {g : σ → γ}

theorem pure {a : α} : Keeps g (Pure.pure a : Durable σ ω ε α) := fun _ => .pure fun _ hs => hs

theorem fail {e : ε} : Keeps g (Durable.fail e : Durable σ ω ε α) := fun _ => .fail

theorem commit {label : ω} {f : σ → σ} (h : ∀ s, g (f s) = g s) :
    Keeps g (Durable.commit label f : Durable σ ω ε Unit) := by
  intro c
  exact .commit (fun s hs => (h s).trans hs) fun s hs => (h s).trans hs

theorem bind {p : Durable σ ω ε α} {q : α → Durable σ ω ε β} (hp : Keeps g p)
    (hq : ∀ a, Keeps g (q a)) : Keeps g (p >>= q) := fun c => (hp c).bind fun a => hq a c

theorem get {q : σ → Durable σ ω ε β} (hq : ∀ s, Keeps g (q s)) :
    Keeps g (Durable.get >>= q) := by
  intro c
  refine .get fun s hs => ?_
  exact (hq s c).mono (fun s' heq => heq ▸ hs) fun _ _ h => h

theorem ofExcept {x : Except ε α} {q : α → Durable σ ω ε β} (hq : ∀ a, x = .ok a → Keeps g (q a)) :
    Keeps g (Durable.ofExcept x >>= q) := fun c => .ofExcept fun a ha => hq a ha c

theorem mapFailure {p : Durable σ ω ε α} {f : ε → ε'} (hp : Keeps g p) :
    Keeps g (p.mapFailure f) := fun c => (hp c).mapFailure

theorem forEach {f : α → Durable σ ω ε Unit} {as : List α} (h : ∀ a ∈ as, Keeps g (f a)) :
    Keeps g (Durable.forEach f as) := fun c => .forEach fun a ha => h a ha c

theorem ite {c : Prop} [Decidable c] {p p' : Durable σ ω ε α} (h : c → Keeps g p)
    (h' : ¬c → Keeps g p') : Keeps g (if c then p else p') :=
  fun x => .ite (fun hc => h hc x) fun hc => h' hc x

end Keeps

/-- A conjunct that is known outside is carried along. -/
theorem Contract.frame {I P : σ → Prop} {p : Durable σ ω ε α} {Q : α → σ → Prop} {c : Prop}
    (h : c → Contract I P p Q) : Contract I (fun s => c ∧ P s) p fun a s => c ∧ Q a s where
  writes := fun s hs => (h hs.1).writes s hs.2
  result := fun s a s' hs hrun => ⟨hs.1, (h hs.1).result s a s' hs.2 hrun⟩

/-- A conjunct of a precondition that does not speak of the store is an assumption. -/
theorem Contract.assume {I P : σ → Prop} {p : Durable σ ω ε α} {Q : α → σ → Prop} {c : Prop}
    (h : c → Contract I P p Q) : Contract I (fun s => c ∧ P s) p Q where
  writes := fun s hs => (h hs.1).writes s hs.2
  result := fun s a s' hs hrun => (h hs.1).result s a s' hs.2 hrun

theorem Contract.exists {ι : Type} {I : σ → Prop} {P : ι → σ → Prop} {p : Durable σ ω ε α}
    {Q : α → σ → Prop} (h : ∀ i, Contract I (P i) p Q) : Contract I (fun s => ∃ i, P i s) p Q where
  writes := fun s ⟨i, hs⟩ => (h i).writes s hs
  result := fun s a s' ⟨i, hs⟩ hrun => (h i).result s a s' hs hrun

end Memoark.Program.Durable
