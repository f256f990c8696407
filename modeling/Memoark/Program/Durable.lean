/-! Programs over a store that outlives the process: what a run writes, the states that a stopped
process can leave, and what holds across any number of stopped runs. -/
namespace Memoark.Program

/-- A program that reads a store and writes to it; each write happens as a whole or not at all,
and `ω` says which write it is. -/
inductive Durable (σ ω ε α : Type) where
  | done (a : α)
  | fail (e : ε)
  | read (next : σ → Durable σ ω ε α)
  | write (label : ω) (f : σ → σ) (next : Durable σ ω ε α)

namespace Durable

variable {σ ω ε α β : Type}

protected def bind : Durable σ ω ε α → (α → Durable σ ω ε β) → Durable σ ω ε β
  | done a, q => q a
  | fail e, _ => fail e
  | read next, q => read fun s => (next s).bind q
  | write label f next, q => write label f (next.bind q)

instance : Monad (Durable σ ω ε) where
  pure := done
  bind := Durable.bind

def get : Durable σ ω ε σ := read done

def commit (label : ω) (f : σ → σ) : Durable σ ω ε Unit := write label f (done ())

def mapError (g : ε → ε) : Durable σ ω ε α → Durable σ ω ε α
  | done a => done a
  | fail e => fail (g e)
  | read next => read fun s => (next s).mapError g
  | write label f next => write label f (next.mapError g)

def run : Durable σ ω ε α → σ → Except ε α × σ
  | done a, s => (.ok a, s)
  | fail e, s => (.error e, s)
  | read next, s => (next s).run s
  | write _ f next, s => next.run (f s)

def writes : Durable σ ω ε α → σ → List (ω × σ)
  | done _, _ => []
  | fail _, _ => []
  | read next, s => (next s).writes s
  | write label f next, s => (label, f s) :: next.writes (f s)

inductive Stopped (p : Durable σ ω ε α) (s : σ) : Option ω → σ → Prop
  | start : Stopped p s none s
  | after {label : ω} {s' : σ} : (label, s') ∈ p.writes s → Stopped p s (some label) s'

/-- Any number of runs one after another, each stopped where `C` allows it. -/
inductive Interrupted (C : Option ω → Prop) (p : Durable σ ω ε α) (s : σ) : σ → Prop
  | none : Interrupted C p s s
  | again {s' s'' : σ} {last : Option ω} :
      Interrupted C p s s' → Stopped p s' last s'' → C last → Interrupted C p s s''

/-- What holds before the first write and after each write that may come last survives any number
of stopped runs. -/
theorem Interrupted.invariant {C : Option ω → Prop} {p : Durable σ ω ε α} {s s' : σ}
    {I : σ → Prop} (h : Interrupted C p s s') (hs : I s)
    (hw : ∀ t, I t → ∀ label t', (label, t') ∈ p.writes t → C (some label) → I t') : I s' := by
  induction h with
  | none => exact hs
  | again _ hstop hc ih =>
    cases hstop with
    | start => exact ih
    | after hmem => exact hw _ ih _ _ hmem hc

structure Executes (p : Durable σ ω ε α) (s : σ) (ws : List (ω × σ)) (r : Except ε α) (s' : σ) :
    Prop where
  writes : p.writes s = ws
  run : p.run s = (r, s')

namespace Executes

variable {p : Durable σ ω ε α} {q : α → Durable σ ω ε β} {s s' s'' : σ} {a : α} {e : ε}
  {ws ws' : List (ω × σ)} {r : Except ε β}

theorem pure : Executes (Pure.pure a : Durable σ ω ε α) s [] (.ok a) s := ⟨rfl, rfl⟩

theorem fail : Executes (fail e : Durable σ ω ε α) s [] (.error e) s := ⟨rfl, rfl⟩

theorem get : Executes (get : Durable σ ω ε σ) s [] (.ok s) s := ⟨rfl, rfl⟩

theorem commit {label : ω} {f : σ → σ} :
    Executes (commit label f : Durable σ ω ε Unit) s [(label, f s)] (.ok ()) (f s) := ⟨rfl, rfl⟩

theorem bind (hp : Executes p s ws (.ok a) s') (hq : Executes (q a) s' ws' r s'') :
    Executes (p >>= q) s (ws ++ ws') r s'' := by
  obtain ⟨rfl, hp⟩ := hp
  obtain ⟨rfl, hq⟩ := hq
  change Executes (p.bind q) s _ _ _
  induction p generalizing s with
  | done b =>
    obtain ⟨rfl, rfl⟩ : b = a ∧ s = s' := by simpa [Durable.run] using hp
    exact ⟨rfl, hq⟩
  | fail e => cases hp
  | read next ih =>
    have h := ih s hp
    exact ⟨h.writes, h.run⟩
  | write label f next ih =>
    have h := ih hp
    exact ⟨congrArg (_ :: ·) h.writes, h.run⟩

theorem bind_error (hp : Executes p s ws (.error e) s') :
    Executes (p >>= q) s ws (.error e) s' := by
  obtain ⟨rfl, hp⟩ := hp
  change Executes (p.bind q) s _ _ _
  induction p generalizing s with
  | done b => cases hp
  | fail e' =>
    obtain ⟨rfl, rfl⟩ : e' = e ∧ s = s' := by simpa [Durable.run] using hp
    exact ⟨rfl, rfl⟩
  | read next ih =>
    have h := ih s hp
    exact ⟨h.writes, h.run⟩
  | write label f next ih =>
    have h := ih hp
    exact ⟨congrArg (_ :: ·) h.writes, h.run⟩

theorem bind_read (hp : Executes p s [] (.ok a) s) (hq : Executes (q a) s ws r s') :
    Executes (p >>= q) s ws r s' := hp.bind hq

theorem mapError {g : ε → ε} {r : Except ε α} (hp : Executes p s ws r s') :
    Executes (p.mapError g) s ws (r.mapError g) s' := by
  obtain ⟨rfl, hp⟩ := hp
  induction p generalizing s with
  | done b =>
    obtain ⟨rfl, rfl⟩ : .ok b = r ∧ s = s' := by simpa [Durable.run] using hp
    exact ⟨rfl, rfl⟩
  | fail e =>
    obtain ⟨rfl, rfl⟩ : .error e = r ∧ s = s' := by simpa [Durable.run] using hp
    exact ⟨rfl, rfl⟩
  | read next ih =>
    have h := ih s hp
    exact ⟨h.writes, h.run⟩
  | write label f next ih =>
    have h := ih hp
    exact ⟨congrArg (_ :: ·) h.writes, h.run⟩

end Executes

end Durable

end Memoark.Program
