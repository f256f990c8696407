/-! Lists cut at the separators that stand outside all brackets. -/
namespace Memoark.Syntax

variable {τ α β : Type}

/-- Two lists of pieces side by side: the last piece of the first and the first piece of the
second become one. -/
def glue : List (List α) → List (List α) → List (List α)
  | [], qs => qs
  | [p], [] => [p]
  | [p], q :: qs => (p ++ q) :: qs
  | p :: p' :: ps, qs => p :: glue (p' :: ps) qs

theorem glue_single (p q : List α) (qs : List (List α)) : glue [p] (q :: qs) = (p ++ q) :: qs := rfl

theorem glue_cons (p : List α) {ps : List (List α)} (h : ps ≠ []) (qs : List (List α)) :
    glue (p :: ps) qs = p :: glue ps qs := by
  cases ps with
  | nil => exact absurd rfl h
  | cons p' ps => rfl

theorem glue_ne_nil {ps : List (List α)} (h : ps ≠ []) (qs : List (List α)) : glue ps qs ≠ [] := by
  match ps, qs with
  | [], _ => exact absurd rfl h
  | [p], [] => exact List.cons_ne_nil p []
  | [p], q :: qs => exact List.cons_ne_nil (p ++ q) qs
  | p :: p' :: ps, qs => exact List.cons_ne_nil p (glue (p' :: ps) qs)

theorem glue_nil_piece {ps : List (List α)} (h : ps ≠ []) : glue [[]] ps = ps := by
  cases ps with
  | nil => exact absurd rfl h
  | cons p ps => rfl

theorem glue_assoc {ps qs rs : List (List α)} (hp : ps ≠ []) (hq : qs ≠ []) :
    glue (glue ps qs) rs = glue ps (glue qs rs) := by
  induction ps with
  | nil => exact absurd rfl hp
  | cons p ps ih =>
    cases ps with
    | nil =>
      match qs, rs with
      | [], _ => exact absurd rfl hq
      | [q], [] => rfl
      | [q], r :: rs => simp [glue_single]
      | q :: q' :: qs, rs => rfl
    | cons p' ps =>
      have hne := List.cons_ne_nil p' ps
      rw [glue_cons p hne, glue_cons p (glue_ne_nil hne qs), ih hne, glue_cons p hne]

theorem length_glue_single {ps : List (List α)} (h : ps ≠ []) (q : List α) :
    (glue ps [q]).length = ps.length := by
  induction ps with
  | nil => exact absurd rfl h
  | cons p ps ih =>
    cases ps with
    | nil => rfl
    | cons p' ps =>
      have hne := List.cons_ne_nil p' ps
      simp [glue_cons p hne, ih hne]

theorem glue_empty {ps : List (List α)} (h : ps ≠ []) : glue ps [[]] = ps := by
  induction ps with
  | nil => exact absurd rfl h
  | cons p ps ih =>
    cases ps with
    | nil => simp [glue_single]
    | cons p' ps =>
      have hne := List.cons_ne_nil p' ps
      rw [glue_cons p hne, ih hne]

theorem getElem_glue_single {ps : List (List α)} (h : ps ≠ []) (q : List α) (i : Nat)
    (hi : i < ps.length) (hi' : i < (glue ps [q]).length) :
    (glue ps [q])[i] = if i + 1 = ps.length then ps[i] ++ q else ps[i] := by
  induction ps generalizing i with
  | nil => exact absurd rfl h
  | cons p ps ih =>
    cases ps with
    | nil =>
      obtain rfl : i = 0 := by simpa using hi
      rfl
    | cons p' ps =>
      have hne := List.cons_ne_nil p' ps
      cases i with
      | zero => rfl
      | succ i =>
        have hlt : i < (p' :: ps).length := by simpa using hi
        have hlt' : i < (glue (p' :: ps) [q]).length := by
          rw [length_glue_single hne]
          exact hlt
        have hrest := ih hne i hlt hlt'
        simpa [glue_cons p hne] using hrest

theorem exists_of_mapM {f : α → Option β} {l : List α} {ys : List β} (h : l.mapM f = some ys) :
    ∀ x ∈ l, ∃ y, f x = some y := by
  induction l generalizing ys with
  | nil => simp
  | cons x xs ih =>
    intro z hz
    rw [List.mapM_cons] at h
    obtain ⟨y, hy, hrest⟩ := Option.bind_eq_some_iff.mp h
    obtain ⟨ys', hys, -⟩ := Option.bind_eq_some_iff.mp hrest
    rcases List.mem_cons.mp hz with rfl | hmem
    · exact ⟨y, hy⟩
    · exact ih hys z hmem

theorem mem_of_mapM {f : α → Option β} {l : List α} {ys : List β} (h : l.mapM f = some ys) :
    ∀ y ∈ ys, ∃ x ∈ l, f x = some y := by
  induction l generalizing ys with
  | nil =>
    cases h
    simp
  | cons x xs ih =>
    intro z hz
    rw [List.mapM_cons] at h
    obtain ⟨y, hy, hrest⟩ := Option.bind_eq_some_iff.mp h
    obtain ⟨ys', hys, hcons⟩ := Option.bind_eq_some_iff.mp hrest
    cases hcons
    rcases List.mem_cons.mp hz with rfl | hmem
    · exact ⟨x, List.mem_cons_self, hy⟩
    · obtain ⟨w, hw, hvalue⟩ := ih hys z hmem
      exact ⟨w, List.mem_cons_of_mem x hw, hvalue⟩

theorem ne_nil_of_mapM {f : α → Option β} {l : List α} {ys : List β} (hl : l ≠ [])
    (h : l.mapM f = some ys) : ys ≠ [] := by
  cases l with
  | nil => exact absurd rfl hl
  | cons x xs =>
    rw [List.mapM_cons] at h
    obtain ⟨y, -, hrest⟩ := Option.bind_eq_some_iff.mp h
    obtain ⟨ys', -, hcons⟩ := Option.bind_eq_some_iff.mp hrest
    cases hcons
    exact List.cons_ne_nil y ys'

theorem mapM_glue {f : α → Option β} {ps qs : List (List α)} {xs ys : List (List β)}
    (hp : ps.mapM (fun p => p.mapM f) = some xs) (hq : qs.mapM (fun q => q.mapM f) = some ys) :
    (glue ps qs).mapM (fun p => p.mapM f) = some (glue xs ys) := by
  induction ps generalizing xs with
  | nil =>
    cases hp
    exact hq
  | cons p ps ih =>
    rw [List.mapM_cons] at hp
    obtain ⟨x, hx, hrest⟩ := Option.bind_eq_some_iff.mp hp
    obtain ⟨xs', hxs, hcons⟩ := Option.bind_eq_some_iff.mp hrest
    cases hcons
    cases ps with
    | nil =>
      cases hxs
      cases qs with
      | nil =>
        cases hq
        exact hp
      | cons q qs =>
        rw [List.mapM_cons] at hq
        obtain ⟨y, hy, hrest⟩ := Option.bind_eq_some_iff.mp hq
        obtain ⟨ys', hys, hcons⟩ := Option.bind_eq_some_iff.mp hrest
        cases hcons
        simp [glue_single, hx, hy, hys]
    | cons p' ps =>
      have hall := ih hxs
      rw [List.mapM_cons] at hxs
      obtain ⟨x', -, hrest⟩ := Option.bind_eq_some_iff.mp hxs
      obtain ⟨xs'', -, hcons⟩ := Option.bind_eq_some_iff.mp hrest
      cases hcons
      rw [glue_cons p (List.cons_ne_nil p' ps), glue_cons x (List.cons_ne_nil x' xs''),
        List.mapM_cons, hx, hall]
      rfl

/-- The brackets of a language: how deep in them a token leaves the reader. -/
structure Brackets (τ : Type) where
  depth : Nat → τ → Nat

namespace Brackets

variable (b : Brackets τ)

def depthAfter (d : Nat) (ts : List τ) : Nat := ts.foldl b.depth d

def Closed (ts : List τ) : Prop := b.depthAfter 0 ts = 0

instance (ts : List τ) : Decidable (b.Closed ts) := inferInstanceAs (Decidable (_ = _))

def Flat (t : τ) : Prop := ∀ d, b.depth d t = d

theorem depthAfter_append (d : Nat) (ts us : List τ) :
    b.depthAfter d (ts ++ us) = b.depthAfter (b.depthAfter d ts) us := List.foldl_append

variable [DecidableEq τ]

def cut (sep : τ) : Nat → List τ → List (List τ)
  | _, [] => [[]]
  | d, t :: ts => if d = 0 ∧ t = sep then [] :: cut sep 0 ts else glue [[t]] (cut sep (b.depth d t) ts)

variable (sep : τ)

@[simp] theorem cut_nil (d : Nat) : b.cut sep d [] = [[]] := rfl

theorem cut_cons (d : Nat) (t : τ) (ts : List τ) :
    b.cut sep d (t :: ts) =
      if d = 0 ∧ t = sep then [] :: b.cut sep 0 ts
      else glue [[t]] (b.cut sep (b.depth d t) ts) := rfl

theorem cut_ne_nil (d : Nat) (ts : List τ) : b.cut sep d ts ≠ [] := by
  cases ts with
  | nil => exact List.cons_ne_nil [] []
  | cons t ts =>
    rw [cut_cons]
    split
    · exact List.cons_ne_nil [] _
    · exact glue_ne_nil (List.cons_ne_nil [t] []) _

theorem mem_of_mem_cut {sep : τ} {d : Nat} {ts p : List τ} (hp : p ∈ b.cut sep d ts) {t : τ}
    (ht : t ∈ p) : t ∈ ts := by
  induction ts generalizing d p with
  | nil =>
    rw [cut_nil, List.mem_singleton] at hp
    rw [hp] at ht
    cases ht
  | cons u ts ih =>
    rw [cut_cons] at hp
    split at hp
    · rcases List.mem_cons.mp hp with rfl | hp
      · cases ht
      · exact List.mem_cons_of_mem u (ih hp ht)
    · cases hpieces : b.cut sep (b.depth d u) ts with
      | nil => exact absurd hpieces (b.cut_ne_nil sep (b.depth d u) ts)
      | cons q qs =>
        rw [hpieces, glue_single, List.mem_cons] at hp
        rcases hp with rfl | hp
        · rcases List.mem_cons.mp ht with rfl | ht
          · exact List.mem_cons_self
          · exact List.mem_cons_of_mem u (ih (hpieces ▸ List.mem_cons_self) ht)
        · exact List.mem_cons_of_mem u (ih (hpieces ▸ List.mem_cons_of_mem q hp) ht)

theorem cut_append {sep : τ} (hsep : b.Flat sep) (d : Nat) (ts us : List τ) :
    b.cut sep d (ts ++ us) = glue (b.cut sep d ts) (b.cut sep (b.depthAfter d ts) us) := by
  induction ts generalizing d with
  | nil => exact (glue_nil_piece (b.cut_ne_nil sep d us)).symm
  | cons t ts ih =>
    have hrest := b.cut_ne_nil sep (b.depth d t) ts
    rw [List.cons_append, cut_cons, cut_cons]
    split
    · rename_i hcut
      obtain ⟨rfl, rfl⟩ := hcut
      have hdepth : b.depthAfter 0 (t :: ts) = b.depthAfter 0 ts := by
        show b.depthAfter (b.depth 0 t) ts = b.depthAfter 0 ts
        rw [hsep 0]
      rw [ih, hdepth, glue_cons [] (b.cut_ne_nil t 0 ts)]
    · rw [ih, glue_assoc (List.cons_ne_nil [t] []) hrest]
      rfl

theorem cut_of_not_mem {sep : τ} {ts : List τ} (h : sep ∉ ts) (d : Nat) :
    b.cut sep d ts = [ts] := by
  induction ts generalizing d with
  | nil => rfl
  | cons t ts ih =>
    obtain ⟨hne, hrest⟩ := List.ne_and_not_mem_of_not_mem_cons h
    rw [cut_cons, if_neg (fun hc => hne hc.2.symm), ih hrest]
    rfl

theorem cut_around {sep t : τ} (hsep : b.Flat sep) (ht : b.Flat t) (hne : t ≠ sep) {ts : List τ}
    (h : b.Closed ts) (us : List τ) :
    b.cut sep 0 (ts ++ t :: us) = glue (b.cut sep 0 ts) (glue [[t]] (b.cut sep 0 us)) := by
  rw [b.cut_append hsep, show b.depthAfter 0 ts = 0 from h, cut_cons,
    if_neg (fun hc => hne hc.2), ht 0]

theorem cut_between {sep : τ} (hsep : b.Flat sep) {ts us : List τ} (h : b.Closed ts) :
    b.cut sep 0 (ts ++ sep :: us) = b.cut sep 0 ts ++ b.cut sep 0 us := by
  have hglue : ∀ {ps : List (List τ)} (qs : List (List τ)), ps ≠ [] →
      glue ps ([] :: qs) = ps ++ qs := by
    intro ps qs hps
    induction ps with
    | nil => exact absurd rfl hps
    | cons p ps ih =>
      cases ps with
      | nil => simp [glue_single]
      | cons p' ps => rw [glue_cons p (List.cons_ne_nil p' ps), ih (List.cons_ne_nil p' ps)]; rfl
  rw [b.cut_append hsep, show b.depthAfter 0 ts = 0 from h, cut_cons, if_pos ⟨rfl, rfl⟩,
    hglue _ (b.cut_ne_nil sep 0 ts)]

/-- Where two lists of closed pieces meet at a separator, the pieces of the pieces are side by
side. -/
theorem map_cut_around {sep : τ} (hsep : b.Flat sep) {ps qs : List (List τ)} (hp : ps ≠ [])
    (hclosed : ∀ p ∈ ps, b.Closed p) (hq : qs ≠ []) :
    (glue ps (glue [[sep]] qs)).map (b.cut sep 0) =
      glue (ps.map (b.cut sep 0)) (qs.map (b.cut sep 0)) := by
  induction ps with
  | nil => exact absurd rfl hp
  | cons p ps ih =>
    have hfirst := hclosed p (by simp)
    cases ps with
    | nil =>
      cases qs with
      | nil => exact absurd rfl hq
      | cons q qs =>
        have hcut : b.cut sep 0 (p ++ sep :: q) = b.cut sep 0 p ++ b.cut sep 0 q :=
          b.cut_between hsep hfirst
        simp [glue_single, hcut]
    | cons p' ps =>
      have hne := List.cons_ne_nil p' ps
      rw [glue_cons p hne, List.map_cons, ih hne fun q h => hclosed q (List.mem_cons_of_mem p h),
        List.map_cons]
      rfl

theorem closed_iff_pieces {sep : τ} (hsep : b.Flat sep) (d : Nat) (ts : List τ) :
    b.depthAfter d ts = 0 ↔
      (∀ p ∈ (b.cut sep d ts).head?, b.depthAfter d p = 0) ∧
        ∀ p ∈ (b.cut sep d ts).tail, b.Closed p := by
  induction ts generalizing d with
  | nil => simp
  | cons t ts ih =>
    have hnext : b.depthAfter d (t :: ts) = b.depthAfter (b.depth d t) ts := rfl
    rw [hnext, ih, cut_cons]
    split
    · rename_i hcut
      obtain ⟨rfl, rfl⟩ := hcut
      have hdepth : b.depth 0 t = 0 := hsep 0
      have hempty : b.depthAfter 0 [] = 0 := rfl
      rw [hdepth]
      cases hpieces : b.cut t 0 ts with
      | nil => exact absurd hpieces (b.cut_ne_nil t 0 ts)
      | cons p ps => simp [hempty, Closed]
    · cases hpieces : b.cut sep (b.depth d t) ts with
      | nil => exact absurd hpieces (b.cut_ne_nil sep (b.depth d t) ts)
      | cons p ps =>
        have hfirst : b.depthAfter d (t :: p) = b.depthAfter (b.depth d t) p := rfl
        simp [glue_single, hfirst]

theorem closed_of_pieces {sep : τ} (hsep : b.Flat sep) {ts : List τ}
    (h : ∀ p ∈ b.cut sep 0 ts, b.Closed p) : b.Closed ts := by
  refine (b.closed_iff_pieces hsep 0 ts).mpr ⟨fun p hp => h p ?_, fun p hp => h p ?_⟩
  · exact List.mem_of_mem_head? hp
  · exact List.mem_of_mem_tail hp

theorem closed_piece {sep : τ} (hsep : b.Flat sep) {ts : List τ} (h : b.Closed ts) {p : List τ}
    (hp : p ∈ b.cut sep 0 ts) : b.Closed p := by
  obtain ⟨hfirst, hrest⟩ := (b.closed_iff_pieces hsep 0 ts).mp h
  cases hpieces : b.cut sep 0 ts with
  | nil => exact absurd hpieces (b.cut_ne_nil sep 0 ts)
  | cons q qs =>
    rw [hpieces] at hp hfirst hrest
    rcases List.mem_cons.mp hp with rfl | hmem
    · exact hfirst p (by simp)
    · exact hrest p (by simpa using hmem)

end Brackets

end Memoark.Syntax
