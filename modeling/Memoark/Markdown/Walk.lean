/-! Trees of nodes, and the walk over them that calls a walker when it enters and when it leaves a
node. The walk is that of goldmark's `ast` package, which is not in the repository: it is modelled
as it is documented. -/
namespace Memoark.Markdown

inductive Node (κ : Type) where
  | node (kind : κ) (children : List (Node κ))

def Node.kind {κ : Type} : Node κ → κ
  | .node kind _ => kind

def Node.children {κ : Type} : Node κ → List (Node κ)
  | .node _ children => children

inductive WalkStatus where
  | WalkStop | WalkSkipChildren | WalkContinue
  deriving DecidableEq

/-- A walker gets the kinds of the ancestors, nearest first, the node, and whether it is entered. -/
abbrev Walker (κ σ : Type) := List κ → Node κ → Bool → σ → σ × WalkStatus

section walk

variable {κ σ τ : Type}

def leave (w : Walker κ σ) (ancestors : List κ) (n : Node κ) (s : σ) : σ × Bool :=
  ((w ancestors n false s).1, decide ((w ancestors n false s).2 = .WalkStop))

mutual

/-- `ast.Walk`: the state at its end, and whether the walker has stopped it. -/
def walk (w : Walker κ σ) (ancestors : List κ) (s : σ) : Node κ → σ × Bool
  | .node kind children =>
    let entered := w ancestors (.node kind children) true s
    if entered.2 = .WalkStop then (entered.1, true)
    else if entered.2 = .WalkSkipChildren then leave w ancestors (.node kind children) entered.1
    else
      let walked := walkChildren w (kind :: ancestors) entered.1 children
      if walked.2 then walked else leave w ancestors (.node kind children) walked.1

def walkChildren (w : Walker κ σ) (ancestors : List κ) (s : σ) : List (Node κ) → σ × Bool
  | [] => (s, false)
  | n :: ns =>
    let walked := walk w ancestors s n
    if walked.2 then walked else walkChildren w ancestors walked.1 ns

end

abbrev Visit (κ : Type) := List κ × Node κ

mutual

def visits (ancestors : List κ) : Node κ → List (Visit κ)
  | .node kind children =>
    (ancestors, .node kind children) :: visitsChildren (kind :: ancestors) children

def visitsChildren (ancestors : List κ) : List (Node κ) → List (Visit κ)
  | [] => []
  | n :: ns => visits ancestors n ++ visitsChildren ancestors ns

end

structure Enters (w : Walker κ σ) (f : σ → Visit κ → σ) : Prop where
  enter : ∀ ancestors n s, w ancestors n true s = (f s (ancestors, n), .WalkContinue)
  leave : ∀ ancestors n s, w ancestors n false s = (s, .WalkContinue)

variable {w w' : Walker κ σ} {f : σ → Visit κ → σ}

mutual

theorem walk_eq_foldl (h : Enters w f) (ancestors : List κ) (s : σ) (n : Node κ) :
    walk w ancestors s n = ((visits ancestors n).foldl f s, false) := by
  cases n with
  | node kind children =>
    have hchildren := walkChildren_eq_foldl h (kind :: ancestors)
      (f s (ancestors, .node kind children)) children
    simp [walk, visits, h.enter, hchildren, Markdown.leave, h.leave]

theorem walkChildren_eq_foldl (h : Enters w f) (ancestors : List κ) (s : σ)
    (ns : List (Node κ)) :
    walkChildren w ancestors s ns = ((visitsChildren ancestors ns).foldl f s, false) := by
  cases ns with
  | nil => rfl
  | cons n ns =>
    have hfirst := walk_eq_foldl h ancestors s n
    have hrest := walkChildren_eq_foldl h ancestors ((visits ancestors n).foldl f s) ns
    simp [walkChildren, visitsChildren, hfirst, hrest, List.foldl_append]

end

def onEnter (w : Walker κ σ) (s : σ) (v : Visit κ) : σ := (w v.1 v.2 true s).1

theorem enters_onEnter (henter : ∀ ancestors n s, (w ancestors n true s).2 = .WalkContinue)
    (hleave : ∀ ancestors n s, w ancestors n false s = (s, .WalkContinue)) :
    Enters w (onEnter w) where
  enter ancestors n s := Prod.ext rfl (henter ancestors n s)
  leave := hleave

/-- The second walker does what the first does, but does not stop, and the states only grow. -/
structure GoesOn (R : σ → σ → Prop) (w w' : Walker κ σ) : Prop where
  same : ∀ ancestors n entering s, (w ancestors n entering s).2 ≠ .WalkStop →
    w' ancestors n entering s = w ancestors n entering s
  past : ∀ ancestors n entering s, (w ancestors n entering s).2 = .WalkStop →
    (w' ancestors n entering s).1 = (w ancestors n entering s).1
  grow : ∀ ancestors n entering s, R s (w' ancestors n entering s).1
  never : ∀ ancestors n entering s, (w' ancestors n entering s).2 ≠ .WalkStop
  refl : ∀ s, R s s
  trans : ∀ s t u, R s t → R t u → R s u

variable {R : σ → σ → Prop}

theorem GoesOn.leave_grow (h : GoesOn R w w') (ancestors : List κ) (n : Node κ) (s : σ) :
    R s (leave w' ancestors n s).1 ∧ (leave w' ancestors n s).2 = false :=
  ⟨h.grow ancestors n false s, decide_eq_false (h.never ancestors n false s)⟩

mutual

theorem walk_grow (h : GoesOn R w w') (ancestors : List κ) (s : σ) (n : Node κ) :
    R (w' ancestors n true s).1 (walk w' ancestors s n).1 ∧
      (walk w' ancestors s n).2 = false := by
  cases n with
  | node kind children =>
    have hnever := h.never ancestors (.node kind children) true s
    obtain ⟨hchildren, hended⟩ := walkChildren_grow h (kind :: ancestors)
      (w' ancestors (.node kind children) true s).1 children
    unfold walk
    dsimp only
    rw [if_neg hnever]
    split
    · exact h.leave_grow ancestors (.node kind children) _
    · rw [hended, if_neg Bool.false_ne_true]
      obtain ⟨hleave, hstop⟩ := h.leave_grow ancestors (.node kind children)
        (walkChildren w' (kind :: ancestors) (w' ancestors (.node kind children) true s).1
          children).1
      exact ⟨h.trans _ _ _ hchildren hleave, hstop⟩

theorem walkChildren_grow (h : GoesOn R w w') (ancestors : List κ) (s : σ) (ns : List (Node κ)) :
    R s (walkChildren w' ancestors s ns).1 ∧ (walkChildren w' ancestors s ns).2 = false := by
  cases ns with
  | nil => exact ⟨h.refl s, rfl⟩
  | cons n ns =>
    have henter := h.grow ancestors n true s
    obtain ⟨hfirst, hended⟩ := walk_grow h ancestors s n
    obtain ⟨hrest, hstop⟩ := walkChildren_grow h ancestors (walk w' ancestors s n).1 ns
    unfold walkChildren
    dsimp only
    rw [hended, if_neg Bool.false_ne_true]
    exact ⟨h.trans _ _ _ henter (h.trans _ _ _ hfirst hrest), hstop⟩

end

/-- The outcome of a walk that may stop, beside that of the walk that goes on to its end. -/
def Beside (R : σ → σ → Prop) (stopped ended : σ × Bool) : Prop :=
  if stopped.2 then R stopped.1 ended.1 else ended = stopped

theorem Beside.stop {stopped ended : σ × Bool} (hstop : stopped.2 = true)
    (h : R stopped.1 ended.1) : Beside R stopped ended := by
  unfold Beside
  rw [if_pos hstop]
  exact h

theorem GoesOn.leave_beside (h : GoesOn R w w') (ancestors : List κ) (n : Node κ) (s : σ) :
    Beside R (leave w ancestors n s) (leave w' ancestors n s) := by
  unfold Beside leave
  dsimp only
  by_cases hstop : (w ancestors n false s).2 = .WalkStop
  · rw [decide_eq_true hstop, if_pos rfl, h.past ancestors n false s hstop]
    exact h.refl _
  · rw [decide_eq_false hstop, if_neg Bool.false_ne_true, h.same ancestors n false s hstop,
      decide_eq_false hstop]

mutual

theorem walk_beside (h : GoesOn R w w') (ancestors : List κ) (s : σ) (n : Node κ) :
    Beside R (walk w ancestors s n) (walk w' ancestors s n) := by
  cases n with
  | node kind children =>
    by_cases hstop : (w ancestors (.node kind children) true s).2 = .WalkStop
    · have hgrow := (walk_grow h ancestors s (.node kind children)).1
      rw [h.past _ _ _ _ hstop] at hgrow
      have hstopped : walk w ancestors s (.node kind children) =
          ((w ancestors (.node kind children) true s).1, true) := by
        unfold walk
        exact if_pos hstop
      rw [hstopped]
      exact .stop rfl hgrow
    · have hsame := h.same ancestors (.node kind children) true s hstop
      have hchildren := walkChildren_beside h (kind :: ancestors)
        (w ancestors (.node kind children) true s).1 children
      have hended := (walkChildren_grow h (kind :: ancestors)
        (w ancestors (.node kind children) true s).1 children).2
      unfold walk
      dsimp only
      rw [hsame, if_neg hstop, if_neg hstop]
      split
      · exact h.leave_beside ancestors (.node kind children) _
      · rw [hended, if_neg Bool.false_ne_true]
        unfold Beside at hchildren
        cases hwalked : (walkChildren w (kind :: ancestors)
          (w ancestors (.node kind children) true s).1 children).2 with
        | true =>
          rw [hwalked, if_pos rfl] at hchildren
          rw [if_pos rfl]
          have hleave := (h.leave_grow ancestors (.node kind children)
            (walkChildren w' (kind :: ancestors)
              (w ancestors (.node kind children) true s).1 children).1).1
          exact .stop hwalked (h.trans _ _ _ hchildren hleave)
        | false =>
          rw [hwalked, if_neg Bool.false_ne_true] at hchildren
          rw [if_neg Bool.false_ne_true, hchildren]
          exact h.leave_beside ancestors (.node kind children) _

theorem walkChildren_beside (h : GoesOn R w w') (ancestors : List κ) (s : σ)
    (ns : List (Node κ)) :
    Beside R (walkChildren w ancestors s ns) (walkChildren w' ancestors s ns) := by
  cases ns with
  | nil => exact rfl
  | cons n ns =>
    have hfirst := walk_beside h ancestors s n
    have hrest := walkChildren_beside h ancestors (walk w ancestors s n).1 ns
    have hgrow := (walkChildren_grow h ancestors (walk w' ancestors s n).1 ns).1
    have hended := (walk_grow h ancestors s n).2
    unfold walkChildren
    dsimp only
    rw [hended, if_neg Bool.false_ne_true]
    unfold Beside at hfirst
    cases hwalked : (walk w ancestors s n).2 with
    | true =>
      rw [hwalked, if_pos rfl] at hfirst
      rw [if_pos rfl]
      exact .stop hwalked (h.trans _ _ _ hfirst hgrow)
    | false =>
      rw [hwalked, if_neg Bool.false_ne_true] at hfirst
      rw [if_neg Bool.false_ne_true, hfirst]
      exact hrest

end

variable {Q : σ → Prop}

mutual

theorem walk_stopped (h : ∀ ancestors n entering s, (w ancestors n entering s).2 = .WalkStop →
    Q (w ancestors n entering s).1) (ancestors : List κ) (s : σ) (n : Node κ)
    (hstop : (walk w ancestors s n).2 = true) : Q (walk w ancestors s n).1 := by
  cases n with
  | node kind children =>
    have hleave : ∀ t, (leave w ancestors (.node kind children) t).2 = true →
        Q (leave w ancestors (.node kind children) t).1 := by
      intro t ht
      exact h ancestors (.node kind children) false t (of_decide_eq_true ht)
    have hchildren := walkChildren_stopped h (kind :: ancestors)
      (w ancestors (.node kind children) true s).1 children
    unfold walk at hstop ⊢
    dsimp only at hstop ⊢
    by_cases hentered : (w ancestors (.node kind children) true s).2 = .WalkStop
    · rw [if_pos hentered]
      exact h ancestors (.node kind children) true s hentered
    · rw [if_neg hentered] at hstop ⊢
      by_cases hskipped : (w ancestors (.node kind children) true s).2 = .WalkSkipChildren
      · rw [if_pos hskipped] at hstop ⊢
        exact hleave _ hstop
      · rw [if_neg hskipped] at hstop ⊢
        split at hstop
        · rename_i hwalked
          rw [if_pos hwalked]
          exact hchildren hwalked
        · rename_i hwalked
          rw [if_neg hwalked]
          exact hleave _ hstop

theorem walkChildren_stopped (h : ∀ ancestors n entering s,
    (w ancestors n entering s).2 = .WalkStop → Q (w ancestors n entering s).1)
    (ancestors : List κ) (s : σ) (ns : List (Node κ))
    (hstop : (walkChildren w ancestors s ns).2 = true) : Q (walkChildren w ancestors s ns).1 := by
  cases ns with
  | nil => cases hstop
  | cons n ns =>
    have hfirst := walk_stopped h ancestors s n
    have hrest := walkChildren_stopped h ancestors (walk w ancestors s n).1 ns
    unfold walkChildren at hstop ⊢
    dsimp only at hstop ⊢
    split at hstop
    · rename_i hwalked
      rw [if_pos hwalked]
      exact hfirst hwalked
    · rename_i hwalked
      rw [if_neg hwalked]
      exact hrest hstop

end

def recording (w : Walker κ σ) : Walker κ (σ × List σ) := fun ancestors n entering s =>
  let next := w ancestors n entering s.1
  ((next.1, s.2 ++ [next.1]), next.2)

theorem GoesOn.recording (h : GoesOn R w w') :
    GoesOn (fun s t => R s.1 t.1 ∧ s.2 <+: t.2) (recording w) (recording w') where
  same ancestors n entering s hstop := by
    unfold Markdown.recording
    dsimp only
    rw [h.same ancestors n entering s.1 hstop]
  past ancestors n entering s hstop := by
    unfold Markdown.recording
    dsimp only
    rw [h.past ancestors n entering s.1 hstop]
  grow ancestors n entering s := ⟨h.grow ancestors n entering s.1, List.prefix_append _ _⟩
  never ancestors n entering s := h.never ancestors n entering s.1
  refl s := ⟨h.refl s.1, List.prefix_refl _⟩
  trans _ _ _ hst htu := ⟨h.trans _ _ _ hst.1 htu.1, hst.2.trans htu.2⟩

mutual

theorem walk_recording (w : Walker κ σ) (ancestors : List κ) (s : σ × List σ) (n : Node κ) :
    (walk (recording w) ancestors s n).1.1 = (walk w ancestors s.1 n).1 ∧
      (walk (recording w) ancestors s n).2 = (walk w ancestors s.1 n).2 := by
  cases n with
  | node kind children =>
    have hleave : ∀ t : σ × List σ,
        (leave (recording w) ancestors (.node kind children) t).1.1 =
            (leave w ancestors (.node kind children) t.1).1 ∧
          (leave (recording w) ancestors (.node kind children) t).2 =
            (leave w ancestors (.node kind children) t.1).2 := fun t => ⟨rfl, rfl⟩
    have hchildren := walkChildren_recording w (kind :: ancestors)
      (recording w ancestors (.node kind children) true s).1 children
    have hstatus : (recording w ancestors (.node kind children) true s).2 =
        (w ancestors (.node kind children) true s.1).2 := rfl
    have hentered : (recording w ancestors (.node kind children) true s).1.1 =
        (w ancestors (.node kind children) true s.1).1 := rfl
    rw [hentered] at hchildren
    unfold walk
    dsimp only
    rw [hstatus]
    split
    · exact ⟨hentered, rfl⟩
    · split
      · have hleft := hleave (recording w ancestors (.node kind children) true s).1
        rw [hentered] at hleft
        exact hleft
      · rw [hchildren.2]
        split
        · exact hchildren
        · rw [← hchildren.1]
          exact hleave _

theorem walkChildren_recording (w : Walker κ σ) (ancestors : List κ) (s : σ × List σ)
    (ns : List (Node κ)) :
    (walkChildren (recording w) ancestors s ns).1.1 = (walkChildren w ancestors s.1 ns).1 ∧
      (walkChildren (recording w) ancestors s ns).2 = (walkChildren w ancestors s.1 ns).2 := by
  cases ns with
  | nil => exact ⟨rfl, rfl⟩
  | cons n ns =>
    have hfirst := walk_recording w ancestors s n
    have hrest := walkChildren_recording w ancestors (walk (recording w) ancestors s n).1 ns
    rw [hfirst.1] at hrest
    unfold walkChildren
    dsimp only
    rw [hfirst.2]
    split
    · exact hfirst
    · exact hrest

end

end walk

end Memoark.Markdown
