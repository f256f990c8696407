import Memoark.Logic.Kleene

/-! The value of a flat boolean text, read once from left to right: `NOT` binds tighter than
`AND`, and `AND` tighter than `OR`. -/
namespace Memoark.Logic

universe u

inductive Token (α : Type u) where
  | atom (a : α)
  | and
  | or
  | not
  | lparen
  | rparen
  deriving DecidableEq, Repr

/-- The part of a group that has been read: the value of the disjuncts before its last `OR`,
of the conjuncts since, and whether the next operand is negated. -/
structure Group where
  disjuncts : Truth := .false
  conjuncts : Truth := .true
  negated : Bool := false

namespace Group

def operand (g : Group) (t : Truth) : Group :=
  { g with conjuncts := g.conjuncts.and (if g.negated then t.not else t), negated := false }

def value (g : Group) : Truth := g.disjuncts.or g.conjuncts

end Group

/-- The groups around the one that is being read, innermost first, and whether an operand
comes next. -/
structure Reader where
  group : Group
  outer : List Group
  expectsOperand : Bool

namespace Reader

variable {α : Type u}

def start : Reader := ⟨{}, [], true⟩

def next (v : α → Truth) : Reader → Token α → Option Reader
  | ⟨g, outer, true⟩, .atom a => some ⟨g.operand (v a), outer, false⟩
  | ⟨g, outer, true⟩, .not => some ⟨{ g with negated := !g.negated }, outer, true⟩
  | ⟨g, outer, true⟩, .lparen => some ⟨{}, g :: outer, true⟩
  | ⟨g, outer, false⟩, .and => some ⟨g, outer, true⟩
  | ⟨g, outer, false⟩, .or => some ⟨{ disjuncts := g.value }, outer, true⟩
  | ⟨g, g' :: outer, false⟩, .rparen => some ⟨g'.operand g.value, outer, false⟩
  | _, _ => none

section steps

variable {v : α → Truth} {g g' : Group} {outer : List Group}

@[simp] theorem next_not : next v ⟨g, outer, true⟩ .not =
    some ⟨{ g with negated := !g.negated }, outer, true⟩ := rfl

@[simp] theorem next_lparen : next v ⟨g, outer, true⟩ .lparen = some ⟨{}, g :: outer, true⟩ := rfl

@[simp] theorem next_and : next v ⟨g, outer, false⟩ .and = some ⟨g, outer, true⟩ := rfl

@[simp] theorem next_or :
    next v ⟨g, outer, false⟩ .or = some ⟨{ disjuncts := g.value }, outer, true⟩ := rfl

@[simp] theorem next_rparen : next v ⟨g, g' :: outer, false⟩ .rparen =
    some ⟨g'.operand g.value, outer, false⟩ := rfl

end steps

def run (v : α → Truth) (r : Reader) (ts : List (Token α)) : Option Reader :=
  ts.foldlM (next v) r

@[simp] theorem run_nil (v : α → Truth) (r : Reader) : run v r [] = some r := rfl

@[simp] theorem run_cons (v : α → Truth) (r : Reader) (t : Token α) (ts : List (Token α)) :
    run v r (t :: ts) = (next v r t).bind fun r => run v r ts := rfl

theorem run_append (v : α → Truth) (r : Reader) (ts us : List (Token α)) :
    run v r (ts ++ us) = (run v r ts).bind fun r => run v r us := List.foldlM_append

end Reader

/-- The value of a whole text; a text that is no boolean expression has none. -/
def evaluate {α : Type u} (v : α → Truth) (ts : List (Token α)) : Option Truth :=
  match Reader.start.run v ts with
  | some ⟨g, [], false⟩ => some g.value
  | _ => none

variable {α : Type u} {v : α → Truth} {ts us : List (Token α)} {s t : Truth}

/-- The text stands for one operand of value `t` wherever an operand is expected. -/
def Operand (v : α → Truth) (ts : List (Token α)) (t : Truth) : Prop :=
  ∀ g outer, Reader.run v ⟨g, outer, true⟩ ts = some ⟨g.operand t, outer, false⟩

/-- The text stands for conjuncts of value `t` among others. -/
def Conjunction (v : α → Truth) (ts : List (Token α)) (t : Truth) : Prop :=
  ∀ g outer, g.negated = false →
    Reader.run v ⟨g, outer, true⟩ ts =
      some ⟨{ g with conjuncts := g.conjuncts.and t }, outer, false⟩

/-- The text stands for disjuncts of value `t` among others. -/
def Disjunction (v : α → Truth) (ts : List (Token α)) (t : Truth) : Prop :=
  ∀ a outer, ∃ g, Reader.run v ⟨{ disjuncts := a }, outer, true⟩ ts = some ⟨g, outer, false⟩ ∧
    g.value = a.or t

namespace Operand

theorem atom (v : α → Truth) (a : α) : Operand v [.atom a] (v a) := fun _ _ => rfl

theorem not (h : Operand v ts t) : Operand v (.not :: ts) t.not := by
  intro g outer
  have hrun := h { g with negated := !g.negated } outer
  rw [Reader.run_cons, Reader.next_not, Option.bind_some, hrun]
  cases hn : g.negated <;> simp [Group.operand, hn]

theorem group (h : Disjunction v ts t) : Operand v (.lparen :: (ts ++ [.rparen])) t := by
  intro g outer
  obtain ⟨inner, hrun, hvalue⟩ := h .false (g :: outer)
  rw [Reader.run_cons, Reader.next_lparen, Option.bind_some, Reader.run_append, hrun]
  simp [hvalue]

theorem conjunction (h : Operand v ts t) : Conjunction v ts t := by
  intro g outer hn
  rw [h g outer]
  simp [Group.operand, hn]

end Operand

namespace Conjunction

theorem and (hs : Conjunction v ts s) (ht : Conjunction v us t) :
    Conjunction v (ts ++ .and :: us) (s.and t) := by
  intro g outer hn
  have hleft := hs g outer hn
  have hright := ht { g with conjuncts := g.conjuncts.and s } outer hn
  rw [Reader.run_append, hleft, Option.bind_some, Reader.run_cons, Reader.next_and,
    Option.bind_some, hright]
  simp [Truth.and_assoc]

theorem disjunction (h : Conjunction v ts t) : Disjunction v ts t := by
  intro a outer
  have hrun := h { disjuncts := a } outer rfl
  exact ⟨_, hrun, by simp [Group.value]⟩

end Conjunction

namespace Disjunction

theorem or (hs : Disjunction v ts s) (ht : Disjunction v us t) :
    Disjunction v (ts ++ .or :: us) (s.or t) := by
  intro a outer
  obtain ⟨g, hleft, hg⟩ := hs a outer
  obtain ⟨g', hright, hg'⟩ := ht g.value outer
  refine ⟨g', ?_, ?_⟩
  · rw [Reader.run_append, hleft, Option.bind_some, Reader.run_cons, Reader.next_or,
      Option.bind_some, hright]
  · rw [hg', hg, Truth.or_assoc]

theorem evaluate (h : Disjunction v ts t) : evaluate v ts = some t := by
  obtain ⟨g, hrun, hvalue⟩ := h .false []
  have hstart : Reader.start.run v ts = some ⟨g, [], false⟩ := hrun
  simp [Logic.evaluate, hstart, hvalue]

end Disjunction

example : Logic.evaluate id [.atom Truth.true, .or, .atom .false, .and, .atom .false] =
    some .true := rfl

def joinAnd : List (List (Token α)) → List (Token α)
  | [] => []
  | [ts] => ts
  | ts :: us :: rest => ts ++ .and :: joinAnd (us :: rest)

def allTrue : List Truth → Truth
  | [] => .true
  | t :: ts => t.and (allTrue ts)

@[simp] theorem allTrue_cons (t : Truth) (ts : List Truth) :
    allTrue (t :: ts) = t.and (allTrue ts) := rfl

theorem allTrue_append (ss ts : List Truth) :
    allTrue (ss ++ ts) = (allTrue ss).and (allTrue ts) := by
  induction ss with
  | nil => exact (congrFun Truth.true_and (allTrue ts)).symm
  | cons s ss ih => rw [List.cons_append, allTrue_cons, ih, allTrue_cons, Truth.and_assoc]

structure Conjunct (v : α → Truth) where
  tokens : List (Token α)
  truth : Truth
  reads : Conjunction v tokens truth

theorem conjunction_joinAnd (c : Conjunct v) (cs : List (Conjunct v)) :
    Conjunction v (joinAnd ((c :: cs).map Conjunct.tokens))
      (allTrue ((c :: cs).map Conjunct.truth)) := by
  induction cs generalizing c with
  | nil =>
    have htruth : allTrue [c.truth] = c.truth := Truth.and_true c.truth
    rw [List.map_singleton, List.map_singleton, htruth]
    exact c.reads
  | cons d cs ih => exact c.reads.and (ih d)

end Memoark.Logic
