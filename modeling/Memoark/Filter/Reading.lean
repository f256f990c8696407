import Memoark.Filter.Shape
import Memoark.Logic.Precedence

/-! How SQL reads a rendered fragment: its text as a list of tokens, in which the predicates are
atoms, and its truth when each predicate has one of the three truth values. -/
namespace Memoark.Filter

open Logic (Truth Token Operand Conjunction Disjunction joinAnd)

/-- The predicates of a WHERE list. `tag in []` renders to an empty group, which SQL rejects:
it is taken as one more predicate. `other` is a condition that no filter has rendered. -/
inductive SqlLeaf where
  | pred (p : SqlPred)
  | emptyGroup
  | other (text : String)

def SqlLeaf.text : SqlLeaf → String
  | .pred p => p.text
  | .emptyGroup => "()"
  | .other text => text

abbrev SqlToken := Token SqlLeaf

def tokenText : SqlToken → String
  | .atom leaf => leaf.text
  | .and => " AND "
  | .or => " OR "
  | .not => "NOT "
  | .lparen => "("
  | .rparen => ")"

def spell (ts : List SqlToken) : String := String.join (ts.map tokenText)

@[simp] theorem spell_nil : spell [] = "" := rfl

@[simp] theorem spell_cons (t : SqlToken) (ts : List SqlToken) :
    spell (t :: ts) = tokenText t ++ spell ts := by simp [spell]

@[simp] theorem spell_append (ts us : List SqlToken) :
    spell (ts ++ us) = spell ts ++ spell us := by simp [spell]

theorem spell_joinAnd (conditions : List (List SqlToken)) :
    spell (joinAnd conditions) = " AND ".intercalate (conditions.map spell) := by
  induction conditions with
  | nil => rfl
  | cons ts rest ih =>
    cases rest with
    | nil => rfl
    | cons us rest =>
      have hand : tokenText .and = " AND " := rfl
      rw [joinAnd, spell_append, spell_cons, ih, hand, List.map_cons, List.map_cons, List.map_cons,
        String.intercalate_cons_cons, String.append_assoc]

def Sql.tokens : Sql → List SqlToken
  | .empty => []
  | .pred p => [.atom (.pred p)]
  | .paren .empty => [.atom .emptyGroup]
  | .paren s => .lparen :: (s.tokens ++ [.rparen])
  | .and s t => s.tokens ++ .and :: t.tokens
  | .or s t => s.tokens ++ .or :: t.tokens
  | .not s => .not :: .lparen :: (s.tokens ++ [.rparen])

theorem Sql.tokens_paren {s : Sql} (h : s ≠ .empty) :
    (Sql.paren s).tokens = .lparen :: (s.tokens ++ [.rparen]) := by
  cases s <;> first | rfl | exact absurd rfl h

theorem Sql.spell_tokens (s : Sql) : spell s.tokens = s.text := by
  induction s with
  | empty => rfl
  | pred p => rw [Sql.tokens, spell_cons, spell_nil, String.append_empty]; rfl
  | paren s ih =>
    by_cases hs : s = .empty
    · rw [hs]
      rfl
    · rw [Sql.tokens_paren hs, spell_cons, spell_append, ih, spell_cons, spell_nil,
        String.append_empty, ← String.append_assoc]
      rfl
  | and s t hs ht =>
    rw [Sql.tokens, spell_append, spell_cons, hs, ht, ← String.append_assoc]
    rfl
  | or s t hs ht =>
    rw [Sql.tokens, spell_append, spell_cons, hs, ht, ← String.append_assoc]
    rfl
  | not s ih =>
    have hnot : "NOT (" = "NOT " ++ "(" := rfl
    rw [Sql.tokens, spell_cons, spell_cons, spell_append, ih, spell_cons, spell_nil,
      String.append_empty, Sql.text, hnot, ← String.append_assoc, ← String.append_assoc]
    rfl

def leafTruth (v : SqlLeaf → Truth) : SqlLeaf → Truth
  | .pred (.compare (.number 1) .eq (.number 0)) => .false
  | leaf => v leaf

def Sql.truth (v : SqlLeaf → Truth) : Sql → Truth
  | .empty => .true
  | .pred p => leafTruth v (.pred p)
  | .paren .empty => leafTruth v .emptyGroup
  | .paren s => s.truth v
  | .and s t => (s.truth v).and (t.truth v)
  | .or s t => (s.truth v).or (t.truth v)
  | .not s => (s.truth v).not

def Sql.ReadAs (v : SqlLeaf → Truth) (s : Sql) : Place → Prop
  | .operand => Operand (leafTruth v) s.tokens (s.truth v)
  | .conjunct => Conjunction (leafTruth v) s.tokens (s.truth v)
  | .disjunct => Disjunction (leafTruth v) s.tokens (s.truth v)

theorem Sql.ReadAs.of_operand {v : SqlLeaf → Truth} {s : Sql}
    (h : Operand (leafTruth v) s.tokens (s.truth v)) (p : Place) : s.ReadAs v p := by
  cases p with
  | operand => exact h
  | conjunct => exact h.conjunction
  | disjunct => exact h.conjunction.disjunction

theorem Sql.readAs (v : SqlLeaf → Truth) {s : Sql} {p : Place} (h : s.fits p = true) :
    s.ReadAs v p := by
  induction s generalizing p with
  | empty => simp [Sql.fits] at h
  | pred q => exact .of_operand (Operand.atom (leafTruth v) (.pred q)) p
  | paren s ih =>
    cases s with
    | empty => exact .of_operand (Operand.atom (leafTruth v) .emptyGroup) p
    | _ =>
      have hinner := ih (p := .disjunct) h
      exact .of_operand (Operand.group hinner) p
  | not s ih =>
    have hinner := ih (p := .disjunct) h
    exact .of_operand (Operand.group hinner).not p
  | and s t hs ht =>
    simp only [Sql.fits, Bool.and_eq_true] at h
    obtain ⟨⟨hplace, hfits⟩, hfits'⟩ := h
    have hboth : Conjunction (leafTruth v) (Sql.and s t).tokens ((Sql.and s t).truth v) :=
      Conjunction.and (hs hfits) (ht hfits')
    cases p with
    | operand => exact absurd hplace (by decide)
    | conjunct => exact hboth
    | disjunct => exact hboth.disjunction
  | or s t hs ht =>
    simp only [Sql.fits, Bool.and_eq_true, beq_iff_eq] at h
    obtain ⟨⟨rfl, hfits⟩, hfits'⟩ := h
    exact Disjunction.or (hs hfits) (ht hfits')

theorem Sql.operand {s : Sql} (v : SqlLeaf → Truth) (h : s.fits .operand = true) :
    Operand (leafTruth v) s.tokens (s.truth v) := Sql.readAs v h

theorem append_ne_empty_right (s : String) {t : String} (h : t ≠ "") : s ++ t ≠ "" :=
  fun he => h (String.append_eq_empty_iff.mp he).2

theorem append_ne_empty_left {s : String} (h : s ≠ "") (t : String) : s ++ t ≠ "" :=
  fun he => h (String.append_eq_empty_iff.mp he).1

theorem SqlPred.text_ne_empty (p : SqlPred) : p.text ≠ "" := by
  cases p with
  | isTrue t | isNull t | isNotNull t => exact append_ne_empty_right _ (by decide)
  | notIsTrue t | jsonContains t u | inList t us => exact append_ne_empty_right _ (by decide)
  | jsonbContains t u =>
    exact append_ne_empty_right _ (append_ne_empty_right _ (by decide))
  | compare t op u => exact append_ne_empty_left (append_ne_empty_right _ (by decide)) _
  | like t u | ilike t u => exact append_ne_empty_left (append_ne_empty_right _ (by decide)) _

theorem Sql.text_ne_empty {s : Sql} (h : s.fits .operand = true) : s.text ≠ "" := by
  cases s with
  | empty => simp [Sql.fits] at h
  | pred p => exact p.text_ne_empty
  | paren s | not s => exact append_ne_empty_right _ (by decide)
  | and s t | or s t => simp [Sql.fits] at h

end Memoark.Filter
