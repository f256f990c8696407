import Memoark.Filter.Render
import Memoark.Filter.Reading
import Memoark.Filter.Semantics
import Memoark.Program.Alike

/-! What the structure of the SQL keeps of a condition, and the WHERE list that
`AppendConditions` builds (`helpers.go`). -/
namespace Memoark.Filter

open Logic (Truth Conjunct Operand evaluate joinAnd allTrue)
open Program (Agree Parallel)

/-- The value of a condition tree: the constants are true and false, the connectives those of
three-valued logic, and a leaf has the value of the SQL it renders to. -/
def Renderer.conditionTruth (r : Renderer) (v : SqlLeaf → Truth) : Condition → RenderM Truth
  | .logical op left right => do
    let a ← r.conditionTruth v left
    let b ← r.conditionTruth v right
    return op.apply a b
  | .not expr => do
    let t ← r.conditionTruth v expr
    return t.not
  | .constant value => return .ofBool value
  | leaf => do
    let res ← r.renderCondition leaf
    return res.sql.truth v

def Renderer.meaning (r : Renderer) (v : SqlLeaf → Truth) (cond : Condition) :
    Except String Truth := do
  let (t, _) ← (r.conditionTruth v cond).run {}
  return t

def Statement.value (v : SqlLeaf → Truth) (stmt : Statement) : Option Truth :=
  if stmt.text = "" then some .true else evaluate (leafTruth v) stmt.sql.tokens

structure Means (v : SqlLeaf → Truth) (res : RenderResult) (t : Truth) : Prop where
  isTrivial : res.isTrivial = true → res.unsatisfiable = false ∧ t = .true
  unsatisfiable : res.unsatisfiable = true → t = .false
  sql : res.isTrivial = false → res.unsatisfiable = false →
    res.sql.fits .operand = true ∧ res.sql.truth v = t

namespace Means

variable {v : SqlLeaf → Truth} {a b : RenderResult} {s t : Truth}

theorem of_leaf {s : Schema} {cond : Condition} {res : RenderResult} (h : LeafShape s cond res) :
    Means v res (res.sql.truth v) where
  isTrivial ht := by simp [h.isTrivial] at ht
  unsatisfiable hu := by simp [h.unsatisfiable] at hu
  sql _ _ := ⟨h.operand, rfl⟩

theorem false_of_unsatisfiable : Means v { sql := .never, unsatisfiable := true } .false where
  isTrivial ht := absurd ht Bool.false_ne_true
  unsatisfiable _ := rfl
  sql _ hu := absurd hu.symm Bool.false_ne_true

theorem true_of_trivial : Means v { isTrivial := true } .true where
  isTrivial _ := ⟨rfl, rfl⟩
  unsatisfiable hu := absurd hu Bool.false_ne_true
  sql ht _ := absurd ht.symm Bool.false_ne_true

theorem paren {s : Sql} (h : s.fits .disjunct = true) : Means v { sql := .paren s } (s.truth v) where
  isTrivial ht := absurd ht Bool.false_ne_true
  unsatisfiable hu := absurd hu Bool.false_ne_true
  sql _ _ := ⟨Sql.fits_paren h _, by cases s <;> first | rfl | simp [Sql.fits] at h⟩

theorem and (ha : Means v a s) (hb : Means v b t) : Means v (combineAnd a b) (s.and t) := by
  unfold combineAnd
  split
  · rename_i hunsat
    rcases Bool.or_eq_true_iff.mp hunsat with hu | hu
    · rw [ha.unsatisfiable hu]
      exact false_of_unsatisfiable
    · rw [hb.unsatisfiable hu, Truth.and_false]
      exact false_of_unsatisfiable
  · rename_i hunsat
    obtain ⟨hua, hub⟩ := Bool.or_eq_false_iff.mp (Bool.eq_false_iff.mpr hunsat)
    split
    · rename_i ht
      rw [(ha.isTrivial ht).2, Truth.true_and]
      exact hb
    · rename_i hta
      split
      · rename_i ht
        rw [(hb.isTrivial ht).2, Truth.and_true]
        exact ha
      · rename_i htb
        obtain ⟨hfits, rfl⟩ := ha.sql (Bool.eq_false_iff.mpr hta) hua
        obtain ⟨hfits', rfl⟩ := hb.sql (Bool.eq_false_iff.mpr htb) hub
        refine paren ?_
        simp [Sql.fits, Sql.fits_of_operand hfits, Sql.fits_of_operand hfits']

theorem or (ha : Means v a s) (hb : Means v b t) : Means v (combineOr a b) (s.or t) := by
  unfold combineOr
  split
  · rename_i htrivial
    rcases Bool.or_eq_true_iff.mp htrivial with ht | ht
    · rw [(ha.isTrivial ht).2]
      exact true_of_trivial
    · rw [(hb.isTrivial ht).2, Truth.or_true]
      exact true_of_trivial
  · rename_i htrivial
    obtain ⟨hta, htb⟩ := Bool.or_eq_false_iff.mp (Bool.eq_false_iff.mpr htrivial)
    split
    · rename_i hu
      rw [ha.unsatisfiable hu, Truth.false_or]
      exact hb
    · rename_i hua
      split
      · rename_i hu
        rw [hb.unsatisfiable hu, Truth.or_false]
        exact ha
      · rename_i hub
        obtain ⟨hfits, rfl⟩ := ha.sql hta (Bool.eq_false_iff.mpr hua)
        obtain ⟨hfits', rfl⟩ := hb.sql htb (Bool.eq_false_iff.mpr hub)
        refine paren ?_
        simp [Sql.fits, Sql.fits_of_operand hfits, Sql.fits_of_operand hfits']

theorem not (ha : Means v a s) : Means v (Renderer.renderNot a) s.not := by
  unfold Renderer.renderNot
  split
  · rename_i ht
    rw [(ha.isTrivial ht).2]
    exact false_of_unsatisfiable
  · rename_i ht
    split
    · rename_i hu
      rw [ha.unsatisfiable hu]
      exact true_of_trivial
    · rename_i hu
      obtain ⟨hfits, rfl⟩ := ha.sql (Bool.eq_false_iff.mpr ht) (Bool.eq_false_iff.mpr hu)
      have hkept : (Sql.not a.sql).fits .operand = true := by
        simp [Sql.fits, Sql.fits_of_operand hfits]
      exact ⟨fun ht => absurd ht Bool.false_ne_true, fun hu => absurd hu Bool.false_ne_true,
        fun _ _ => ⟨hkept, rfl⟩⟩

end Means

namespace Renderer

variable {r : Renderer}

theorem leaf_parallel (v : SqlLeaf → Truth) {cond : Condition}
    (h : Program.Returns (r.renderCondition cond) (LeafShape r.schema cond)) :
    Parallel (r.renderCondition cond)
      (do let res ← r.renderCondition cond
          return res.sql.truth v) (Means v) :=
  .map fun s res s' hs => .of_leaf (h s res s' hs)

/-- Rendering a condition and computing its value run in step: they fail alike, bind the same
arguments, and the SQL stands for the value. -/
theorem renderCondition_means (v : SqlLeaf → Truth) (cond : Condition) :
    Parallel (r.renderCondition cond) (r.conditionTruth v cond) (Means v) := by
  induction cond with
  | logical op left right hl hr =>
    refine hl.bind fun a s ha => hr.bind fun b t hb => .pure ?_
    cases op with
    | and => exact ha.and hb
    | or => exact ha.or hb
  | not expr ih => exact ih.bind fun a s ha => .pure ha.not
  | constant value =>
    cases value with
    | true => exact .pure .true_of_trivial
    | false => exact .pure .false_of_unsatisfiable
  | fieldPredicate field => exact leaf_parallel v (renderFieldPredicate_shape field)
  | comparison left op right => exact leaf_parallel v (renderComparison_shape left op right)
  | inList left values => exact leaf_parallel v (renderInCondition_shape left values)
  | elementIn element field => exact leaf_parallel v (renderElementInCondition_shape element field)
  | contains field value => exact leaf_parallel v (renderContainsCondition_shape field value)
  | listComprehension kind field iterVar predicate =>
    exact leaf_parallel v (renderListComprehension_shape kind field iterVar predicate)

end Renderer

/-- The rendered statement: an empty text for a true value, or an operand with the value. -/
structure Statement.Stands (v : SqlLeaf → Truth) (stmt : Statement) (t : Truth) : Prop where
  empty : stmt.text = "" → t = .true
  operand : stmt.text ≠ "" → Operand (leafTruth v) stmt.sql.tokens t

theorem Statement.Stands.of_operand {v : SqlLeaf → Truth} {s : Sql} {t : Truth} (args : List Arg)
    (h : s.fits .operand = true) (ht : s.truth v = t) : Stands v ⟨s, args⟩ t where
  empty he := absurd he (Sql.text_ne_empty h)
  operand _ := ht ▸ Sql.operand v h

theorem Statement.Stands.value {v : SqlLeaf → Truth} {stmt : Statement} {t : Truth}
    (h : stmt.Stands v t) : stmt.value v = some t := by
  unfold Statement.value
  split
  · rename_i he
    rw [h.empty he]
  · rename_i hne
    exact (h.operand hne).conjunction.disjunction.evaluate

theorem Renderer.render_stands (r : Renderer) (v : SqlLeaf → Truth) (cond : Condition) :
    (∃ stmt t, r.render cond = .ok stmt ∧ r.meaning v cond = .ok t ∧ stmt.Stands v t) ∨
      ∃ e, r.render cond = .error e ∧ r.meaning v cond = .error e := by
  have hstep := Renderer.renderCondition_means (r := r) v cond {}
  unfold Renderer.render Renderer.meaning
  cases hrender : r.renderCondition cond {} with
  | error e =>
    cases htruth : r.conditionTruth v cond {} with
    | error e' =>
      obtain rfl : e = e' := by simpa [hrender, htruth, Agree] using hstep
      exact .inr ⟨e, by simp [StateT.run, hrender, htruth, Bind.bind, Except.bind]⟩
    | ok out => simp [hrender, htruth, Agree] at hstep
  | ok out =>
    cases htruth : r.conditionTruth v cond {} with
    | error e' => simp [hrender, htruth, Agree] at hstep
    | ok out' =>
      obtain ⟨res, st⟩ := out
      obtain ⟨t, st'⟩ := out'
      obtain ⟨-, hmeans⟩ : st = st' ∧ Means v res t := by simpa [hrender, htruth, Agree] using hstep
      left
      simp only [StateT.run, hrender, htruth, Bind.bind, Except.bind]
      by_cases hu : res.unsatisfiable = true
      · refine ⟨⟨.never, st.args⟩, t, by rw [if_pos hu]; rfl, rfl, ?_⟩
        rw [hmeans.unsatisfiable hu]
        exact .of_operand _ rfl rfl
      · rw [if_neg hu]
        by_cases ht : res.isTrivial = true
        · refine ⟨⟨.empty, st.args⟩, t, by rw [if_pos ht]; rfl, rfl, ?_⟩
          exact ⟨fun _ => (hmeans.isTrivial ht).2, fun hne => absurd rfl hne⟩
        · obtain ⟨hfits, hvalue⟩ :=
            hmeans.sql (Bool.eq_false_iff.mpr ht) (Bool.eq_false_iff.mpr hu)
          exact ⟨⟨res.sql, st.args⟩, t, by rw [if_neg ht]; rfl, rfl, .of_operand _ hfits hvalue⟩

def Statement.fragment (stmt : Statement) : List SqlToken :=
  .lparen :: (stmt.sql.tokens ++ [.rparen])

def appendConditions (timeNowUnix : Int) (schema : Schema) (dialect : DialectName) :
    List Expr → List (List SqlToken) → List Arg → Except String (List (List SqlToken) × List Arg)
  | [], whereList, args => .ok (whereList, args)
  | filter :: filters, whereList, args => do
    let stmt ← schema.compileToStatement timeNowUnix ⟨dialect, args.length⟩ filter
    if stmt.text = "" then
      appendConditions timeNowUnix schema dialect filters whereList args
    else
      appendConditions timeNowUnix schema dialect filters (whereList ++ [stmt.fragment])
        (args ++ stmt.args)

def filterMeanings (v : SqlLeaf → Truth) (timeNowUnix : Int) (schema : Schema)
    (dialect : DialectName) : List Expr → List Arg → Except String (List Truth)
  | [], _ => .ok []
  | filter :: filters, args => do
    let cond ← buildCondition timeNowUnix schema filter
    let stmt ← (newRenderer schema ⟨dialect, args.length⟩).render cond
    let t ← (newRenderer schema ⟨dialect, args.length⟩).meaning v cond
    let ts ← filterMeanings v timeNowUnix schema dialect filters
      (if stmt.text = "" then args else args ++ stmt.args)
    return t :: ts

def Statement.conjunct {v : SqlLeaf → Truth} {stmt : Statement} {t : Truth} (h : stmt.Stands v t)
    (hne : stmt.text ≠ "") : Conjunct (leafTruth v) where
  tokens := stmt.fragment
  truth := t
  reads := (Operand.group (h.operand hne).conjunction.disjunction).conjunction

theorem appendConditions_added (v : SqlLeaf → Truth) (now : Int) (schema : Schema)
    (d : DialectName) (filters : List Expr) (whereList : List (List SqlToken)) (args : List Arg) :
    (∃ (added : List (Conjunct (leafTruth v))) (args' : List Arg) (ts : List Truth),
        appendConditions now schema d filters whereList args =
          .ok (whereList ++ added.map Conjunct.tokens, args') ∧
        filterMeanings v now schema d filters args = .ok ts ∧
        allTrue (added.map Conjunct.truth) = allTrue ts) ∨
      ∃ e, appendConditions now schema d filters whereList args = .error e ∧
        filterMeanings v now schema d filters args = .error e := by
  induction filters generalizing whereList args with
  | nil => exact .inl ⟨[], args, [], by simp [appendConditions], rfl, rfl⟩
  | cons filter filters ih =>
    rw [appendConditions, filterMeanings, Schema.compileToStatement]
    cases hcond : buildCondition now schema filter with
    | error e => exact .inr ⟨e, rfl, rfl⟩
    | ok cond =>
      rcases Renderer.render_stands (newRenderer schema ⟨d, args.length⟩) v cond with
        ⟨stmt, t, hrender, hmeaning, hstands⟩ | ⟨e, hrender, hmeaning⟩
      · simp only [Bind.bind, Except.bind, hrender, hmeaning]
        by_cases hempty : stmt.text = ""
        · rw [if_pos hempty, if_pos hempty]
          have ht := hstands.empty hempty
          rcases ih whereList args with ⟨added, args', ts, happend, hmeanings, hvalue⟩ | ⟨e, he, he'⟩
          · refine .inl ⟨added, args', t :: ts, happend, by rw [hmeanings]; rfl, ?_⟩
            rw [hvalue, ht, allTrue, Truth.true_and, id]
          · exact .inr ⟨e, he, by rw [he']⟩
        · rw [if_neg hempty, if_neg hempty]
          rcases ih (whereList ++ [stmt.fragment]) (args ++ stmt.args) with
            ⟨added, args', ts, happend, hmeanings, hvalue⟩ | ⟨e, he, he'⟩
          · refine .inl ⟨Statement.conjunct hstands hempty :: added, args', t :: ts, ?_,
              by rw [hmeanings]; rfl, ?_⟩
            · rw [happend, List.append_assoc]
              rfl
            · rw [List.map_cons, allTrue, hvalue]
              rfl
          · exact .inr ⟨e, he, by rw [he']⟩
      · exact .inr ⟨e, by simp [Bind.bind, Except.bind, hrender], by
          simp [Bind.bind, Except.bind, hrender]⟩

/-- The structure of the SQL keeps the meaning of a filter. A rendered statement has, by its
text, the value of the condition tree, and the conditions that `AppendConditions` adds have,
among any conditions around them, the conjunction of the filters' meanings. -/
theorem structure_preserves_meaning (v : SqlLeaf → Truth) :
    (∀ (r : Renderer) (cond : Condition),
      (∃ stmt t, r.render cond = .ok stmt ∧ r.meaning v cond = .ok t ∧
          spell stmt.sql.tokens = stmt.text ∧ stmt.value v = some t) ∨
        ∃ e, r.render cond = .error e ∧ r.meaning v cond = .error e) ∧
    ∀ (now : Int) (schema : Schema) (d : DialectName) (filters : List Expr)
        (whereList : List (List SqlToken)) (args : List Arg),
      (∃ added args' ts,
          appendConditions now schema d filters whereList args = .ok (whereList ++ added, args') ∧
          filterMeanings v now schema d filters args = .ok ts ∧
          ∀ (first : Conjunct (leafTruth v)) (before after : List (Conjunct (leafTruth v))),
            ∃ conditions, conditions =
                (first :: before).map Conjunct.tokens ++ added ++ after.map Conjunct.tokens ∧
              spell (joinAnd conditions) = " AND ".intercalate (conditions.map spell) ∧
              evaluate (leafTruth v) (joinAnd conditions) =
                some ((allTrue ((first :: before).map Conjunct.truth)).and
                  ((allTrue ts).and (allTrue (after.map Conjunct.truth))))) ∨
        ∃ e, appendConditions now schema d filters whereList args = .error e ∧
          filterMeanings v now schema d filters args = .error e := by
  constructor
  · intro r cond
    rcases r.render_stands v cond with ⟨stmt, t, hrender, hmeaning, hstands⟩ | herror
    · exact .inl ⟨stmt, t, hrender, hmeaning, stmt.sql.spell_tokens, hstands.value⟩
    · exact .inr herror
  · intro now schema d filters whereList args
    rcases appendConditions_added v now schema d filters whereList args with
      ⟨added, args', ts, happend, hmeanings, hvalue⟩ | herror
    · refine .inl ⟨added.map Conjunct.tokens, args', ts, happend, hmeanings, ?_⟩
      intro first before after
      refine ⟨_, rfl, spell_joinAnd _, ?_⟩
      have hjoin := Logic.conjunction_joinAnd first (before ++ (added ++ after))
      have heval := hjoin.disjunction.evaluate
      rw [← List.cons_append, List.map_append, List.map_append, List.map_append, List.map_append,
        Logic.allTrue_append, Logic.allTrue_append, hvalue, ← List.append_assoc] at heval
      exact heval
    · exact .inr herror

end Memoark.Filter
