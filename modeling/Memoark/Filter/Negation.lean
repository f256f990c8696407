import Memoark.Filter.Evaluation
import Memoark.Filter.Checked
import Memoark.Filter.Render

/-! A filter and its negation on one memo: exactly one selects it, unless a missing value
blocks both or their SQL is malformed. -/
namespace Memoark.Filter
open Memoark.Program Memoark.Logic

section Truth

variable {d : DialectName} {db : Database} {row : Row} {l r cond : Condition}

theorem logical_not_faulty {op : LogicalOperator}
    (h : (Condition.logical op l r).constantValue.isSome) :
    (Condition.logical op l r).faulty d db = false := by
  simp only [Condition.faulty]
  cases hc : (Condition.logical op l r).constantValue <;> simp_all

theorem truth_of_constant (d : DialectName) (db : Database) (row : Row) {b : Bool} (h : cond.constantValue = some b) :
    cond.faulty d db = false ∧ cond.blocked d db row = false ∧ cond.holds d db row = b := by
  induction cond generalizing b with
  | logical op l r hl hr =>
    refine ⟨logical_not_faulty (by simp [h]), ?_⟩
    rcases hlv : l.constantValue with _ | _ | _ <;> rcases hrv : r.constantValue with _ | _ | _ <;>
      cases op <;> simp_all [Condition.constantValue, Condition.blocked, Condition.holds]
  | not e ih =>
    obtain ⟨c, hc, rfl⟩ := Option.map_eq_some_iff.mp h
    obtain ⟨hf, hb, hh⟩ := ih hc
    exact ⟨hf, hb, congrArg (!·) hh⟩
  | constant value =>
    obtain rfl : value = b := by simpa [Condition.constantValue] using h
    exact ⟨rfl, rfl, rfl⟩
  | _ => simp [Condition.constantValue] at h

theorem truth_constant {b : Bool} (h : cond.constantValue = some b) :
    cond.truth d db row = some (.ofBool b) := by
  obtain ⟨hf, hb, hh⟩ := truth_of_constant d db row h
  simp [Condition.truth, hf, hb, hh]

theorem truth_logical {op : LogicalOperator} (h : (Condition.logical op l r).constantValue = none) :
    (Condition.logical op l r).truth d db row =
      (l.truth d db row).bind fun a => (r.truth d db row).map (op.apply a) := by
  simp only [Condition.truth, Condition.faulty, h, Option.isNone_none, Bool.true_and]
  cases l.faulty d db <;> cases r.faulty d db <;> cases op <;>
    simp [Condition.blocked, Condition.holds, LogicalOperator.apply, Truth.and_mask, Truth.or_mask]

theorem truth_not : (Condition.not cond).truth d db row = (cond.truth d db row).map Truth.not := by
  simp only [Condition.truth, Condition.faulty, Condition.blocked, Condition.holds]
  by_cases hf : cond.faulty d db <;> simp [hf, Truth.not_mask]

end Truth

structure Evaluated (r : Renderer) (db : Database) (row : Row) (cond : Condition)
    (res : RenderResult) : Prop where
  outcome : Outcome cond res
  nonempty : res.isTrivial = false → res.sql ≠ .empty
  never : res.unsatisfiable = true → res.sql.eval r.dialect db row = some .false
  truth : res.isTrivial = false → res.sql.eval r.dialect db row = cond.truth r.dialect db row

namespace Evaluated

variable {r : Renderer} {db : Database} {row : Row} {cond left right : Condition}
  {res a b : RenderResult}

theorem of_leaf (h : r.Evaluates db row cond res) (hn : cond.constantValue = none) :
    Evaluated r db row cond res := by
  obtain ⟨ht, hu, hne, he⟩ := h
  exact ⟨⟨by simp [ht, hn], by simp [hu, hn]⟩, fun _ => hne, by simp [hu], fun _ => he⟩

theorem eval_never (d : DialectName) : Sql.never.eval d db row = some .false := rfl

theorem of_never (ho : Outcome cond res) (hne : res.isTrivial = false → res.sql ≠ .empty)
    (hnever : res.unsatisfiable = true → res.sql.eval r.dialect db row = some .false)
    (htruth : cond.constantValue = none →
      res.sql.eval r.dialect db row = cond.truth r.dialect db row) :
    Evaluated r db row cond res := by
  refine ⟨ho, hne, hnever, fun ht => ?_⟩
  cases hv : cond.constantValue with
  | none => exact htruth hv
  | some v =>
    have hfalse : v = false := by
      have := ho.isTrivial
      cases v <;> simp_all
    subst hfalse
    rw [truth_constant hv]
    exact hnever (by simp [ho.unsatisfiable, hv])

theorem eval_join (op : LogicalOperator) (x y : Sql) (d : DialectName) :
    (Sql.paren (op.join x y)).eval d db row =
      (x.eval d db row).bind fun s => (y.eval d db row).map (op.apply s) := by
  cases op <;> rfl

theorem truth_of_left_neutral {op : LogicalOperator} {d : DialectName}
    (hc : (Condition.logical op left right).constantValue = none)
    (hneutral : left.constantValue = some op.neutral) :
    (Condition.logical op left right).truth d db row = right.truth d db row := by
  have happly : op.apply (.ofBool op.neutral) = id := by
    cases op with
    | and => exact Truth.true_and
    | or => exact Truth.false_or
  rw [truth_logical hc, truth_constant hneutral, Option.bind_some, happly, Option.map_id, id]

theorem truth_of_right_neutral {op : LogicalOperator} {d : DialectName}
    (hc : (Condition.logical op left right).constantValue = none)
    (hneutral : right.constantValue = some op.neutral) :
    (Condition.logical op left right).truth d db row = left.truth d db row := by
  have happly : ∀ t, op.apply t (.ofBool op.neutral) = t := by
    cases op with
    | and => exact Truth.and_true
    | or => exact Truth.or_false
  rw [truth_logical hc, truth_constant hneutral]
  simp [happly]

theorem not_trivial_of_none (h : Evaluated r db row cond res) (hc : cond.constantValue = none) :
    res.isTrivial = false := by
  rw [h.outcome.isTrivial, hc]
  rfl

theorem logical (op : LogicalOperator) (hl : Evaluated r db row left a)
    (hr : Evaluated r db row right b) :
    Evaluated r db row (.logical op left right) (Renderer.combine op a b) := by
  have ho := combine_outcome op hl.outcome hr.outcome
  rcases combine_cases op hl.outcome hr.outcome with
    ⟨hc, hres⟩ | ⟨hlc, hc, hres⟩ | ⟨hrc, hc, hres⟩ | ⟨hlc, hrc, hc, hres⟩ <;> rw [hres] at ho ⊢
  · have hsome : (Condition.logical op left right).constantValue ≠ none := by simp [hc]
    cases op with
    | and => exact .of_never ho (fun _ => Sql.pred_ne_empty _) (fun _ => rfl) fun h => absurd h hsome
    | or => exact .of_never ho nofun nofun fun h => absurd h hsome
  · refine .of_never ho hr.nonempty hr.never fun h => ?_
    rw [truth_of_left_neutral h hlc]
    exact hr.truth (hr.not_trivial_of_none (hc ▸ h))
  · refine .of_never ho hl.nonempty hl.never fun h => ?_
    rw [truth_of_right_neutral h hrc]
    exact hl.truth (hl.not_trivial_of_none (hc ▸ h))
  · refine .of_never ho (fun _ => Sql.paren_ne_empty _) nofun fun _ => ?_
    rw [eval_join, truth_logical hc, hl.truth (hl.not_trivial_of_none hlc),
      hr.truth (hr.not_trivial_of_none hrc)]

theorem not (h : Evaluated r db row cond res) :
    Evaluated r db row (.not cond) (Renderer.renderNot res) := by
  refine .of_never (renderNot_outcome h.outcome) ?_ ?_ fun hc => ?_
  · unfold Renderer.renderNot
    split
    · exact fun _ => Sql.pred_ne_empty _
    · split
      · exact fun htrivial => absurd htrivial (by decide)
      · exact fun _ => Sql.not_ne_empty _
  · unfold Renderer.renderNot
    split
    · exact fun _ => eval_never r.dialect
    · split
      · exact fun hu => absurd hu Bool.false_ne_true
      · exact fun hu => absurd hu Bool.false_ne_true
  · obtain ⟨ht, hu⟩ := h.outcome
    have hn : cond.constantValue = none := Option.map_eq_none_iff.mp hc
    have htrivial : res.isTrivial = false := by simp [ht, hn]
    rw [truth_not, ← h.truth htrivial]
    simp [Renderer.renderNot, htrivial, hu, hn, Sql.eval]

end Evaluated

theorem Renderer.renderCondition_returns {r : Renderer} (hs : r.schema = newSchema)
    (db : Database) (row : Row) {cond : Condition} (hc : cond.Checked newSchema) :
    Returns (r.renderCondition cond) (Evaluated r db row cond) := by
  induction cond with
  | logical op left right hl hr =>
    exact (hl hc.1).bind fun a ha => (hr hc.2).bind fun b hb => .pure (ha.logical op hb)
  | not cond ih => exact (ih hc).bind fun res h => .pure h.not
  | fieldPredicate field =>
    exact (renderFieldPredicate_returns hs field).mono fun _ h => .of_leaf h rfl
  | comparison left op right =>
    exact (renderComparison_returns hs left op right).mono fun _ h => .of_leaf h rfl
  | inList left values =>
    exact (renderInCondition_returns hs left values).mono fun _ h => .of_leaf h rfl
  | elementIn element field =>
    exact (renderElementInCondition_returns hs element field).mono fun _ h => .of_leaf h rfl
  | contains field value =>
    exact (renderContainsCondition_returns hs hc value).mono fun _ h => .of_leaf h rfl
  | listComprehension kind field iterVar predicate =>
    exact (renderListComprehension_returns hs kind field iterVar predicate).mono fun _ h =>
      .of_leaf h rfl
  | constant value =>
    cases value with
    | true => exact .pure ⟨⟨rfl, rfl⟩, nofun, nofun, nofun⟩
    | false => exact .pure ⟨⟨rfl, rfl⟩, fun _ => nofun, fun _ => rfl, fun _ => rfl⟩

theorem render_selects {opts : RenderOptions} {cond : Condition} {st : Statement}
    (hc : cond.Checked newSchema) (h : (newRenderer newSchema opts).render cond = .ok st)
    (db : Database) (row : Row) :
    st.selects opts.dialect db row = (cond.truth opts.dialect db row == some .true) := by
  unfold Renderer.render at h
  cases hrun : (newRenderer newSchema opts).renderCondition cond {} with
  | error e => exact absurd h (by simp [StateT.run, hrun, Bind.bind, Except.bind])
  | ok out =>
    obtain ⟨res, st'⟩ := out
    have hres := Renderer.renderCondition_returns rfl db row hc _ res st' hrun
    simp only [StateT.run, hrun, Bind.bind, Except.bind] at h
    by_cases hu : res.unsatisfiable
    · obtain rfl : ⟨.never, st'.args⟩ = st := by simpa [hu, Pure.pure, Except.pure] using h
      have hconst : cond.constantValue = some false := by
        have := hres.outcome.unsatisfiable.symm.trans hu
        simpa using this
      rw [truth_constant hconst]
      rfl
    · by_cases ht : res.isTrivial
      · obtain rfl : ⟨.empty, st'.args⟩ = st := by
          simpa [hu, ht, Pure.pure, Except.pure] using h
        have hconst : cond.constantValue = some true := by
          have := hres.outcome.isTrivial.symm.trans ht
          simpa using this
        rw [truth_constant hconst]
        rfl
      · obtain rfl : ⟨res.sql, st'.args⟩ = st := by
          simpa [hu, ht, Pure.pure, Except.pure] using h
        have ht : res.isTrivial = false := by simpa using ht
        have htruth : res.sql.eval opts.dialect db row = cond.truth opts.dialect db row :=
          hres.truth ht
        rw [← htruth]
        unfold Statement.selects
        split
        · rename_i hempty
          exact absurd hempty (hres.nonempty ht)
        · rfl

/-- Exactly one of the filter and its negation selects the memo, and the filter selects it when
it holds of the memo with a missing property read as false and missing tags as the empty list. -/
def TwoValued (d : DialectName) (db : Database) (row : Row) (cond : Condition)
    (f negated : Statement) : Prop :=
  (f.selects d db row = !negated.selects d db row) ∧ f.selects d db row = cond.holds d db row

theorem twoValued_iff {d : DialectName} {db : Database} {row : Row} {cond : Condition}
    {f negated : Statement}
    (hf : f.selects d db row = (cond.truth d db row == some .true))
    (hn : negated.selects d db row = ((Condition.not cond).truth d db row == some .true)) :
    TwoValued d db row cond f negated ↔
      cond.faulty d db = false ∧ cond.blocked d db row = false := by
  unfold TwoValued
  rw [hf, hn, truth_not]
  unfold Condition.truth
  by_cases hfaulty : cond.faulty d db
  · simp [hfaulty]
  · cases hb : cond.blocked d db row <;> cases hh : cond.holds d db row <;>
      simp_all [Truth.ofBool, Truth.not]

/-- Exactly one of a filter and its negation selects a memo, by the filter's meaning there,
exactly when no part of the SQL is malformed and no missing value that its dialect leaves
unguarded reaches the root. -/
theorem negation_twoValued_iff (now : Int) (opts : RenderOptions) (filter : Expr)
    {cond : Condition} {f negated : Statement}
    (hcond : buildCondition now newSchema filter = .ok cond)
    (hf : compileToStatement now opts filter = .ok f)
    (hn : compileToStatement now opts (.call none "!_" [filter]) = .ok negated)
    (db : Database) (row : Row) :
    TwoValued opts.dialect db row cond f negated ↔
      cond.faulty opts.dialect db = false ∧ cond.blocked opts.dialect db row = false := by
  have hchecked := buildCondition_checked hcond
  have hf' : (newRenderer newSchema opts).render cond = .ok f := by
    simpa [compileToStatement, hcond, Bind.bind, Except.bind] using hf
  have hn' : (newRenderer newSchema opts).render (.not cond) = .ok negated := by
    simpa [compileToStatement, buildCondition, hcond, Bind.bind, Except.bind, Pure.pure,
      Except.pure] using hn
  have hnot : (Condition.not cond).Checked newSchema := hchecked
  exact twoValued_iff (render_selects hchecked hf' db row) (render_selects hnot hn' db row)

def likeMatch : List Char → List Char → Bool
  | [], text => text.isEmpty
  | '%' :: pattern, text =>
    (List.range (text.length + 1)).any fun n => likeMatch pattern (text.drop n)
  | c :: pattern, x :: text => (c == '_' || c == x) && likeMatch pattern text
  | _ :: _, [] => false

def compareStrings (op : ComparisonOperator) (a b : String) : Bool :=
  match op with
  | .eq => a == b
  | .neq => a != b
  | .lt => a < b
  | .lte => a ≤ b
  | .gt => b < a
  | .gte => b ≤ a

/-- A database with byte-wise comparison, for tags that JSON does not escape. -/
def plainDatabase : Database where
  compareText := compareStrings
  like text pattern := likeMatch pattern.toList text.toList
  jsonLike text pattern := likeMatch pattern.toList text.toList
  ilike text pattern := likeMatch (pattern.toList.map Char.toLower) (text.toList.map Char.toLower)
  unicodeLower text := String.ofList (text.toList.map Char.toLower)
  jsonText tags := "[" ++ ",".intercalate (tags.map quoted) ++ "]"
  jsonString text :=
    match text.toList with
    | '"' :: rest =>
      if rest.getLast? = some '"' ∧ rest.dropLast.all fun c => c ≠ '"' && c ≠ '\\' then
        some (String.ofList rest.dropLast)
      else none
    | _ => none
  neq_emptyArray tags := by
    cases tags with
    | nil => decide
    | cons tag tags =>
      have hne : "[" ++ ",".intercalate ((tag :: tags).map quoted) ++ "]" ≠ "[]" := by
        intro h
        have hlist := congrArg String.toList h
        cases tags <;> simp [quoted] at hlist
      simpa [compareStrings] using hne

def bareMemo : Row where
  content := "note"
  creatorUsername := some "ann"
  creatorId := 1
  createdTs := 0
  updatedTs := 0
  pinned := true
  visibility := "PRIVATE"
  tags := none
  hasLink := none
  hasTaskList := none
  hasCode := none
  hasIncompleteTasks := none

def pinnedWithoutLink : Expr :=
  .call none "_&&_" [.ident "pinned", .call none "!_" [.ident "has_link"]]

/-- IS TRUE decides a filter on a memo without the key. -/
theorem negation_twoValued_pinned :
    ∃ cond f negated, buildCondition 0 newSchema pinnedWithoutLink = .ok cond ∧
      compileToStatement 0 ⟨.sqlite, 0⟩ pinnedWithoutLink = .ok f ∧
      compileToStatement 0 ⟨.sqlite, 0⟩ (.call none "!_" [pinnedWithoutLink]) = .ok negated ∧
      (TwoValued .sqlite plainDatabase bareMemo cond f negated ↔
        cond.faulty .sqlite plainDatabase = false ∧
          cond.blocked .sqlite plainDatabase bareMemo = false) :=
  ⟨_, _, _, rfl, rfl, rfl, negation_twoValued_iff 0 ⟨.sqlite, 0⟩ pinnedWithoutLink rfl rfl rfl
    plainDatabase bareMemo⟩

/-- In SQLite neither `has_task_list == true` nor its negation selects a memo without the key. -/
theorem hasTaskList_neither_selects :
    ∃ f negated, compileToStatement 0 ⟨.sqlite, 0⟩
        (.call none "_==_" [.ident "has_task_list", .const (.bool true)]) = .ok f ∧
      compileToStatement 0 ⟨.sqlite, 0⟩ (.call none "!_"
        [.call none "_==_" [.ident "has_task_list", .const (.bool true)]]) = .ok negated ∧
      f.selects .sqlite plainDatabase bareMemo = false ∧
      negated.selects .sqlite plainDatabase bareMemo = false :=
  ⟨_, _, rfl, rfl, by decide, by decide⟩

end Memoark.Filter
