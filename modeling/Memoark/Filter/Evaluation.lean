import Memoark.Filter.Meaning
import Memoark.Program.Returns

/-! Rendering preserves meaning: the SQL of a condition evaluates to the condition's truth. -/
namespace Memoark.Filter
open Memoark.Program Memoark.Logic

def tagTruth (row : Row) (faulty holds : Bool) : Option Truth :=
  if faulty then none else some (.mask row.tags.isNone holds)

theorem tagTruth_or (row : Row) (f g a b : Bool) :
    ((tagTruth row f a).bind fun x => (tagTruth row g b).map x.or) =
      tagTruth row (f || g) (a || b) := by
  unfold tagTruth
  cases row.tags with
  | none => cases f <;> cases g <;> rfl
  | some tags => cases f <;> cases g <;> simp

namespace Renderer

variable {r : Renderer} {db : Database} {row : Row} {f : Field}

theorem addArg_returns (db : Database) (row : Row) (value : Arg) :
    Returns (r.addArg value) fun t => t.eval db row = some (value.value r.dialect) := by
  intro st t st' h
  obtain ⟨rfl, -⟩ : SqlTerm.placeholder r.dialect _ value = t ∧ _ = st' := by
    simpa [addArg] using h
  rfl

theorem addBoolArg_returns (db : Database) (row : Row) (value : Bool) :
    Returns (r.addBoolArg value) fun t =>
      t.eval db row = some ((Arg.bool value).value r.dialect) := by
  unfold addBoolArg
  split
  · rename_i hd
    simpa [hd, Arg.value] using
      addArg_returns (r := r) db row (.int (if value then 1 else 0))
  · exact addArg_returns db row (.bool value)

def IsTags (row : Row) (f : Field) : Prop :=
  row.payload f.column f.jsonPath = some (ofOption .jsonArray row.tags)

theorem jsonArrayExpr_eval (db : Database) (hf : IsTags row f) (d : DialectName) :
    (jsonArrayExpr d f).eval db row = some (ofOption .jsonArray row.tags) := by
  unfold IsTags at hf
  cases d <;> cases ht : row.tags <;>
    simp [jsonArrayExpr, SqlTerm.eval, hf, ht, ofOption, extracted]

theorem isTags_of_jsonList {name : String} (h : newSchema.field name = some f)
    (hk : f.kind = .jsonList) (db : Database) (row : Row) : IsTags row f := by
  cases memoField h .sqlite db row with
  | jsonList _ heval => exact heval
  | scalar h' | boolColumn h' | jsonBool h' | virtualAlias h' => simp [hk] at h'

theorem tagExactMatch_returns (db : Database) (hf : IsTags row f) (tag : String) :
    Returns (r.tagExactMatch f tag) fun p => p.eval r.dialect db row =
      tagTruth row (jsonFaulty r.dialect db tag) (tagMatches r.dialect db row tag) := by
  have he := jsonArrayExpr_eval db hf r.dialect
  unfold tagExactMatch
  dsimp only
  split
  · rename_i hd
    refine (addArg_returns db row _).bind fun t ht => .pure ?_
    cases hr : row.tags <;>
      simp_all [SqlPred.eval, Arg.value, Database.patternMatch, Database.asText, tagTruth,
        jsonFaulty, tagMatches, Row.tagList, ofOption]
  all_goals
    rename_i hd
    refine (addArg_returns db row _).bind fun t ht => .pure ?_
    cases hr : row.tags <;> cases hj : db.jsonString (quoted tag) <;>
      simp_all [SqlPred.eval, Arg.value, Database.arrayContains, tagTruth, jsonFaulty,
        tagMatches, Row.tagList, ofOption, quoted]

theorem buildJSONArrayLike_returns (db : Database) (hf : IsTags row f) (pattern : String) :
    Returns (r.buildJSONArrayLike (jsonArrayExpr r.dialect f) pattern) fun p =>
      p.eval r.dialect db row = tagTruth row false (tagTextMatches r.dialect db row pattern) := by
  have he := jsonArrayExpr_eval db hf r.dialect
  unfold buildJSONArrayLike
  split
  all_goals
    refine (addArg_returns db row _).bind fun t ht => .pure ?_
    cases hr : row.tags <;>
      simp_all [SqlPred.eval, SqlTerm.eval, Arg.value, Database.patternMatch, Database.asText,
        Database.castText, tagTruth, tagTextMatches, Row.tagList, ofOption]

def elementTruth (r : Renderer) (db : Database) (row : Row) (v : ValueExpr) : Option Truth :=
  tagTruth row (jsonFaulty r.dialect db v.tag) (tagElementHolds r.dialect db row v.tag)

theorem renderTagElement_returns (db : Database) (hf : IsTags row f) (v : ValueExpr) :
    Returns (r.renderTagElement f v) fun s =>
      s ≠ .empty ∧ s.eval r.dialect db row = elementTruth r db row v := by
  unfold renderTagElement
  refine .bindLift fun lit hlit => ?_
  split
  · rename_i str
    obtain rfl : v = .literal (.string str) := by
      cases v <;> simp_all [expectLiteral]
    refine (tagExactMatch_returns db hf str).bind fun p hp =>
      (buildJSONArrayLike_returns db hf _).bind fun q hq => .pure ⟨nofun, ?_⟩
    simp only [Sql.eval, hp, hq, tagTruth_or, Bool.or_false]
    rfl
  · exact .throw _

theorem joinOr_eval {values : List ValueExpr} {conditions : List Sql} (d : DialectName)
    (hne : values ≠ []) (h : conditions.map (Sql.eval d db row) =
      values.map fun v => tagTruth row (jsonFaulty d db v.tag) (tagElementHolds d db row v.tag)) :
    (joinOr conditions).eval d db row = tagTruth row (values.any fun v => jsonFaulty d db v.tag)
      (values.any fun v => tagElementHolds d db row v.tag) := by
  induction values generalizing conditions with
  | nil => exact absurd rfl hne
  | cons v values ih =>
    cases conditions with
    | nil => simp at h
    | cons s conditions =>
      simp only [List.map_cons, List.cons.injEq] at h
      obtain ⟨hs, hrest⟩ := h
      cases values with
      | nil =>
        obtain rfl : conditions = [] := by simpa using hrest
        simpa [joinOr] using hs
      | cons w values =>
        cases conditions with
        | nil => simp at hrest
        | cons t conditions =>
          have hjoin := ih (by simp) hrest
          rw [joinOr, Sql.eval, hs, hjoin, tagTruth_or]
          rfl

structure Evaluates (r : Renderer) (db : Database) (row : Row) (cond : Condition)
    (res : RenderResult) : Prop where
  isTrivial : res.isTrivial = false
  unsatisfiable : res.unsatisfiable = false
  nonempty : res.sql ≠ .empty
  eval : res.sql.eval r.dialect db row = cond.truth r.dialect db row

theorem renderTagInList_returns (hs : r.schema = newSchema) (values : List ValueExpr) :
    Returns (r.renderTagInList values) (Evaluates r db row (.inList (.fieldRef "tag") values)) := by
  unfold renderTagInList
  split
  · exact .throw _
  · rename_i f hf
    have htags : IsTags row f := by
      rw [hs] at hf
      obtain rfl := Option.some.inj hf
      rfl
    have hloop := Returns.mapM (l := values)
      (Q := fun as bs => bs.map (Sql.eval r.dialect db row) = as.map (elementTruth r db row) ∧
        ∀ s ∈ bs, s ≠ .empty)
      (renderTagElement_returns (r := r) db htags) ⟨rfl, nofun⟩
      fun a b as bs hb hbs => ⟨by simp [hb.2, hbs.1], by simpa using ⟨hb.1, hbs.2⟩⟩
    refine hloop.bind fun conditions hc => ?_
    obtain ⟨heval, hnonempty⟩ := hc
    have htruth : ∀ s : Sql, s.eval r.dialect db row = (joinOr conditions).eval r.dialect db row →
        s.eval r.dialect db row =
          (Condition.inList (.fieldRef "tag") values).truth r.dialect db row := by
      intro s hs
      cases hv : values with
      | nil =>
        obtain rfl : conditions = [] := by simpa [hv] using heval
        simpa [joinOr, Sql.eval, Condition.truth, Condition.faulty] using hs
      | cons v vs =>
        rw [hs, joinOr_eval r.dialect (by simp [hv]) heval]
        simp [Condition.truth, Condition.faulty, Condition.blocked, Condition.readsMissing,
          Condition.holds, inListHolds, tagTruth, hv]
    split
    · exact .pure ⟨rfl, rfl, hnonempty _ (by simp), htruth _ rfl⟩
    · exact .pure ⟨rfl, rfl, Sql.paren_ne_empty _, htruth _ rfl⟩

theorem field_of_lookup (hs : r.schema = newSchema) {name : String}
    (h : r.lookupField name = .ok f) : newSchema.field name = some f := hs ▸ lookupField_eq r h

theorem renderFieldPredicate_returns (hs : r.schema = newSchema) (name : String) :
    Returns (r.renderFieldPredicate name) (Evaluates r db row (.fieldPredicate name)) := by
  unfold renderFieldPredicate
  refine .bindLift fun f hf => ?_
  have hm := memoField (field_of_lookup hs hf) r.dialect db row
  have htruth : (Condition.fieldPredicate name).truth r.dialect db row =
      some (.ofBool (row.flagValue name)) := rfl
  split
  · rename_i hk
    cases hm with
    | boolColumn _ hflag heval =>
      refine .pure ⟨rfl, rfl, Sql.pred_ne_empty _, ?_⟩
      rw [htruth, Row.flagValue, hflag]
      simp only [Sql.eval, SqlPred.eval, heval]
      cases r.dialect <;> cases row.pinned <;> rfl
    | scalar h | jsonBool h | jsonList h | virtualAlias h => simp [hk] at h
  · rename_i hk
    cases hm with
    | jsonBool _ _ value hflag heval =>
      refine .pure ⟨rfl, rfl, ?_, ?_⟩
      · unfold jsonBoolPredicate
        split <;> exact Sql.pred_ne_empty _
      · rw [htruth, Row.flagValue, hflag]
        unfold jsonBoolPredicate jsonExtractExpr
        cases r.dialect <;> cases value with
        | none => simp [Sql.eval, SqlPred.eval, SqlTerm.eval, heval, ofOption, extracted,
            Database.isTrue, Database.compare, Database.terminalText, Database.castBoolean,
            compareBool, compareInt]
        | some b => cases b <;> simp [Sql.eval, SqlPred.eval, SqlTerm.eval, heval, ofOption,
            extracted, Database.isTrue, Database.compare, Database.terminalText,
            Database.castBoolean, compareBool, compareInt, boolText]
    | scalar h | boolColumn h | jsonList h | virtualAlias h => simp [hk] at h
  · exact .throw _

theorem renderFunctionComparison_returns (hs : r.schema = newSchema) (name : String)
    (args : List ValueExpr) (op : ComparisonOperator) (right : ValueExpr) :
    Returns (r.renderFunctionComparison name args op right)
      (Evaluates r db row (.comparison (.function name args) op right)) := by
  unfold renderFunctionComparison
  refine .check fun _ => ?_
  split
  · refine .bindLift fun f hf => .check fun hk => .bindLift fun value hv => ?_
    have htags := isTags_of_jsonList (field_of_lookup hs hf) (Classical.not_not.mp hk) db row
    have he := jsonArrayExpr_eval db htags r.dialect
    have hlit : toInt64 right.literalValue = .ok value := by
      cases right <;> simp_all [expectNumericLiteral, expectLiteral, ValueExpr.literalValue, Bind.bind, Except.bind]
    refine (addArg_returns db row _).bind fun t ht => .pure ⟨rfl, rfl, Sql.pred_ne_empty _, ?_⟩
    simp only [Sql.eval, SqlPred.eval, jsonArrayLengthExpr, SqlTerm.eval, he, ht]
    cases htl : row.tags <;>
      simp [ofOption, Database.arrayLength, Database.compare, Arg.value, Condition.truth,
        Condition.faulty, Condition.blocked, Condition.readsMissing, Condition.holds,
        comparisonHolds, hlit, Row.tagList, htl]
  · exact .throw _
  · exact .throw _

theorem literal_of_expectBool {right : ValueExpr} {value : Bool}
    (h : expectBool right = .ok value) : right = .literal (.bool value) := by
  cases right with
  | literal lit => cases lit <;> simp_all [expectBool, expectLiteral, Bind.bind, Except.bind]
  | _ => simp_all [expectBool, expectLiteral, Bind.bind, Except.bind]

theorem truth_fieldRef (d : DialectName) (db : Database) (row : Row) (name : String)
    (op : ComparisonOperator) (right : ValueExpr) :
    (Condition.comparison (.fieldRef name) op right).truth d db row =
      some (.mask ((Condition.comparison (.fieldRef name) op right).readsMissing d row)
        (comparisonHolds db row (.fieldRef name) op right)) := rfl

theorem readsMissing_flag (d : DialectName) {name : String} {flag : Option Bool}
    (hflag : row.flag name = some flag) (op : ComparisonOperator) (right : ValueExpr) :
    (Condition.comparison (.fieldRef name) op right).readsMissing d row =
      (flag.isNone && unguarded d name) := by
  rw [Condition.readsMissing, hflag]

theorem renderBoolColumnComparison_returns {name : String}
    (hflag : row.flag name = some (some row.pinned))
    (heval : (SqlTerm.column r.dialect f.column).eval db row =
      some ((Arg.bool row.pinned).value r.dialect))
    (op : ComparisonOperator) (right : ValueExpr) :
    Returns (r.renderBoolColumnComparison f op right)
      (Evaluates r db row (.comparison (.fieldRef name) op right)) := by
  unfold renderBoolColumnComparison
  refine .bindLift fun value hv => ?_
  obtain rfl := literal_of_expectBool hv
  refine (addBoolArg_returns db row _).bind fun t ht => .pure ⟨rfl, rfl, Sql.pred_ne_empty _, ?_⟩
  rw [truth_fieldRef, readsMissing_flag r.dialect hflag]
  simp only [Sql.eval, SqlPred.eval, heval, ht]
  cases hd : r.dialect <;>
    simp [Arg.value, Database.compare, comparisonHolds, ValueExpr.literalValue, Row.flagValue,
      hflag, compareBool]

theorem unguarded_sqlite (name : String) :
    unguarded .sqlite name = decide (name = "has_task_list") :=
  decide_eq_decide.mpr (or_iff_right fun h => h rfl)

theorem unguarded_mysql (name : String) : unguarded .mysql name = true := rfl

theorem unguarded_postgres (name : String) : unguarded .postgres name = true := rfl

theorem jsonBool_truth (db : Database) {name : String} {flag : Option Bool} (hflag : row.flag name = some flag)
    (op : ComparisonOperator) (value : Bool) (d : DialectName) :
    (Condition.comparison (.fieldRef name) op (.literal (.bool value))).truth d db row =
      some (.mask (flag.isNone && unguarded d name) (compareBool op (flag.getD false) value)) := by
  rw [truth_fieldRef, readsMissing_flag d hflag]
  simp [comparisonHolds, ValueExpr.literalValue, Row.flagValue, hflag]

theorem renderJSONBoolComparison_returns {name : String} {flag : Option Bool} (hn : f.name = name)
    (hflag : row.flag name = some flag)
    (heval : row.payload f.column f.jsonPath = some (ofOption .jsonBool flag))
    (op : ComparisonOperator) (right : ValueExpr) :
    Returns (r.renderJSONBoolComparison f op right)
      (Evaluates r db row (.comparison (.fieldRef name) op right)) := by
  unfold renderJSONBoolComparison
  refine .bindLift fun value hv => ?_
  obtain rfl := literal_of_expectBool hv
  have htruth := jsonBool_truth db hflag op value r.dialect
  dsimp only
  split
  · rename_i hd
    have he : (jsonExtractExpr .sqlite f).eval db row =
        some (ofOption (fun b => .int (if b then 1 else 0)) flag) := by
      cases flag <;> simp [jsonExtractExpr, SqlTerm.eval, heval, ofOption, extracted]
    rw [hd, unguarded_sqlite] at htruth
    split
    case h_3 => exact .throw _
    all_goals
      refine .ite (fun hname => ?_) fun hname => .ite (fun hvalue => ?_) fun hvalue => ?_
      all_goals
        refine .pure ⟨rfl, rfl, Sql.pred_ne_empty _, ?_⟩
        rw [hn] at hname
        rw [hd, htruth]
        simp only [Sql.eval, SqlPred.eval, SqlTerm.eval, he]
        cases flag with
        | none => simp_all [ofOption, Database.compare, Database.isTrue, compareBool, compareInt]
        | some b => cases b <;> cases value <;>
            simp_all [ofOption, Database.compare, Database.isTrue, compareBool, compareInt]
  · rename_i hd
    refine .pure ⟨rfl, rfl, Sql.pred_ne_empty _, ?_⟩
    rw [hd, unguarded_mysql] at htruth
    rw [hd, htruth]
    cases flag <;> simp [Sql.eval, SqlPred.eval, SqlTerm.eval, jsonExtractExpr, heval, ofOption,
      extracted, Database.compare]
  · rename_i hd
    refine (addArg_returns db row _).bind fun t ht => .pure ⟨rfl, rfl, Sql.pred_ne_empty _, ?_⟩
    rw [hd, unguarded_postgres] at htruth
    rw [hd] at ht
    rw [hd, htruth]
    cases flag with
    | none => simp [Sql.eval, SqlPred.eval, SqlTerm.eval, jsonExtractExpr, heval, ht, ofOption,
        Database.terminalText, Database.castBoolean, Database.compare, Arg.value]
    | some b => cases b <;> simp [Sql.eval, SqlPred.eval, SqlTerm.eval, jsonExtractExpr, heval,
        ht, ofOption, Database.terminalText, Database.castBoolean, boolText, Database.compare,
        Arg.value]

theorem renderScalarComparison_returns {name : String} (hflag : row.flag name = none)
    (ht : HasType f.type (row.scalar name))
    (heval : (f.columnExpr r.dialect).eval db row = some (row.scalar name))
    (op : ComparisonOperator) (right : ValueExpr) :
    Returns (r.renderScalarComparison f op right)
      (Evaluates r db row (.comparison (.fieldRef name) op right)) := by
  unfold renderScalarComparison
  refine .bindLift fun lit hlit => ?_
  obtain rfl : right = .literal lit := by
    cases right <;> simp_all [expectLiteral]
  have htruth : (Condition.comparison (.fieldRef name) op (.literal lit)).truth r.dialect db row =
      some (.mask (row.scalar name == .null && lit != .null)
        (comparisonHolds db row (.fieldRef name) op (.literal lit))) := by
    rw [truth_fieldRef, Condition.readsMissing, hflag]
    rfl
  have hbound : lit.Fits f.type → ∀ a : Arg, a.value r.dialect = lit.scalarValue →
      Returns (r.addArg a >>= fun p => pure { sql := .pred (.compare (f.columnExpr r.dialect) op p) })
        (Evaluates r db row (.comparison (.fieldRef name) op (.literal lit))) := by
    intro hfits a ha
    obtain ⟨hne, hc⟩ := compare_scalar db op ht hfits
    refine (addArg_returns db row a).bind fun t ht' => .pure ⟨rfl, rfl, Sql.pred_ne_empty _, ?_⟩
    have hnull : (lit != .null) = true := by simpa using hne
    rw [htruth, comparisonHolds_scalar name op hfits]
    simp [Sql.eval, SqlPred.eval, heval, ht', ha, hc, hnull]
  dsimp only
  split
  · split
    case h_3 => exact .throw _
    all_goals
      refine .pure ⟨rfl, rfl, Sql.pred_ne_empty _, ?_⟩
      rw [htruth]
      simp [Sql.eval, SqlPred.eval, heval, comparisonHolds, ValueExpr.literalValue, scalarHolds]
  · split
    · rename_i hty
      split
      · rename_i value _
        exact hbound (by simp [hty, Literal.Fits]) (.string value) rfl
      · exact .throw _
    case h_4 => exact .throw _
    all_goals
      rename_i hty
      split
      · rename_i num hnum
        refine hbound (by simp [hty, Literal.Fits, hnum]) (.int num) ?_
        cases lit <;> simp_all [Literal.scalarValue, toInt64, Arg.value]
      · exact .throw _

theorem renderComparison_returns (hs : r.schema = newSchema) (left : ValueExpr)
    (op : ComparisonOperator) (right : ValueExpr) :
    Returns (r.renderComparison left op right) (Evaluates r db row (.comparison left op right)) := by
  unfold renderComparison
  split
  · refine .bindLift fun f hf => ?_
    have hm := memoField (field_of_lookup hs hf) r.dialect db row
    cases hm with
    | scalar hk ht _ hflag heval =>
      simp only [hk]
      exact renderScalarComparison_returns hflag ht heval op right
    | boolColumn hk hflag heval =>
      simp only [hk]
      exact renderBoolColumnComparison_returns hflag heval op right
    | jsonBool hk hn value hflag heval =>
      simp only [hk]
      exact renderJSONBoolComparison_returns hn hflag heval op right
    | jsonList hk | virtualAlias hk =>
      simp only [hk]
      exact .throw _
  · exact renderFunctionComparison_returns hs _ _ op right
  · exact .throw _

theorem renderScalarElement_returns (db : Database) (row : Row) (v : ValueExpr) :
    Returns (r.renderScalarElement f v) fun t => v.literalValue.Fits f.type ∧
      t.eval db row = some v.literalValue.scalarValue := by
  unfold renderScalarElement
  refine .bindLift fun lit hlit => ?_
  obtain rfl : v = .literal lit := by
    cases v <;> simp_all [expectLiteral]
  split
  · rename_i hty
    split
    · rename_i str _
      exact (addArg_returns db row _).mono fun t ht => ⟨by simp [hty, Literal.Fits,
        ValueExpr.literalValue], ht⟩
    · exact .throw _
  · rename_i hty
    refine .bindLift fun num hnum => (addArg_returns db row _).mono fun t ht => ?_
    refine ⟨by simp [hty, Literal.Fits, ValueExpr.literalValue, hnum], ht.trans ?_⟩
    cases lit <;> simp_all [Literal.scalarValue, toInt64, Arg.value, ValueExpr.literalValue]
  · exact .throw _

end Renderer

theorem evalIn_eq {d : DialectName} {db : Database} {t : FieldType} {v : Value}
    {values : List ValueExpr} (hne : values ≠ []) (hv : HasType t v)
    (hfits : ∀ w ∈ values, w.literalValue.Fits t) :
    evalIn d db v (values.map fun w => w.literalValue.scalarValue) =
      some (.mask (v == .null) (values.any fun w => scalarHolds db .eq v w.literalValue)) := by
  induction values with
  | nil => exact absurd rfl hne
  | cons w values ih =>
    have hw := (compare_scalar db .eq hv (hfits w (by simp))).2
    cases values with
    | nil => simpa [evalIn] using hw
    | cons x values =>
      have hrest := ih (by simp) fun y hy => hfits y (List.mem_cons_of_mem w hy)
      rw [List.any_cons, ← Truth.or_mask_same, List.map_cons]
      simp only [List.map_cons] at hrest ⊢
      simp only [evalIn, hw, hrest, Option.bind_eq_bind, Option.bind_some]
      rfl

namespace Renderer

variable {r : Renderer} {db : Database} {row : Row} {f : Field}

theorem renderScalarInCondition_returns {name : String} (hn : name ≠ "tag")
    (ht : HasType f.type (row.scalar name))
    (heval : (f.columnExpr r.dialect).eval db row = some (row.scalar name))
    (values : List ValueExpr) :
    Returns (r.renderScalarInCondition f values)
      (Evaluates r db row (.inList (.fieldRef name) values)) := by
  unfold renderScalarInCondition
  have hloop := Returns.mapM (l := values)
    (Q := fun as bs => bs.mapM (SqlTerm.eval db row) =
        some (as.map fun w => w.literalValue.scalarValue) ∧
      ∀ w ∈ as, w.literalValue.Fits f.type)
    (renderScalarElement_returns (r := r) (f := f) db row) ⟨rfl, nofun⟩
    fun a b as bs hb hbs => ⟨by simp [hb.2, hbs.1], by simpa using ⟨hb.1, hbs.2⟩⟩
  refine hloop.bind fun ts hts => .pure ⟨rfl, rfl, Sql.pred_ne_empty _, ?_⟩
  obtain ⟨hmap, hfits⟩ := hts
  simp only [Sql.eval, SqlPred.eval, heval, hmap, Option.bind_some]
  cases hv : values with
  | nil =>
    cases hd : r.dialect <;>
      simp [evalIn, Condition.truth, Condition.faulty, Condition.blocked, Condition.readsMissing,
        Condition.holds, inListHolds, hn, Truth.ofBool]
  | cons w ws =>
    rw [← hv, evalIn_eq (by simp [hv]) ht hfits]
    simp [Condition.truth, Condition.faulty, Condition.blocked, Condition.readsMissing,
      Condition.holds, inListHolds, hn, hv]

theorem renderInCondition_returns (hs : r.schema = newSchema) (left : ValueExpr)
    (values : List ValueExpr) :
    Returns (r.renderInCondition left values) (Evaluates r db row (.inList left values)) := by
  unfold renderInCondition
  split
  · rename_i name
    by_cases hname : name = "tag"
    · subst hname
      exact renderTagInList_returns hs values
    · simp only [hname, if_false]
      refine .bindLift fun f hf => .check fun hk => ?_
      cases memoField (field_of_lookup hs hf) r.dialect db row with
      | scalar _ ht hn _ heval => exact renderScalarInCondition_returns hn ht heval values
      | boolColumn h | jsonBool h | jsonList h | virtualAlias h => simp [h] at hk
  · exact .throw _

theorem renderElementInCondition_returns (hs : r.schema = newSchema) (element : ValueExpr)
    (name : String) :
    Returns (r.renderElementInCondition element name)
      (Evaluates r db row (.elementIn element name)) := by
  unfold renderElementInCondition
  refine .bindLift fun f hf => .check fun hk => .bindLift fun lit hlit => ?_
  have htags := isTags_of_jsonList (field_of_lookup hs hf) (Classical.not_not.mp hk) db row
  split
  · rename_i str
    obtain rfl : element = .literal (.string str) := by
      cases element <;> simp_all [expectLiteral]
    refine (tagExactMatch_returns db htags str).bind fun p hp =>
      .pure ⟨rfl, rfl, Sql.pred_ne_empty _, ?_⟩
    exact hp
  · exact .throw _

theorem renderContainsCondition_returns (hs : r.schema = newSchema) {name : String}
    (hc : ∃ f, newSchema.field name = some f ∧ f.supportsContains = true) (value : String) :
    Returns (r.renderContainsCondition name value) (Evaluates r db row (.contains name value)) := by
  unfold renderContainsCondition
  refine .bindLift fun f hf => ?_
  obtain ⟨g, hg, hcontains⟩ := hc
  obtain rfl : g = f := Option.some.inj (hg.symm.trans (field_of_lookup hs hf))
  have heval := columnExpr_content hg hcontains r.dialect db row
  have htruth : (Condition.contains name value).truth r.dialect db row =
      some (.ofBool (containsHolds r.dialect db row value)) := rfl
  dsimp only
  split
  all_goals
    rename_i hd
    refine (addArg_returns db row _).bind fun t ht => .pure ⟨rfl, rfl, Sql.pred_ne_empty _, ?_⟩
    rw [htruth, hd]
    rw [hd] at heval ht
    simp [Sql.eval, SqlPred.eval, SqlTerm.eval, heval, ht, Arg.value, Database.lowered,
      Database.patternMatch, Database.asText, containsHolds]

theorem isNotEmptyArray_eval (hf : IsTags row f) (d : DialectName) :
    (isNotEmptyArray d (jsonArrayExpr d f)).eval d db row =
      some (.mask row.tags.isNone (!row.tagList.isEmpty)) := by
  have he := jsonArrayExpr_eval db hf d
  cases htl : row.tags with
  | none =>
    cases d <;> simp [isNotEmptyArray, SqlPred.eval, SqlTerm.eval, he, htl, ofOption,
      Database.compare, Database.arrayLength]
  | some tags =>
    have hlen : decide (0 < tags.length) = !tags.isEmpty := by cases tags <;> simp
    cases d <;> simp [isNotEmptyArray, SqlPred.eval, SqlTerm.eval, he, htl, ofOption,
      Database.compare, Database.arrayLength, Database.asText, db.neq_emptyArray, Row.tagList,
      compareInt, hlen]

theorem wrapWithNullCheck_eval (hf : IsTags row f) {condition : Sql} {faulty holds : Bool}
    (hc : condition.eval r.dialect db row = tagTruth row faulty holds) :
    (r.wrapWithNullCheck (jsonArrayExpr r.dialect f) condition).eval r.dialect db row =
      if faulty then none else some (.ofBool (!row.tagList.isEmpty && holds)) := by
  have he := jsonArrayExpr_eval db hf r.dialect
  simp only [wrapWithNullCheck, Sql.eval, hc, isNotEmptyArray_eval hf]
  simp only [SqlPred.eval, he, tagTruth]
  cases faulty with
  | true => rfl
  | false =>
    cases htl : row.tags with
    | none => simp [ofOption, Row.tagList, htl, Truth.and, Truth.ofBool]
    | some tags =>
      have hnull : (Value.jsonArray tags != .null) = true := rfl
      simp [ofOption, Row.tagList, htl, hnull, Bool.and_comm]

theorem comprehension_evaluates (hf : IsTags row f) {kind : ComprehensionKind}
    {name iterVar : String} {predicate : PredicateExpr} {condition : Sql}
    (hc : condition.eval r.dialect db row =
      tagTruth row (predicate.faulty r.dialect db) (predicate.holds r.dialect db row)) :
    Evaluates r db row (.listComprehension kind name iterVar predicate)
      { sql := r.wrapWithNullCheck (jsonArrayExpr r.dialect f) condition } := by
  refine ⟨rfl, rfl, Sql.paren_ne_empty _, ?_⟩
  rw [wrapWithNullCheck_eval hf hc]
  rfl

theorem exactTag_other (db : Database) (row : Row) {d : DialectName} (hd : d ≠ .postgres) (tag : String) :
    exactTagFaulty d db tag = false ∧
      exactTagHolds d db row tag = tagTextMatches d db row ("%\"" ++ tag ++ "\"%") := by
  cases d <;> first | exact ⟨rfl, rfl⟩ | exact absurd rfl hd

theorem renderListComprehension_returns (hs : r.schema = newSchema) (kind : ComprehensionKind)
    (name iterVar : String) (predicate : PredicateExpr) :
    Returns (r.renderListComprehension name predicate)
      (Evaluates r db row (.listComprehension kind name iterVar predicate)) := by
  unfold renderListComprehension
  refine .bindLift fun f hf => .check fun hk => ?_
  have htags := isTags_of_jsonList (field_of_lookup hs hf) (Classical.not_not.mp hk) db row
  have hlike := buildJSONArrayLike_returns (r := r) db htags
  have hexact := tagExactMatch_returns (r := r) db htags
  cases predicate with
  | equals value =>
    simp only [renderTagEquals]
    split
    · rename_i hd
      refine (hexact value).bind fun p hp => .pure (comprehension_evaluates htags ?_)
      rw [hd] at hp ⊢
      exact hp
    · rename_i hd
      obtain ⟨hfaulty, hholds⟩ := exactTag_other db row hd value
      refine (hlike _).bind fun p hp => .pure (comprehension_evaluates htags ?_)
      rw [Sql.eval, hp, PredicateExpr.faulty, PredicateExpr.holds, hfaulty, hholds]
  | startsWith start =>
    simp only [renderTagStartsWith]
    split
    · rename_i hd
      refine (hexact start).bind fun p hp => (hlike _).bind fun q hq =>
        .pure (comprehension_evaluates htags ?_)
      simp only [Sql.eval, hp, hq, tagTruth_or, Bool.or_false]
      rw [hd]
      rfl
    · rename_i hd
      obtain ⟨hfaulty, hholds⟩ := exactTag_other db row hd start
      refine (hlike _).bind fun p hp => (hlike _).bind fun q hq =>
        .pure (comprehension_evaluates htags ?_)
      simp only [Sql.eval, hp, hq, tagTruth_or]
      rw [PredicateExpr.faulty, PredicateExpr.holds, hfaulty, hholds, Bool.or_false]
  | endsWith suffix =>
    exact (hlike _).bind fun p hp => .pure (comprehension_evaluates htags hp)
  | contains substring =>
    exact (hlike _).bind fun p hp => .pure (comprehension_evaluates htags hp)

end Renderer

end Memoark.Filter
