import Memoark.Filter.Checked
import Memoark.Filter.Render
import Memoark.Program.Alike

/-! Rendering succeeds in every dialect if it succeeds in one. -/
namespace Memoark.Filter

open Program (Alike Total SameOutcome)

def Schema.FlagsEquated (s : Schema) : Prop :=
  ∀ e ∈ s.fields, e.2.kind = .jsonBool → e.2.allowedComparisonOps = equalityOps

theorem newSchema_flagsEquated : newSchema.FlagsEquated := by
  unfold Schema.FlagsEquated
  decide

theorem checkComparisonOp_flag {s : Schema} (hs : s.FlagsEquated) {op : ComparisonOperator}
    {name : String} {f : Field} (h : checkComparisonOp s op (.fieldRef name) = .ok ())
    (hf : s.field name = some f) (hk : f.kind = .jsonBool) : op = .eq ∨ op = .neq := by
  have hops := hs _ (Schema.mem_of_field hf) hk
  have halias : s.resolveAlias name = some f := by simp [Schema.resolveAlias, hf, hk]
  cases op <;> simp_all [checkComparisonOp, equalityOps]

namespace Renderer

variable {s : Schema} {o o' : RenderOptions}

theorem addArg_total (r : Renderer) (a : Arg) : Total (r.addArg a) := fun _ => ⟨_, rfl⟩

theorem addBoolArg_total (r : Renderer) (value : Bool) : Total (r.addBoolArg value) := by
  unfold addBoolArg
  split <;> exact addArg_total r _

theorem tagExactMatch_total (r : Renderer) (f : Field) (tag : String) :
    Total (r.tagExactMatch f tag) := by
  unfold tagExactMatch
  dsimp only
  split
  all_goals exact (addArg_total r _).bind fun _ => .pure _

theorem buildJSONArrayLike_total (r : Renderer) (arrayExpr : SqlTerm) (pattern : String) :
    Total (r.buildJSONArrayLike arrayExpr pattern) := by
  unfold buildJSONArrayLike
  split
  all_goals exact (addArg_total r _).bind fun _ => .pure _

theorem renderFieldPredicate_alike (name : String) :
    Alike ((newRenderer s o).renderFieldPredicate name)
      ((newRenderer s o').renderFieldPredicate name) := by
  unfold renderFieldPredicate
  refine .bindLift fun f _ => ?_
  split
  · exact (Total.pure _).alike (.pure _)
  · exact (Total.pure _).alike (.pure _)
  · exact .throw _

theorem renderFunctionComparison_alike (name : String) (args : List ValueExpr)
    (op : ComparisonOperator) (right : ValueExpr) :
    Alike ((newRenderer s o).renderFunctionComparison name args op right)
      ((newRenderer s o').renderFunctionComparison name args op right) := by
  unfold renderFunctionComparison
  refine .check fun _ => ?_
  split
  · refine .bindLift fun f _ => .check fun _ => .bindLift fun value _ => ?_
    exact (addArg_total _ _).alike (addArg_total _ _) |>.bind fun _ _ =>
      (Total.pure _).alike (.pure _)
  · exact .throw _
  · exact .throw _

theorem renderScalarComparison_alike (f : Field) (op : ComparisonOperator) (right : ValueExpr) :
    Alike ((newRenderer s o).renderScalarComparison f op right)
      ((newRenderer s o').renderScalarComparison f op right) := by
  have hbound (a : Arg) {build build' : SqlTerm → RenderResult} :
      Alike ((newRenderer s o).addArg a >>= fun t => pure (build t))
        ((newRenderer s o').addArg a >>= fun t => pure (build' t)) :=
    ((addArg_total _ a).bind fun _ => .pure _).alike ((addArg_total _ a).bind fun _ => .pure _)
  unfold renderScalarComparison
  refine .bindLift fun lit _ => ?_
  dsimp only
  split
  · split
    · exact (Total.pure _).alike (.pure _)
    · exact (Total.pure _).alike (.pure _)
    · exact .throw _
  · split
    · split
      · exact hbound _
      · exact .throw _
    · split
      · exact hbound _
      · exact .throw _
    · split
      · exact hbound _
      · exact .throw _
    · exact .throw _

theorem renderBoolColumnComparison_alike (f : Field) (op : ComparisonOperator)
    (right : ValueExpr) :
    Alike ((newRenderer s o).renderBoolColumnComparison f op right)
      ((newRenderer s o').renderBoolColumnComparison f op right) := by
  unfold renderBoolColumnComparison
  refine .bindLift fun value _ => ?_
  exact ((addBoolArg_total _ _).bind fun _ => .pure _).alike
    ((addBoolArg_total _ _).bind fun _ => .pure _)

theorem renderJSONBoolComparison_alike (f : Field) {op : ComparisonOperator}
    (hop : op = .eq ∨ op = .neq) (right : ValueExpr) :
    Alike ((newRenderer s o).renderJSONBoolComparison f op right)
      ((newRenderer s o').renderJSONBoolComparison f op right) := by
  unfold renderJSONBoolComparison
  refine .bindLift fun value _ => Total.alike ?_ ?_
  all_goals
    dsimp only
    split
    · rcases hop with rfl | rfl
      · exact .ite (.pure _) (.ite (.pure _) (.pure _))
      · exact .ite (.pure _) (.ite (.pure _) (.pure _))
    · exact .pure _
    · exact (addArg_total _ _).bind fun _ => .pure _

theorem renderComparison_alike (hs : s.FlagsEquated) {left : ValueExpr} {op : ComparisonOperator}
    (hop : checkComparisonOp s op left = .ok ()) (right : ValueExpr) :
    Alike ((newRenderer s o).renderComparison left op right)
      ((newRenderer s o').renderComparison left op right) := by
  unfold renderComparison
  split
  · refine .bindLift fun f hf => ?_
    split
    · exact renderBoolColumnComparison_alike f op right
    · rename_i hk
      have hflag := checkComparisonOp_flag hs hop (lookupField_eq _ hf) hk
      exact renderJSONBoolComparison_alike f hflag right
    · exact renderScalarComparison_alike f op right
    · exact .throw _
  · exact renderFunctionComparison_alike _ _ op right
  · exact .throw _

theorem renderTagElement_alike (f : Field) (v : ValueExpr) :
    Alike ((newRenderer s o).renderTagElement f v) ((newRenderer s o').renderTagElement f v) := by
  have htotal (r : Renderer) (str : String) {build : SqlPred → SqlPred → Sql} (t : SqlTerm) :
      Total (do
        let exactMatch ← r.tagExactMatch f str
        let prefixMatch ← r.buildJSONArrayLike t ("%\"" ++ str ++ "/%")
        return build exactMatch prefixMatch) :=
    (tagExactMatch_total r f str).bind fun _ => (buildJSONArrayLike_total r t _).bind fun _ =>
      .pure _
  unfold renderTagElement
  refine .bindLift fun lit _ => ?_
  split
  · exact (htotal _ _ _).alike (htotal _ _ _)
  · exact .throw _

theorem renderTagInList_alike (values : List ValueExpr) :
    Alike ((newRenderer s o).renderTagInList values)
      ((newRenderer s o').renderTagInList values) := by
  unfold renderTagInList
  dsimp only [newRenderer]
  split
  · exact .throw _
  · refine (Alike.mapM (renderTagElement_alike _)).bind fun cs cs' => Total.alike ?_ ?_
    all_goals
      split
      · exact .pure _
      · exact .pure _

theorem renderScalarElement_alike (f : Field) (v : ValueExpr) :
    Alike ((newRenderer s o).renderScalarElement f v)
      ((newRenderer s o').renderScalarElement f v) := by
  have harg (a : Arg) := (addArg_total (newRenderer s o) a).alike (addArg_total (newRenderer s o') a)
  unfold renderScalarElement
  refine .bindLift fun lit _ => ?_
  split
  · split
    · exact harg _
    · exact .throw _
  · exact .bindLift fun num _ => harg _
  · exact .throw _

theorem renderInCondition_alike (left : ValueExpr) (values : List ValueExpr) :
    Alike ((newRenderer s o).renderInCondition left values)
      ((newRenderer s o').renderInCondition left values) := by
  unfold renderInCondition
  split
  · refine .ite (fun _ => renderTagInList_alike values) fun _ => .bindLift fun f _ =>
      .check fun _ => ?_
    exact (Alike.mapM (renderScalarElement_alike f)).bind fun _ _ => (Total.pure _).alike (.pure _)
  · exact .throw _

theorem renderElementInCondition_alike (element : ValueExpr) (name : String) :
    Alike ((newRenderer s o).renderElementInCondition element name)
      ((newRenderer s o').renderElementInCondition element name) := by
  have htotal (r : Renderer) (f : Field) (tag : String) {build : SqlPred → RenderResult} :
      Total (do return build (← r.tagExactMatch f tag)) :=
    (tagExactMatch_total r f tag).bind fun _ => .pure _
  unfold renderElementInCondition
  refine .bindLift fun f _ => .check fun _ => .bindLift fun lit _ => ?_
  split
  · exact (htotal _ f _).alike (htotal _ f _)
  · exact .throw _

theorem renderContainsCondition_alike (name value : String) :
    Alike ((newRenderer s o).renderContainsCondition name value)
      ((newRenderer s o').renderContainsCondition name value) := by
  unfold renderContainsCondition
  refine .bindLift fun f _ => Total.alike ?_ ?_
  all_goals
    dsimp only
    split
    all_goals exact (addArg_total _ _).bind fun _ => .pure _

theorem renderTagStartsWith_total (r : Renderer) (f : Field) (start : String) :
    Total (r.renderTagStartsWith f start) := by
  unfold renderTagStartsWith
  dsimp only
  split
  · exact (tagExactMatch_total r f _).bind fun _ => (buildJSONArrayLike_total r _ _).bind
      fun _ => .pure _
  · exact (buildJSONArrayLike_total r _ _).bind fun _ => (buildJSONArrayLike_total r _ _).bind
      fun _ => .pure _

theorem renderTagEquals_total (r : Renderer) (f : Field) (value : String) :
    Total (r.renderTagEquals f value) := by
  unfold renderTagEquals
  dsimp only
  split
  · exact (tagExactMatch_total r f _).bind fun _ => .pure _
  · exact (buildJSONArrayLike_total r _ _).bind fun _ => .pure _

theorem renderTagEndsWith_total (r : Renderer) (f : Field) (suffix : String) :
    Total (r.renderTagEndsWith f suffix) :=
  (buildJSONArrayLike_total r _ _).bind fun _ => .pure _

theorem renderTagContains_total (r : Renderer) (f : Field) (substring : String) :
    Total (r.renderTagContains f substring) :=
  (buildJSONArrayLike_total r _ _).bind fun _ => .pure _

theorem renderListComprehension_alike (name : String) (predicate : PredicateExpr) :
    Alike ((newRenderer s o).renderListComprehension name predicate)
      ((newRenderer s o').renderListComprehension name predicate) := by
  unfold renderListComprehension
  refine .bindLift fun f _ => .check fun _ => ?_
  cases predicate with
  | equals value => exact (renderTagEquals_total _ f value).alike (renderTagEquals_total _ f value)
  | startsWith start =>
    exact (renderTagStartsWith_total _ f start).alike (renderTagStartsWith_total _ f start)
  | endsWith suffix =>
    exact (renderTagEndsWith_total _ f suffix).alike (renderTagEndsWith_total _ f suffix)
  | contains substring =>
    exact (renderTagContains_total _ f substring).alike (renderTagContains_total _ f substring)

theorem renderCondition_alike (hs : s.FlagsEquated) {cond : Condition} (h : cond.Checked s) :
    Alike ((newRenderer s o).renderCondition cond) ((newRenderer s o').renderCondition cond) := by
  induction cond with
  | logical op left right hl hr =>
    exact (hl h.1).bind fun _ _ => (hr h.2).bind fun _ _ => (Total.pure _).alike (.pure _)
  | not expr ih => exact (ih h).bind fun _ _ => (Total.pure _).alike (.pure _)
  | constant value => cases value <;> exact (Total.pure _).alike (.pure _)
  | fieldPredicate field => exact renderFieldPredicate_alike field
  | comparison left op right => exact renderComparison_alike hs h right
  | inList left values => exact renderInCondition_alike left values
  | elementIn element field => exact renderElementInCondition_alike element field
  | contains field value => exact renderContainsCondition_alike field value
  | listComprehension kind field iterVar predicate =>
    exact renderListComprehension_alike field predicate

end Renderer

end Memoark.Filter
