import Memoark.Filter.Emission
import Memoark.Filter.Parts
import Memoark.Program.Emit

/-! What a filter binds is what its parts bind, in their order. -/
namespace Memoark.Filter
open Memoark.Program

namespace Renderer

variable {r : Renderer}

theorem addArg_logs (value : Arg) : Logs (r.addArg value) [value] := fun _ => ⟨_, rfl⟩

theorem addArg_steady (value : Arg) : Steady (r.addArg value) := .inl ⟨_, addArg_logs value⟩

theorem addBoolArg_steady (value : Bool) : Steady (r.addBoolArg value) := by
  unfold addBoolArg
  split <;> exact addArg_steady _

theorem renderFieldPredicate_steady (name : String) : Steady (r.renderFieldPredicate name) := by
  unfold renderFieldPredicate
  refine .bindLift fun f _ => ?_
  split
  · exact .pure _
  · exact .pure _
  · exact .throw _

theorem renderFunctionComparison_steady (name : String) (args : List ValueExpr)
    (op : ComparisonOperator) (right : ValueExpr) :
    Steady (r.renderFunctionComparison name args op right) := by
  unfold renderFunctionComparison
  refine .check fun _ => ?_
  split
  · exact .bindLift fun f _ => .check fun _ => .bindLift fun value _ => (addArg_steady _).map
  · exact .throw _
  · exact .throw _

theorem renderScalarComparison_steady (f : Field) (op : ComparisonOperator) (right : ValueExpr) :
    Steady (r.renderScalarComparison f op right) := by
  unfold renderScalarComparison
  refine .bindLift fun lit _ => ?_
  dsimp only
  split
  · split
    · exact .pure _
    · exact .pure _
    · exact .throw _
  · split
    · split
      · exact (addArg_steady _).map
      · exact .throw _
    · split
      · exact (addArg_steady _).map
      · exact .throw _
    · split
      · exact (addArg_steady _).map
      · exact .throw _
    · exact .throw _

theorem renderJSONBoolComparison_steady (f : Field) (op : ComparisonOperator)
    (right : ValueExpr) : Steady (r.renderJSONBoolComparison f op right) := by
  unfold renderJSONBoolComparison
  refine .bindLift fun value _ => ?_
  dsimp only
  split
  · split
    · exact .ite (fun _ => .pure _) fun _ => .ite (fun _ => .pure _) fun _ => .pure _
    · exact .ite (fun _ => .pure _) fun _ => .ite (fun _ => .pure _) fun _ => .pure _
    · exact .throw _
  · exact .pure _
  · exact (addArg_steady _).map

theorem renderComparison_steady (left : ValueExpr) (op : ComparisonOperator)
    (right : ValueExpr) : Steady (r.renderComparison left op right) := by
  unfold renderComparison
  split
  · refine .bindLift fun f _ => ?_
    split
    · exact .bindLift fun value _ => (addBoolArg_steady value).map
    · exact renderJSONBoolComparison_steady f op right
    · exact renderScalarComparison_steady f op right
    · exact .throw _
  · exact renderFunctionComparison_steady _ _ op right
  · exact .throw _

theorem tagExactMatch_steady (f : Field) (tag : String) : Steady (r.tagExactMatch f tag) := by
  unfold tagExactMatch
  dsimp only
  split <;> exact (addArg_steady _).map

theorem buildJSONArrayLike_steady (arrayExpr : SqlTerm) (pattern : String) :
    Steady (r.buildJSONArrayLike arrayExpr pattern) := by
  unfold buildJSONArrayLike
  split <;> exact (addArg_steady _).map

theorem renderTagElement_steady (f : Field) (v : ValueExpr) :
    Steady (r.renderTagElement f v) := by
  unfold renderTagElement
  refine .bindLift fun lit _ => ?_
  split
  · exact (tagExactMatch_steady f _).both (buildJSONArrayLike_steady _ _)
  · exact .throw _

theorem renderScalarElement_steady (f : Field) (v : ValueExpr) :
    Steady (r.renderScalarElement f v) := by
  unfold renderScalarElement
  refine .bindLift fun lit _ => ?_
  split
  · split
    · exact addArg_steady _
    · exact .throw _
  · exact .bindLift fun num _ => addArg_steady _
  · exact .throw _

theorem renderInCondition_steady (left : ValueExpr) (values : List ValueExpr) :
    Steady (r.renderInCondition left values) := by
  unfold renderInCondition
  split
  · refine .ite (fun _ => ?_) fun _ => ?_
    · unfold renderTagInList
      split
      · exact .throw _
      · rename_i f _
        refine (Steady.mapM (renderTagElement_steady f)).thenSilent fun conditions => ?_
        split <;> exact .pure _
    · exact .bindLift fun f _ => .check fun _ =>
        (Steady.mapM (renderScalarElement_steady f)).map
  · exact .throw _

theorem renderElementInCondition_steady (element : ValueExpr) (name : String) :
    Steady (r.renderElementInCondition element name) := by
  unfold renderElementInCondition
  refine .bindLift fun f _ => .check fun _ => .bindLift fun lit _ => ?_
  split
  · exact (tagExactMatch_steady f _).map
  · exact .throw _

theorem renderContainsCondition_steady (name value : String) :
    Steady (r.renderContainsCondition name value) := by
  unfold renderContainsCondition
  refine .bindLift fun f _ => ?_
  dsimp only
  split <;> exact (addArg_steady _).map

theorem renderListComprehension_steady (name : String) (predicate : PredicateExpr) :
    Steady (r.renderListComprehension name predicate) := by
  unfold renderListComprehension
  refine .bindLift fun f _ => .check fun _ => ?_
  cases predicate with
  | equals value =>
    simp only [renderTagEquals]
    split
    · exact (tagExactMatch_steady f _).map
    · exact (buildJSONArrayLike_steady _ _).map
  | startsWith start =>
    simp only [renderTagStartsWith]
    split
    · exact (tagExactMatch_steady f _).both (buildJSONArrayLike_steady _ _)
    · exact (buildJSONArrayLike_steady _ _).both (buildJSONArrayLike_steady _ _)
  | endsWith suffix => exact (buildJSONArrayLike_steady _ _).map
  | contains substring => exact (buildJSONArrayLike_steady _ _).map

theorem leaf_steady {cond : Condition} (h : cond.IsLeaf) : Steady (r.renderCondition cond) := by
  cases cond with
  | logical op left right => exact h.elim
  | not e => exact h.elim
  | fieldPredicate field => exact renderFieldPredicate_steady field
  | comparison left op right => exact renderComparison_steady left op right
  | inList left values => exact renderInCondition_steady left values
  | elementIn element field => exact renderElementInCondition_steady element field
  | contains field value => exact renderContainsCondition_steady field value
  | listComprehension kind field iterVar predicate =>
    exact renderListComprehension_steady field predicate
  | constant value => cases value <;> exact .pure _

end Renderer

def boundArgs : Except String Statement → List Arg
  | .ok stmt => stmt.args
  | .error _ => []

def Expr.args (s : Schema) (now : Int) (opts : RenderOptions) (e : Expr) : List Arg :=
  boundArgs (s.compileToStatement now opts e)

section compile

variable {r : Renderer} {cond : Condition} {new : List Arg}

theorem render_of_logs (h : Logs (r.renderCondition cond) new) :
    ∃ stmt, r.render cond = .ok stmt ∧ stmt.args = new := by
  obtain ⟨res, hres⟩ := h {}
  have hargs : (push ({} : RenderState) new).args = new := List.nil_append new
  simp only [Renderer.render, StateT.run, hres, Bind.bind, Except.bind, hargs]
  split
  · exact ⟨_, rfl, rfl⟩
  · split <;> exact ⟨_, rfl, rfl⟩

theorem logs_leaf {st : RenderState} {res : RenderResult × RenderState}
    (h : r.renderCondition cond st = .ok res) (hleaf : cond.IsLeaf) :
    Logs (r.renderCondition cond) (boundArgs (r.render cond)) := by
  obtain ⟨new, hnew⟩ := (Renderer.leaf_steady hleaf).logs h
  obtain ⟨stmt, hstmt, rfl⟩ := render_of_logs hnew
  rw [hstmt]
  exact hnew

theorem logs_leaves {st : RenderState} {res : RenderResult × RenderState}
    (h : r.renderCondition cond st = .ok res) :
    (∀ leaf ∈ cond.leaves, ∃ stmt, r.render leaf = .ok stmt) ∧
      Logs (r.renderCondition cond) (cond.leaves.flatMap fun leaf => boundArgs (r.render leaf)) := by
  induction cond generalizing st res with
  | logical op left right hl hr =>
    obtain ⟨⟨a, st₁⟩, ha, h⟩ := bind_ok h
    obtain ⟨⟨b, st₂⟩, hb, -⟩ := bind_ok h
    obtain ⟨hleft, hnew⟩ := hl ha
    obtain ⟨hright, hmore⟩ := hr hb
    refine ⟨fun leaf hmem => (List.mem_append.mp hmem).elim (hleft leaf) (hright leaf), ?_⟩
    rw [Condition.leaves, List.flatMap_append]
    exact hnew.bind fun _ => hmore.map
  | not e ih =>
    obtain ⟨⟨a, st₁⟩, ha, -⟩ := bind_ok h
    exact ⟨(ih ha).1, (ih ha).2.map⟩
  | _ =>
    have hlogs := logs_leaf h trivial
    refine ⟨fun leaf hmem => ?_, by simpa [Condition.leaves] using hlogs⟩
    obtain rfl := List.mem_singleton.mp hmem
    obtain ⟨stmt, hstmt, -⟩ := render_of_logs hlogs
    exact ⟨stmt, hstmt⟩

theorem compile_parts {s : Schema} {now : Int} {opts : RenderOptions} {filter : Expr}
    {stmt : Statement} (h : s.compileToStatement now opts filter = .ok stmt) :
    (∀ part ∈ filter.parts, ∃ stmt, s.compileToStatement now opts part = .ok stmt) ∧
      stmt.args = filter.parts.flatMap (Expr.args s now opts) := by
  obtain ⟨cond, hcond, hrender⟩ := bind_ok h
  have hparts := buildCondition_parts hcond
  obtain ⟨res, hrun, -⟩ := bind_ok hrender
  obtain ⟨hleaves, hlogs⟩ := logs_leaves hrun
  obtain ⟨stmt', hstmt', hargs⟩ := render_of_logs hlogs
  obtain rfl : stmt' = stmt := Except.ok.inj (hstmt'.symm.trans hrender)
  constructor
  · intro part hpart
    have hmem := List.mem_map_of_mem (f := buildCondition now s) hpart
    rw [hparts] at hmem
    obtain ⟨leaf, hleaf, hbuilt⟩ := List.mem_map.mp hmem
    obtain ⟨st, hst⟩ := hleaves leaf hleaf
    refine ⟨st, ?_⟩
    rw [Schema.compileToStatement, ← hbuilt]
    exact hst
  · have hflat := congrArg (fun built => built.flatMap fun c =>
      boundArgs (c.bind (newRenderer s opts).render)) hparts
    simp only [List.flatMap_map] at hflat
    exact hargs.trans hflat.symm

end compile

end Memoark.Filter
