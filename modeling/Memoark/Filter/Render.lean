import Memoark.Filter.Parser
import Memoark.Filter.Sql

/-! Rendering a condition tree into SQL and its bound values (`render.go`), and with it the filter
engine (`engine.go`) from the parsed expression on. -/
namespace Memoark.Filter

structure RenderOptions where
  dialect : DialectName
  placeholderOffset : Nat

structure Renderer where
  schema : Schema
  dialect : DialectName
  placeholderOffset : Nat

def newRenderer (schema : Schema) (opts : RenderOptions) : Renderer :=
  ⟨schema, opts.dialect, opts.placeholderOffset⟩

/-- The fields of the renderer that `addArg` changes. -/
structure RenderState where
  placeholderCounter : Nat := 0
  args : List Arg := []

abbrev RenderM := StateT RenderState (Except String)

structure RenderResult where
  sql : Sql := .empty
  isTrivial : Bool := false
  unsatisfiable : Bool := false

structure Statement where
  sql : Sql
  args : List Arg

def Statement.text (s : Statement) : String := s.sql.text

def combineAnd (left right : RenderResult) : RenderResult :=
  if left.unsatisfiable || right.unsatisfiable then { sql := .never, unsatisfiable := true }
  else if left.isTrivial then right
  else if right.isTrivial then left
  else { sql := .paren (.and left.sql right.sql) }

def combineOr (left right : RenderResult) : RenderResult :=
  if left.isTrivial || right.isTrivial then { isTrivial := true }
  else if left.unsatisfiable then right
  else if right.unsatisfiable then left
  else { sql := .paren (.or left.sql right.sql) }

def expectLiteral : ValueExpr → Except String Literal
  | .literal value => .ok value
  | _ => .error "expression must be a literal"

def expectBool (expr : ValueExpr) : Except String Bool := do
  match ← expectLiteral expr with
  | .bool value => .ok value
  | _ => .error "boolean literal required"

def toInt64 : Literal → Except String Int
  | .int64 v => .ok v
  | .float64 v => .ok v.toInt64
  | .string _ => .error "cannot convert string to int64"
  | .bool _ => .error "cannot convert bool to int64"
  | .null => .error "cannot convert <nil> to int64"

def expectNumericLiteral (expr : ValueExpr) : Except String Int := do
  toInt64 (← expectLiteral expr)

def Field.columnExpr (f : Field) (d : DialectName) : SqlTerm :=
  match f.expressions d with
  | some e => .format e (.column d f.column)
  | none => .column d f.column

def jsonExtractExpr (d : DialectName) (f : Field) : SqlTerm :=
  match d with
  | .postgres => .jsonAccess f.column f.jsonPath true
  | _ => .jsonExtract d f.column f.jsonPath

def jsonArrayExpr (d : DialectName) (f : Field) : SqlTerm :=
  match d with
  | .postgres => .jsonAccess f.column f.jsonPath false
  | _ => .jsonExtract d f.column f.jsonPath

def jsonArrayLengthExpr (d : DialectName) (f : Field) : SqlTerm :=
  .arrayLength d (jsonArrayExpr d f)

def isNotEmptyArray (d : DialectName) (arrayExpr : SqlTerm) : SqlPred :=
  match d with
  | .sqlite => .compare arrayExpr .neq .emptyArray
  | _ => .compare (.elementCount d arrayExpr) .gt (.number 0)

namespace Renderer

variable (r : Renderer)

def addArg (value : Arg) : RenderM SqlTerm := fun st =>
  .ok (.placeholder r.dialect (r.placeholderOffset + (st.placeholderCounter + 1)) value,
    { placeholderCounter := st.placeholderCounter + 1, args := st.args ++ [value] })

def addBoolArg (value : Bool) : RenderM SqlTerm :=
  match r.dialect with
  | .sqlite => r.addArg (.int (if value then 1 else 0))
  | _ => r.addArg (.bool value)

def lookupField (name : String) : Except String Field :=
  match r.schema.field name with
  | some f => .ok f
  | none => .error ("unknown field " ++ name.quote)

theorem lookupField_eq {name : String} {f : Field} (h : r.lookupField name = .ok f) :
    r.schema.field name = some f := by
  unfold lookupField at h
  cases hf : r.schema.field name with
  | none => simp [hf] at h
  | some g =>
    obtain rfl : g = f := by simpa [hf] using h
    rfl

def jsonBoolPredicate (f : Field) : Sql :=
  let expr := jsonExtractExpr r.dialect f
  match r.dialect with
  | .sqlite => .pred (.isTrue expr)
  | .mysql => .pred (.compare (.coalesceFalse expr) .eq (.castJson true))
  | .postgres => .pred (.isTrue (.castBoolean expr))

def renderFieldPredicate (name : String) : RenderM RenderResult := do
  let f ← r.lookupField name
  match f.kind with
  | .boolColumn => return { sql := .pred (.isTrue (.column r.dialect f.column)) }
  | .jsonBool => return { sql := r.jsonBoolPredicate f }
  | _ => throw ("field " ++ name.quote ++ " cannot be used as a predicate")

def renderFunctionComparison (name : String) (args : List ValueExpr) (op : ComparisonOperator)
    (right : ValueExpr) : RenderM RenderResult := do
  if name ≠ "size" then throw ("unsupported function " ++ name ++ " in comparison")
  match args with
  | [.fieldRef fieldName] =>
    let f ← r.lookupField fieldName
    if f.kind ≠ .jsonList then
      throw ("size() only supports tag lists, got " ++ f.name.quote)
    let value ← (expectNumericLiteral right : Except String Int)
    let p ← r.addArg (.int value)
    return { sql := .pred (.compare (jsonArrayLengthExpr r.dialect f) op p) }
  | [_] => throw "size() argument must be a field"
  | _ => throw "size() expects one argument"

def renderScalarComparison (f : Field) (op : ComparisonOperator) (right : ValueExpr) :
    RenderM RenderResult := do
  let lit ← (expectLiteral right : Except String Literal)
  let columnExpr := f.columnExpr r.dialect
  match lit with
  | .null =>
    match op with
    | .eq => return { sql := .pred (.isNull columnExpr) }
    | .neq => return { sql := .pred (.isNotNull columnExpr) }
    | op => throw ("operator " ++ sqlOperator op ++ " not supported for null comparison")
  | lit =>
    match f.type with
    | .string =>
      match lit with
      | .string value =>
        let p ← r.addArg (.string value)
        return { sql := .pred (.compare columnExpr op p) }
      | _ => throw ("field " ++ f.name.quote ++ " expects string value")
    | .int | .timestamp =>
      match toInt64 lit with
      | .ok num =>
        let p ← r.addArg (.int num)
        return { sql := .pred (.compare columnExpr op p) }
      | .error err => throw ("field " ++ f.name.quote ++ " expects integer value: " ++ err)
    | .bool => throw ("unsupported data type \"bool\" for field " ++ f.name)

def renderBoolColumnComparison (f : Field) (op : ComparisonOperator) (right : ValueExpr) :
    RenderM RenderResult := do
  let value ← (expectBool right : Except String Bool)
  let p ← r.addBoolArg value
  return { sql := .pred (.compare (.column r.dialect f.column) op p) }

/-- SQLite compares `has_task_list` with 0 or 1 and tests the other flags with IS TRUE. -/
def renderJSONBoolComparison (f : Field) (op : ComparisonOperator) (right : ValueExpr) :
    RenderM RenderResult := do
  let value ← (expectBool right : Except String Bool)
  let jsonExpr := jsonExtractExpr r.dialect f
  match r.dialect with
  | .sqlite =>
    let target := SqlTerm.number (if value then 1 else 0)
    match op with
    | .eq =>
      if f.name = "has_task_list" then return { sql := .pred (.compare jsonExpr .eq target) }
      if value then return { sql := .pred (.isTrue jsonExpr) }
      return { sql := .pred (.notIsTrue jsonExpr) }
    | .neq =>
      if f.name = "has_task_list" then return { sql := .pred (.compare jsonExpr .neq target) }
      if value then return { sql := .pred (.notIsTrue jsonExpr) }
      return { sql := .pred (.isTrue jsonExpr) }
    | op => throw ("operator " ++ sqlOperator op ++ " not supported for boolean JSON field")
  | .mysql => return { sql := .pred (.compare jsonExpr op (.castJson value)) }
  | .postgres =>
    let p ← r.addArg (.bool value)
    return { sql := .pred (.compare (.castBoolean jsonExpr) op p) }

def renderComparison (left : ValueExpr) (op : ComparisonOperator) (right : ValueExpr) :
    RenderM RenderResult := do
  match left with
  | .fieldRef name =>
    let f ← r.lookupField name
    match f.kind with
    | .boolColumn => r.renderBoolColumnComparison f op right
    | .jsonBool => r.renderJSONBoolComparison f op right
    | .scalar => r.renderScalarComparison f op right
    | _ => throw ("field " ++ f.name.quote ++ " does not support comparison")
  | .function name args => r.renderFunctionComparison name args op right
  | .literal _ => throw "comparison must start with a field reference or supported function"

def tagExactMatch (f : Field) (tag : String) : RenderM SqlPred := do
  let arrayExpr := jsonArrayExpr r.dialect f
  match r.dialect with
  | .sqlite => return .like arrayExpr (← r.addArg (.string ("%\"" ++ tag ++ "\"%")))
  | .mysql => return .jsonContains arrayExpr (← r.addArg (.string ("\"" ++ tag ++ "\"")))
  | .postgres => return .jsonbContains arrayExpr (← r.addArg (.string ("\"" ++ tag ++ "\"")))

def buildJSONArrayLike (arrayExpr : SqlTerm) (pattern : String) : RenderM SqlPred := do
  match r.dialect with
  | .postgres => return .like (.castText arrayExpr) (← r.addArg (.string pattern))
  | _ => return .like arrayExpr (← r.addArg (.string pattern))

def renderTagElement (f : Field) (v : ValueExpr) : RenderM Sql := do
  match ← (expectLiteral v : Except String Literal) with
  | .string str =>
    let exactMatch ← r.tagExactMatch f str
    let prefixMatch ← r.buildJSONArrayLike (jsonArrayExpr r.dialect f) ("%\"" ++ str ++ "/%")
    return .paren (.or (.pred exactMatch) (.pred prefixMatch))
  | _ => throw "tags must be compared with string literals"

def renderTagInList (values : List ValueExpr) : RenderM RenderResult := do
  match r.schema.resolveAlias "tag" with
  | none => throw "tag attribute is not configured"
  | some f =>
    let conditions ← values.mapM (r.renderTagElement f)
    match conditions with
    | [condition] => return { sql := condition }
    | conditions => return { sql := .paren (joinOr conditions) }

def renderScalarElement (f : Field) (v : ValueExpr) : RenderM SqlTerm := do
  let lit ← (expectLiteral v : Except String Literal)
  match f.type with
  | .string =>
    match lit with
    | .string str => r.addArg (.string str)
    | _ => throw ("field " ++ f.name.quote ++ " expects string values")
  | .int =>
    let num ← (toInt64 lit : Except String Int)
    r.addArg (.int num)
  | _ => throw ("field " ++ f.name.quote ++ " does not support IN() comparisons")

def renderScalarInCondition (f : Field) (values : List ValueExpr) : RenderM RenderResult := do
  let placeholders ← values.mapM (r.renderScalarElement f)
  return { sql := .pred (.inList (f.columnExpr r.dialect) placeholders) }

def renderInCondition (left : ValueExpr) (values : List ValueExpr) : RenderM RenderResult := do
  match left with
  | .fieldRef name =>
    if name = "tag" then r.renderTagInList values
    else
      let f ← r.lookupField name
      if f.kind ≠ .scalar then throw ("field " ++ name.quote ++ " does not support IN()")
      r.renderScalarInCondition f values
  | _ => throw "IN operator requires a field on the left-hand side"

def renderElementInCondition (element : ValueExpr) (name : String) : RenderM RenderResult := do
  let f ← r.lookupField name
  if f.kind ≠ .jsonList then throw ("field " ++ name.quote ++ " is not a tag list")
  match ← (expectLiteral element : Except String Literal) with
  | .string str => return { sql := .pred (← r.tagExactMatch f str) }
  | _ => throw "tags membership requires string literal"

/-- SQLite folds case with a custom function, since its LOWER is ASCII-only. -/
def renderContainsCondition (name value : String) : RenderM RenderResult := do
  let f ← r.lookupField name
  let column := f.columnExpr r.dialect
  let arg := Arg.string ("%" ++ value ++ "%")
  match r.dialect with
  | .sqlite =>
    return { sql := .pred (.like (.unicodeLower column) (.unicodeLower (← r.addArg arg))) }
  | .postgres => return { sql := .pred (.ilike column (← r.addArg arg)) }
  | .mysql => return { sql := .pred (.like column (← r.addArg arg)) }

def wrapWithNullCheck (arrayExpr : SqlTerm) (condition : Sql) : Sql :=
  .paren (.and condition
    (.and (.pred (.isNotNull arrayExpr)) (.pred (isNotEmptyArray r.dialect arrayExpr))))

def renderTagEquals (f : Field) (value : String) : RenderM RenderResult := do
  let arrayExpr := jsonArrayExpr r.dialect f
  match r.dialect with
  | .postgres =>
    let exactMatch ← r.tagExactMatch f value
    return { sql := r.wrapWithNullCheck arrayExpr (.pred exactMatch) }
  | _ =>
    let exactMatch ← r.buildJSONArrayLike arrayExpr ("%\"" ++ value ++ "\"%")
    return { sql := r.wrapWithNullCheck arrayExpr (.pred exactMatch) }

def renderTagStartsWith (f : Field) (start : String) : RenderM RenderResult := do
  let arrayExpr := jsonArrayExpr r.dialect f
  let exactMatch ← match r.dialect with
    | .postgres => r.tagExactMatch f start
    | _ => r.buildJSONArrayLike arrayExpr ("%\"" ++ start ++ "\"%")
  let prefixMatch ← r.buildJSONArrayLike arrayExpr ("%\"" ++ start ++ "%")
  let condition := Sql.paren (.or (.pred exactMatch) (.pred prefixMatch))
  return { sql := r.wrapWithNullCheck arrayExpr condition }

def renderTagEndsWith (f : Field) (suffix : String) : RenderM RenderResult := do
  let arrayExpr := jsonArrayExpr r.dialect f
  let likeExpr ← r.buildJSONArrayLike arrayExpr ("%" ++ suffix ++ "\"%")
  return { sql := r.wrapWithNullCheck arrayExpr (.pred likeExpr) }

def renderTagContains (f : Field) (substring : String) : RenderM RenderResult := do
  let arrayExpr := jsonArrayExpr r.dialect f
  let likeExpr ← r.buildJSONArrayLike arrayExpr ("%" ++ substring ++ "%")
  return { sql := r.wrapWithNullCheck arrayExpr (.pred likeExpr) }

def renderListComprehension (name : String) (predicate : PredicateExpr) :
    RenderM RenderResult := do
  let f ← r.lookupField name
  if f.kind ≠ .jsonList then throw ("field " ++ name.quote ++ " is not a JSON list")
  match predicate with
  | .equals value => r.renderTagEquals f value
  | .startsWith start => r.renderTagStartsWith f start
  | .endsWith suffix => r.renderTagEndsWith f suffix
  | .contains substring => r.renderTagContains f substring

def renderNot (child : RenderResult) : RenderResult :=
  if child.isTrivial then { sql := .never, unsatisfiable := true }
  else if child.unsatisfiable then { isTrivial := true }
  else { sql := .not child.sql }

def combine : LogicalOperator → RenderResult → RenderResult → RenderResult
  | .and => combineAnd
  | .or => combineOr

def renderCondition : Condition → RenderM RenderResult
  | .logical op left right => do
    let left ← renderCondition left
    let right ← renderCondition right
    return combine op left right
  | .not expr => do
    let child ← renderCondition expr
    return renderNot child
  | .fieldPredicate field => r.renderFieldPredicate field
  | .comparison left op right => r.renderComparison left op right
  | .inList left values => r.renderInCondition left values
  | .elementIn element field => r.renderElementInCondition element field
  | .contains field value => r.renderContainsCondition field value
  | .listComprehension _ field _ predicate => r.renderListComprehension field predicate
  | .constant true => return { isTrivial := true }
  | .constant false => return { sql := .never, unsatisfiable := true }

def render (cond : Condition) : Except String Statement := do
  let (result, st) ← (r.renderCondition cond).run {}
  if result.unsatisfiable then return ⟨.never, st.args⟩
  else if result.isTrivial then return ⟨.empty, st.args⟩
  else return ⟨result.sql, st.args⟩

end Renderer

section engine

def Schema.compileToStatement (schema : Schema) (timeNowUnix : Int) (opts : RenderOptions)
    (filter : Expr) : Except String Statement := do
  (newRenderer schema opts).render (← buildCondition timeNowUnix schema filter)

/-- The filter engine from the parsed expression on: `CompileToStatement` of the memo engine. -/
def compileToStatement (timeNowUnix : Int) (opts : RenderOptions) (filter : Expr) :
    Except String Statement := do
  (newRenderer newSchema opts).render (← buildCondition timeNowUnix newSchema filter)

end engine

def Condition.constantValue : Condition → Option Bool
  | .logical .and l r =>
    match l.constantValue, r.constantValue with
    | some false, _ => some false
    | _, some false => some false
    | some true, some true => some true
    | _, _ => none
  | .logical .or l r =>
    match l.constantValue, r.constantValue with
    | some true, _ => some true
    | _, some true => some true
    | some false, some false => some false
    | _, _ => none
  | .not e => e.constantValue.map (!·)
  | .constant value => some value
  | .fieldPredicate _ | .comparison .. | .inList .. | .elementIn .. | .contains ..
  | .listComprehension .. => none

structure Outcome (cond : Condition) (res : RenderResult) : Prop where
  isTrivial : res.isTrivial = (cond.constantValue == some true)
  unsatisfiable : res.unsatisfiable = (cond.constantValue == some false)

def LogicalOperator.neutral : LogicalOperator → Bool
  | .and => true
  | .or => false

def LogicalOperator.decided : LogicalOperator → RenderResult
  | .and => { sql := .never, unsatisfiable := true }
  | .or => { isTrivial := true }

def LogicalOperator.join : LogicalOperator → Sql → Sql → Sql
  | .and => .and
  | .or => .or

section combine

variable (op : LogicalOperator) {l r : Condition} {a b : RenderResult}

theorem combine_cases (hl : Outcome l a) (hr : Outcome r b) :
    ((Condition.logical op l r).constantValue = some (!op.neutral) ∧
        Renderer.combine op a b = op.decided) ∨
      (l.constantValue = some op.neutral ∧
        (Condition.logical op l r).constantValue = r.constantValue ∧
        Renderer.combine op a b = b) ∨
      (r.constantValue = some op.neutral ∧
        (Condition.logical op l r).constantValue = l.constantValue ∧
        Renderer.combine op a b = a) ∨
      l.constantValue = none ∧ r.constantValue = none ∧
        (Condition.logical op l r).constantValue = none ∧
        Renderer.combine op a b = { sql := .paren (op.join a.sql b.sql) } := by
  obtain ⟨la, lu⟩ := hl
  obtain ⟨ra, ru⟩ := hr
  rcases hlv : l.constantValue with _ | _ | _ <;> rcases hrv : r.constantValue with _ | _ | _ <;>
    cases op <;>
    simp_all [Renderer.combine, combineAnd, combineOr, Condition.constantValue,
      LogicalOperator.neutral, LogicalOperator.decided, LogicalOperator.join]

theorem combine_outcome (hl : Outcome l a) (hr : Outcome r b) :
    Outcome (.logical op l r) (Renderer.combine op a b) := by
  rcases combine_cases op hl hr with
    ⟨hc, hres⟩ | ⟨-, hc, hres⟩ | ⟨-, hc, hres⟩ | ⟨-, -, hc, hres⟩
  · rw [hres]
    constructor <;> rw [hc] <;> cases op <;> rfl
  · rw [hres]
    exact ⟨hc ▸ hr.isTrivial, hc ▸ hr.unsatisfiable⟩
  · rw [hres]
    exact ⟨hc ▸ hl.isTrivial, hc ▸ hl.unsatisfiable⟩
  · rw [hres]
    constructor <;> rw [hc] <;> rfl

end combine

theorem renderNot_outcome {cond : Condition} {res : RenderResult} (h : Outcome cond res) :
    Outcome (.not cond) (Renderer.renderNot res) := by
  obtain ⟨ht, hu⟩ := h
  rcases hv : cond.constantValue with _ | _ | _ <;> constructor <;>
    simp_all [Renderer.renderNot, Condition.constantValue]

end Memoark.Filter
