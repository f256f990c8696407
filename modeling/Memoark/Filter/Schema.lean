import Mathlib.Algebra.Group.Int.Defs

/-! The dialect-agnostic condition tree of the CEL filter engine (`ir.go`) and its schemas
(`schema.go`). The trees here are already type-checked. -/
namespace Memoark.Filter

inductive LogicalOperator where
  | and
  | or
  deriving DecidableEq, Repr

inductive ComparisonOperator where
  | eq
  | neq
  | lt
  | lte
  | gt
  | gte
  deriving DecidableEq, Repr

def ComparisonOperator.text : ComparisonOperator → String
  | .eq => "="
  | .neq => "!="
  | .lt => "<"
  | .lte => "<="
  | .gt => ">"
  | .gte => ">="

/-- A finite binary64 constant, `mantissa * 2 ^ exponent`. -/
structure Double where
  mantissa : Int
  exponent : Int
  deriving DecidableEq, Repr

/-- Go's conversion to `int64`: truncation; a value out of range is left to the platform
and becomes the least `int64`, as on amd64. -/
def Double.toInt64 (v : Double) : Int :=
  let n := if 0 ≤ v.exponent then v.mantissa * 2 ^ v.exponent.toNat
    else v.mantissa.tdiv (2 ^ (-v.exponent).toNat)
  if -2 ^ 63 ≤ n ∧ n < 2 ^ 63 then n else -2 ^ 63

/-- The dynamic types that the parser puts into a `LiteralValue`. -/
inductive Literal where
  | string (value : String)
  | int64 (value : Int)
  | float64 (value : Double)
  | bool (value : Bool)
  | null
  deriving DecidableEq, Repr

/-- Scalar expressions whose result feeds a comparison. -/
inductive ValueExpr where
  | fieldRef (name : String)
  | literal (value : Literal)
  | function (name : String) (args : List ValueExpr)

inductive ComprehensionKind where
  | exists
  deriving DecidableEq, Repr

inductive PredicateExpr where
  | startsWith (start : String)
  | endsWith (suffix : String)
  | contains (substring : String)
  | equals (value : String)
  deriving DecidableEq, Repr

inductive Condition where
  | logical (operator : LogicalOperator) (left right : Condition)
  | not (expr : Condition)
  | fieldPredicate (field : String)
  | comparison (left : ValueExpr) (operator : ComparisonOperator) (right : ValueExpr)
  | inList (left : ValueExpr) (values : List ValueExpr)
  | elementIn (element : ValueExpr) (field : String)
  | contains (field value : String)
  | listComprehension (kind : ComprehensionKind) (field iterVar : String)
      (predicate : PredicateExpr)
  | constant (value : Bool)

inductive DialectName where
  | sqlite
  | mysql
  | postgres
  deriving DecidableEq, Repr

inductive FieldType where
  | string
  | int
  | bool
  | timestamp
  deriving DecidableEq, Repr

inductive FieldKind where
  | scalar
  | boolColumn
  | jsonBool
  | jsonList
  | virtualAlias
  deriving DecidableEq, Repr

structure Column where
  table : String
  name : String
  deriving DecidableEq, Repr

/-- The column formats that occur in the `Expressions` maps. -/
inductive Expression where
  | self
  | pipeUsers
  | concatUsers
  | unixTimestamp
  deriving DecidableEq, Repr

def Expression.format : Expression → String → String
  | .self, base => base
  | .pipeUsers, base => "('users/' || " ++ base ++ ")"
  | .concatUsers, base => "CONCAT('users/', " ++ base ++ ")"
  | .unixTimestamp, base => "UNIX_TIMESTAMP(" ++ base ++ ")"

/-- Metadata of an exposed CEL identifier. A missing operator list allows every operator. -/
structure Field where
  name : String
  kind : FieldKind
  type : FieldType
  column : Column := ⟨"", ""⟩
  jsonPath : List String := []
  aliasFor : String := ""
  supportsContains : Bool := false
  expressions : DialectName → Option Expression := fun _ => none
  allowedComparisonOps : Option (List ComparisonOperator) := none

structure Schema where
  name : String
  fields : List (String × Field)

def Schema.field (s : Schema) (name : String) : Option Field := s.fields.lookup name

theorem Schema.mem_of_field {s : Schema} {name : String} {f : Field}
    (h : s.field name = some f) : (name, f) ∈ s.fields := by
  obtain ⟨before, after, heq, -⟩ := List.lookup_eq_some_iff.mp h
  simp [heq]

def Schema.resolveAlias (s : Schema) (name : String) : Option Field :=
  match s.field name with
  | none => none
  | some f =>
    match f.kind with
    | .virtualAlias => s.field f.aliasFor
    | _ => some f

def qualifyColumn (d : DialectName) (c : Column) : String :=
  match d with
  | .postgres => c.table ++ "." ++ c.name
  | _ => "`" ++ c.table ++ "`.`" ++ c.name ++ "`"

def equalityOps : Option (List ComparisonOperator) := some [.eq, .neq]

def creatorExpressions : DialectName → Option Expression
  | .sqlite => some .pipeUsers
  | .mysql => some .concatUsers
  | .postgres => some .pipeUsers

def timestampExpressions : DialectName → Option Expression
  | .sqlite => some .self
  | .mysql => some .unixTimestamp
  | .postgres => some .self

def payloadProperty (name key : String) : Field :=
  { name := name, kind := .jsonBool, type := .bool, column := ⟨"memo", "payload"⟩,
    jsonPath := ["property", key], allowedComparisonOps := equalityOps }

def newSchema : Schema where
  name := "memo"
  fields := [
    ("content",
      { name := "content", kind := .scalar, type := .string, column := ⟨"memo", "content"⟩,
        supportsContains := true }),
    ("creator",
      { name := "creator", kind := .scalar, type := .string,
        column := ⟨"memo_creator", "username"⟩, expressions := creatorExpressions,
        allowedComparisonOps := equalityOps }),
    ("creator_id",
      { name := "creator_id", kind := .scalar, type := .int, column := ⟨"memo", "creator_id"⟩,
        allowedComparisonOps := equalityOps }),
    ("created_ts",
      { name := "created_ts", kind := .scalar, type := .timestamp,
        column := ⟨"memo", "created_ts"⟩, expressions := timestampExpressions }),
    ("updated_ts",
      { name := "updated_ts", kind := .scalar, type := .timestamp,
        column := ⟨"memo", "updated_ts"⟩, expressions := timestampExpressions }),
    ("pinned",
      { name := "pinned", kind := .boolColumn, type := .bool, column := ⟨"memo", "pinned"⟩,
        allowedComparisonOps := equalityOps }),
    ("visibility",
      { name := "visibility", kind := .scalar, type := .string, column := ⟨"memo", "visibility"⟩,
        allowedComparisonOps := equalityOps }),
    ("tags",
      { name := "tags", kind := .jsonList, type := .string, column := ⟨"memo", "payload"⟩,
        jsonPath := ["tags"] }),
    ("tag", { name := "tag", kind := .virtualAlias, type := .string, aliasFor := "tags" }),
    ("has_task_list", payloadProperty "has_task_list" "hasTaskList"),
    ("has_link", payloadProperty "has_link" "hasLink"),
    ("has_code", payloadProperty "has_code" "hasCode"),
    ("has_incomplete_tasks", payloadProperty "has_incomplete_tasks" "hasIncompleteTasks")]

def newAttachmentSchema : Schema where
  name := "attachment"
  fields := [
    ("filename",
      { name := "filename", kind := .scalar, type := .string,
        column := ⟨"attachment", "filename"⟩, supportsContains := true }),
    ("mime_type",
      { name := "mime_type", kind := .scalar, type := .string,
        column := ⟨"attachment", "type"⟩ }),
    ("create_time",
      { name := "create_time", kind := .scalar, type := .timestamp,
        column := ⟨"attachment", "created_ts"⟩, expressions := timestampExpressions }),
    ("memo_id",
      { name := "memo_id", kind := .scalar, type := .int, column := ⟨"attachment", "memo_id"⟩,
        allowedComparisonOps := equalityOps })]

end Memoark.Filter
