import Memoark.Filter.Render
import Memoark.Filter.Semantics

/-! What a condition means on a memo: a missing property is false, missing tags are the empty
list. Beside it, the parts whose SQL is blocked by a missing value or is malformed, and the fields
of the memo schema on a row. -/
namespace Memoark.Filter
open Memoark.Logic

def Row.tagList (row : Row) : List String := row.tags.getD []

/-- The value of a boolean field of the memo schema; the inner `none` is a missing key. -/
@[grind =] def Row.flag (row : Row) : String → Option (Option Bool)
  | "pinned" => some (some row.pinned)
  | "has_link" => some row.hasLink
  | "has_task_list" => some row.hasTaskList
  | "has_code" => some row.hasCode
  | "has_incomplete_tasks" => some row.hasIncompleteTasks
  | _ => none

def Row.flagValue (row : Row) (name : String) : Bool := ((row.flag name).getD none).getD false

def Row.scalar (row : Row) : String → Value
  | "content" => .text row.content
  | "creator" => ofOption (fun name => .text ("users/" ++ name)) row.creatorUsername
  | "creator_id" => .int row.creatorId
  | "created_ts" => .int row.createdTs
  | "updated_ts" => .int row.updatedTs
  | "visibility" => .text row.visibility
  | _ => .null

def ValueExpr.literalValue : ValueExpr → Literal
  | .literal value => value
  | _ => .null

@[grind =] def ValueExpr.tag : ValueExpr → String
  | .literal (.string value) => value
  | _ => ""

def Literal.scalarValue : Literal → Value
  | .string value => .text value
  | lit =>
    match toInt64 lit with
    | .ok value => .int value
    | .error _ => .null

def quoted (tag : String) : String := "\"" ++ tag ++ "\""

section
variable (d : DialectName) (db : Database) (row : Row)

def tagMatches (tag : String) : Bool :=
  match d with
  | .sqlite => db.jsonLike (db.jsonText row.tagList) ("%\"" ++ tag ++ "\"%")
  | _ => (db.jsonString (quoted tag)).any row.tagList.contains

def tagTextMatches (pattern : String) : Bool :=
  match d with
  | .postgres => db.like (db.jsonText row.tagList) pattern
  | _ => db.jsonLike (db.jsonText row.tagList) pattern

def tagElementHolds (tag : String) : Bool :=
  tagMatches d db row tag || tagTextMatches d db row ("%\"" ++ tag ++ "/%")

/-- The exact match of a comprehension: only PostgreSQL compares JSON elements. -/
def exactTagHolds (tag : String) : Bool :=
  match d with
  | .postgres => tagMatches d db row tag
  | _ => tagTextMatches d db row ("%\"" ++ tag ++ "\"%")

def PredicateExpr.holds : PredicateExpr → Bool
  | .equals value => exactTagHolds d db row value
  | .startsWith start =>
    exactTagHolds d db row start || tagTextMatches d db row ("%\"" ++ start ++ "%")
  | .endsWith suffix => tagTextMatches d db row ("%" ++ suffix ++ "\"%")
  | .contains substring => tagTextMatches d db row ("%" ++ substring ++ "%")

def scalarHolds (op : ComparisonOperator) (v : Value) : Literal → Bool
  | .null =>
    match op with
    | .eq => v == .null
    | .neq => v != .null
    | _ => false
  | lit => db.compare op v lit.scalarValue == some .true

def comparisonHolds (left : ValueExpr) (op : ComparisonOperator) (right : ValueExpr) : Bool :=
  match left, right.literalValue with
  | .fieldRef name, .bool value => compareBool op (row.flagValue name) value
  | .fieldRef name, lit => scalarHolds db op (row.scalar name) lit
  | .function .., lit =>
    match toInt64 lit with
    | .ok value => compareInt op row.tagList.length value
    | .error _ => false
  | .literal _, _ => false

def inListHolds (left : ValueExpr) (values : List ValueExpr) : Bool :=
  match left with
  | .fieldRef name =>
    if name = "tag" then values.any fun v => tagElementHolds d db row v.tag
    else values.any fun v => scalarHolds db .eq (row.scalar name) v.literalValue
  | _ => false

def containsHolds (value : String) : Bool :=
  match d with
  | .sqlite => db.like (db.unicodeLower row.content) (db.unicodeLower ("%" ++ value ++ "%"))
  | .postgres => db.ilike row.content ("%" ++ value ++ "%")
  | .mysql => db.like row.content ("%" ++ value ++ "%")

def Condition.holds : Condition → Bool
  | .logical .and l r => l.holds && r.holds
  | .logical .or l r => l.holds || r.holds
  | .not e => !e.holds
  | .fieldPredicate field => row.flagValue field
  | .comparison left op right => comparisonHolds db row left op right
  | .inList left values => inListHolds d db row left values
  | .elementIn element _ => tagMatches d db row element.tag
  | .contains _ value => containsHolds d db row value
  | .listComprehension _ _ _ predicate => !row.tagList.isEmpty && predicate.holds d db row
  | .constant value => value

/-- Comparisons that the dialect does not guard against a missing key. -/
def unguarded (name : String) : Bool := d ≠ .sqlite ∨ name = "has_task_list"

def Condition.readsMissing : Condition → Bool
  | .comparison (.fieldRef name) _ right =>
    match row.flag name with
    | some value => value.isNone && unguarded d name
    | none => row.scalar name == .null && right.literalValue != .null
  | .inList (.fieldRef name) values =>
    if name = "tag" then row.tags.isNone else row.scalar name == .null && !values.isEmpty
  | .elementIn .. => row.tags.isNone
  | _ => false

/-- A missing value reaches the root: no conjunct that is false and no disjunct that is true
stands beside it. -/
def Condition.blocked : Condition → Bool
  | .logical .and l r =>
    (l.blocked && (r.blocked || r.holds d db row)) || (r.blocked && (l.blocked || l.holds d db row))
  | .logical .or l r =>
    (l.blocked && (r.blocked || !r.holds d db row)) ||
      (r.blocked && (l.blocked || !l.holds d db row))
  | .not e => e.blocked
  | leaf => leaf.readsMissing d row

def jsonFaulty (tag : String) : Bool := d != .sqlite && (db.jsonString (quoted tag)).isNone

def exactTagFaulty (tag : String) : Bool :=
  match d with
  | .postgres => jsonFaulty d db tag
  | _ => false

def PredicateExpr.faulty : PredicateExpr → Bool
  | .equals value => exactTagFaulty d db value
  | .startsWith start => exactTagFaulty d db start
  | _ => false

/-- The SQL of a part that the constants leave standing is malformed: an empty list, or a tag
that is not the inside of a JSON string. -/
def Condition.faulty : Condition → Bool
  | .logical op l r =>
    (Condition.logical op l r).constantValue.isNone && (l.faulty || r.faulty)
  | .not e => e.faulty
  | .inList (.fieldRef name) values =>
    if name = "tag" then values.isEmpty || values.any fun v => jsonFaulty d db v.tag
    else values.isEmpty && d != .sqlite
  | .elementIn element _ => jsonFaulty d db element.tag
  | .listComprehension _ _ _ predicate => predicate.faulty d db
  | _ => false

/-- What the SQL of a condition evaluates to; `none` is an error. -/
def Condition.truth (cond : Condition) : Option Truth :=
  if cond.faulty d db then none
  else some (.mask (cond.blocked d db row) (cond.holds d db row))

end

section Fields

variable {name : String} {f : Field}

def HasType : FieldType → Value → Prop
  | .string, .null => True
  | .string, .text _ => True
  | .int, .int _ => True
  | .timestamp, .int _ => True
  | _, _ => False

inductive MemoField (d : DialectName) (db : Database) (row : Row) (name : String) (f : Field) :
    Prop
  | scalar (hk : f.kind = .scalar) (ht : HasType f.type (row.scalar name)) (hn : name ≠ "tag")
      (hflag : row.flag name = none)
      (heval : (f.columnExpr d).eval db row = some (row.scalar name))
  | boolColumn (hk : f.kind = .boolColumn) (hflag : row.flag name = some (some row.pinned))
      (heval : (SqlTerm.column d f.column).eval db row = some ((Arg.bool row.pinned).value d))
  | jsonBool (hk : f.kind = .jsonBool) (hn : f.name = name) (value : Option Bool)
      (hflag : row.flag name = some value)
      (heval : row.payload f.column f.jsonPath = some (ofOption .jsonBool value))
  | jsonList (hk : f.kind = .jsonList)
      (heval : row.payload f.column f.jsonPath = some (ofOption .jsonArray row.tags))
  | virtualAlias (hk : f.kind = .virtualAlias)

theorem memoField (h : newSchema.field name = some f) (d : DialectName) (db : Database)
    (row : Row) : MemoField d db row name f := by
  have hm := Schema.mem_of_field h
  simp only [newSchema, payloadProperty, List.mem_cons, Prod.mk.injEq, List.not_mem_nil,
    or_false] at hm
  rcases hm with ⟨rfl, rfl⟩ | ⟨rfl, rfl⟩ | ⟨rfl, rfl⟩ | ⟨rfl, rfl⟩ | ⟨rfl, rfl⟩ | ⟨rfl, rfl⟩ |
    ⟨rfl, rfl⟩ | ⟨rfl, rfl⟩ | ⟨rfl, rfl⟩ | ⟨rfl, rfl⟩ | ⟨rfl, rfl⟩ | ⟨rfl, rfl⟩ | ⟨rfl, rfl⟩
  · exact .scalar rfl trivial (by decide) rfl rfl
  · refine .scalar rfl ?_ (by decide) rfl ?_
    · unfold Row.scalar
      cases row.creatorUsername <;> trivial
    · obtain ⟨_, creatorUsername, _⟩ := row
      cases creatorUsername <;> cases d <;> rfl
  · exact .scalar rfl trivial (by decide) rfl rfl
  · exact .scalar rfl trivial (by decide) rfl (by cases d <;> rfl)
  · exact .scalar rfl trivial (by decide) rfl (by cases d <;> rfl)
  · exact .boolColumn rfl rfl (by cases d <;> rfl)
  · exact .scalar rfl trivial (by decide) rfl rfl
  · exact .jsonList rfl rfl
  · exact .virtualAlias rfl
  · exact .jsonBool rfl rfl _ rfl rfl
  · exact .jsonBool rfl rfl _ rfl rfl
  · exact .jsonBool rfl rfl _ rfl rfl
  · exact .jsonBool rfl rfl _ rfl rfl

theorem columnExpr_content (h : newSchema.field name = some f) (hc : f.supportsContains = true)
    (d : DialectName) (db : Database) (row : Row) :
    (f.columnExpr d).eval db row = some (.text row.content) := by
  have hmem : (name, f) ∈ newSchema.fields.filter (·.2.supportsContains) :=
    List.mem_filter.mpr ⟨Schema.mem_of_field h, hc⟩
  obtain ⟨-, rfl⟩ := Prod.mk.inj (List.mem_singleton.mp hmem)
  rfl

end Fields

@[simp] theorem text_beq_null (s : String) : (Value.text s == .null) = false := rfl

@[simp] theorem int_beq_null (n : Int) : (Value.int n == .null) = false := rfl

def Literal.Fits (lit : Literal) : FieldType → Prop
  | .string => ∃ s, lit = .string s
  | .int | .timestamp => ∃ n, toInt64 lit = .ok n
  | .bool => False

theorem scalar_of_toInt64 {db : Database} {op : ComparisonOperator} {v : Value} {lit : Literal}
    {n : Int} (h : toInt64 lit = .ok n) : lit ≠ .null ∧ lit.scalarValue = .int n ∧
      scalarHolds db op v lit = (db.compare op v (.int n) == some .true) := by
  cases lit with
  | int64 value | float64 value =>
    obtain rfl := Except.ok.inj h
    exact ⟨Literal.noConfusion, rfl, rfl⟩
  | string | bool | null => cases h

theorem compare_scalar (db : Database) {t : FieldType} {v : Value} {lit : Literal} (op : ComparisonOperator)
    (hv : HasType t v) (hlit : lit.Fits t) :
    lit ≠ .null ∧
      db.compare op v lit.scalarValue = some (.mask (v == .null) (scalarHolds db op v lit)) := by
  have hmask : ∀ b : Bool, some (Truth.ofBool b) =
      some (.mask false (some (Truth.ofBool b) == some .true)) := by
    intro b
    cases b <;> rfl
  cases t with
  | string =>
    obtain ⟨s, rfl⟩ := hlit
    refine ⟨Literal.noConfusion, ?_⟩
    cases v with
    | null => rfl
    | text a => exact hmask (db.compareText op a s)
    | int | bool | jsonBool | jsonArray => exact hv.elim
  | int | timestamp =>
    obtain ⟨n, hn⟩ := hlit
    obtain ⟨hne, hval, hholds⟩ := scalar_of_toInt64 hn
    refine ⟨hne, ?_⟩
    rw [hval, hholds]
    cases v with
    | null | text | bool | jsonBool | jsonArray => exact hv.elim
    | int a => exact hmask (compareInt op a n)
  | bool => exact hlit.elim

theorem comparisonHolds_scalar {db : Database} {row : Row} {t : FieldType} {lit : Literal}
    (name : String) (op : ComparisonOperator) (hlit : lit.Fits t) :
    comparisonHolds db row (.fieldRef name) op (.literal lit) =
      scalarHolds db op (row.scalar name) lit := by
  cases lit with
  | bool b => cases t <;> simp_all [Literal.Fits, toInt64]
  | _ => rfl

end Memoark.Filter
