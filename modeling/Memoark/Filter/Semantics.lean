import Memoark.Filter.Render
import Memoark.Logic.Kleene

/-! Three-valued evaluation of the rendered SQL on a memo row. A database gives its string
comparison, its LIKE and its JSON text; malformed SQL or JSON is an error, which has no value. -/
namespace Memoark.Filter
open Memoark.Logic

def LogicalOperator.apply : LogicalOperator → Truth → Truth → Truth
  | .and => Truth.and
  | .or => Truth.or

/-- A memo row joined with its creator. A missing payload key is `none`. -/
structure Row where
  content : String
  creatorUsername : Option String
  creatorId : Int
  createdTs : Int
  updatedTs : Int
  pinned : Bool
  visibility : String
  tags : Option (List String)
  hasLink : Option Bool
  hasTaskList : Option Bool
  hasCode : Option Bool
  hasIncompleteTasks : Option Bool

structure Database where
  compareText : ComparisonOperator → String → String → Bool
  /-- LIKE on a text column. -/
  like : String → String → Bool
  /-- LIKE on the text of a JSON value, which has a collation of its own. -/
  jsonLike : String → String → Bool
  ilike : String → String → Bool
  unicodeLower : String → String
  /-- The text of a JSON array of strings. -/
  jsonText : List String → String
  /-- The string that a JSON text denotes, if it is the text of a JSON string. -/
  jsonString : String → Option String
  /-- Only the empty array has the text `[]`. -/
  neq_emptyArray : ∀ tags, compareText .neq (jsonText tags) "[]" = !tags.isEmpty

inductive Value where
  | null
  | int (n : Int)
  | text (s : String)
  | bool (b : Bool)
  | jsonBool (b : Bool)
  | jsonArray (tags : List String)
  deriving DecidableEq, Repr

def ofOption {α : Type} (f : α → Value) : Option α → Value
  | none => .null
  | some a => f a

def Row.property (row : Row) : String → Option (Option Bool)
  | "hasLink" => some row.hasLink
  | "hasTaskList" => some row.hasTaskList
  | "hasCode" => some row.hasCode
  | "hasIncompleteTasks" => some row.hasIncompleteTasks
  | _ => none

def Row.column (row : Row) (d : DialectName) (c : Column) : Option Value :=
  if c.table = "memo_creator" then
    if c.name = "username" then some (ofOption .text row.creatorUsername) else none
  else if c.table = "memo" then
    match c.name with
    | "content" => some (.text row.content)
    | "creator_id" => some (.int row.creatorId)
    | "created_ts" => some (.int row.createdTs)
    | "updated_ts" => some (.int row.updatedTs)
    | "visibility" => some (.text row.visibility)
    | "pinned" =>
      match d with
      | .postgres => some (.bool row.pinned)
      | _ => some (.int (if row.pinned then 1 else 0))
    | _ => none
  else none

def Row.payload (row : Row) (c : Column) (path : List String) : Option Value :=
  if c = ⟨"memo", "payload"⟩ then
    match path with
    | ["tags"] => some (ofOption .jsonArray row.tags)
    | ["property", key] => (row.property key).map (ofOption .jsonBool)
    | _ => none
  else none

def compareInt (op : ComparisonOperator) (a b : Int) : Bool :=
  match op with
  | .eq => a == b
  | .neq => a != b
  | .lt => a < b
  | .lte => a ≤ b
  | .gt => b < a
  | .gte => b ≤ a

def compareBool (op : ComparisonOperator) (a b : Bool) : Bool :=
  compareInt op (if a then 1 else 0) (if b then 1 else 0)

def formatValue : Expression → Value → Option Value
  | .self, v => some v
  | .pipeUsers, .null => some .null
  | .pipeUsers, .text s => some (.text ("users/" ++ s))
  | .concatUsers, .null => some .null
  | .concatUsers, .text s => some (.text ("users/" ++ s))
  | .unixTimestamp, .int n => some (.int n)
  | _, _ => none

def extracted (d : DialectName) : Value → Value
  | .jsonBool b =>
    match d with
    | .sqlite => .int (if b then 1 else 0)
    | _ => .jsonBool b
  | v => v

/-- The value that the driver sends for a bound argument; MySQL has no boolean type. -/
def Arg.value (d : DialectName) : Arg → Value
  | .string s => .text s
  | .int n => .int n
  | .bool b =>
    match d with
    | .postgres => .bool b
    | _ => .int (if b then 1 else 0)

namespace Database

variable (db : Database)

def asText : Value → Option String
  | .text s => some s
  | .jsonArray tags => some (db.jsonText tags)
  | _ => none

def terminalText : Value → Value
  | .jsonBool b => .text (boolText b)
  | .jsonArray tags => .text (db.jsonText tags)
  | v => v

def castBoolean : Value → Option Value
  | .null => some .null
  | .text "true" => some (.bool true)
  | .text "false" => some (.bool false)
  | _ => none

def castText : Value → Option Value
  | .null => some .null
  | .jsonArray tags => some (.text (db.jsonText tags))
  | _ => none

def lowered : Value → Option Value
  | .null => some .null
  | .text s => some (.text (db.unicodeLower s))
  | _ => none

def arrayLength : Value → Option Value
  | .null => some .null
  | .jsonArray tags => some (.int tags.length)
  | _ => none

def compare (op : ComparisonOperator) : Value → Value → Option Truth
  | .null, _ => some .unknown
  | _, .null => some .unknown
  | .int a, .int b => some (.ofBool (compareInt op a b))
  | .bool a, .bool b => some (.ofBool (compareBool op a b))
  | .jsonBool a, .jsonBool b => some (.ofBool (compareBool op a b))
  | v, w => do
    let s ← db.asText v
    let t ← db.asText w
    return .ofBool (db.compareText op s t)

def likeOf : Value → String → String → Bool
  | .jsonArray _ => db.jsonLike
  | _ => db.like

@[simp] theorem likeOf_text (s : String) : db.likeOf (.text s) = db.like := rfl

@[simp] theorem likeOf_jsonArray (tags : List String) : db.likeOf (.jsonArray tags) = db.jsonLike :=
  rfl

def patternMatch (rel : String → String → Bool) : Value → Value → Option Truth
  | .null, _ => some .unknown
  | _, .null => some .unknown
  | v, w => do
    let s ← db.asText v
    let t ← db.asText w
    return .ofBool (rel s t)

def arrayContains : Value → Value → Option Truth
  | v, .text json => do
    let element ← db.jsonString json
    match v with
    | .null => return .unknown
    | .jsonArray tags => return .ofBool (tags.contains element)
    | _ => none
  | _, _ => none

def isTrue : Value → Option Bool
  | .null => some false
  | .int n => some (n != 0)
  | .bool b => some b
  | _ => none

end Database

def SqlTerm.eval (db : Database) (row : Row) : SqlTerm → Option Value
  | .column d c => row.column d c
  | .format e t => (t.eval db row).bind (formatValue e)
  | .jsonExtract d c path => (row.payload c path).map (extracted d)
  | .jsonAccess c path terminalText =>
    (row.payload c path).map fun v => if terminalText then db.terminalText v else v
  | .castBoolean t => (t.eval db row).bind Database.castBoolean
  | .castText t => (t.eval db row).bind db.castText
  | .coalesceFalse t => (t.eval db row).map fun v => if v = .null then .jsonBool false else v
  | .castJson b => some (.jsonBool b)
  | .arrayLength _ t =>
    (t.eval db row).bind fun v => Database.arrayLength (if v = .null then .jsonArray [] else v)
  | .elementCount _ t => (t.eval db row).bind Database.arrayLength
  | .unicodeLower t => (t.eval db row).bind db.lowered
  | .number n => some (.int n)
  | .emptyArray => some (.text "[]")
  | .placeholder d _ value => some (value.value d)

def evalIn (d : DialectName) (db : Database) (v : Value) : List Value → Option Truth
  | [] => if d = .sqlite then some .false else none
  | [w] => db.compare .eq v w
  | w :: ws => do
    let t ← db.compare .eq v w
    let u ← evalIn d db v ws
    return t.or u

def SqlPred.eval (d : DialectName) (db : Database) (row : Row) : SqlPred → Option Truth
  | .isTrue t => (t.eval db row).bind fun v => (Database.isTrue v).map .ofBool
  | .notIsTrue t => (t.eval db row).bind fun v => (Database.isTrue v).map fun b => .ofBool (!b)
  | .isNull t => (t.eval db row).map fun v => .ofBool (v == .null)
  | .isNotNull t => (t.eval db row).map fun v => .ofBool (v != .null)
  | .compare t op u => (t.eval db row).bind fun v => (u.eval db row).bind (db.compare op v)
  | .like t u =>
    (t.eval db row).bind fun v => (u.eval db row).bind (db.patternMatch (db.likeOf v) v)
  | .ilike t u => (t.eval db row).bind fun v => (u.eval db row).bind (db.patternMatch db.ilike v)
  | .jsonContains t u => (t.eval db row).bind fun v => (u.eval db row).bind (db.arrayContains v)
  | .jsonbContains t u => (t.eval db row).bind fun v => (u.eval db row).bind (db.arrayContains v)
  | .inList t us =>
    (t.eval db row).bind fun v => (us.mapM (SqlTerm.eval db row)).bind (evalIn d db v)

def Sql.eval (d : DialectName) (db : Database) (row : Row) : Sql → Option Truth
  | .empty => none
  | .pred p => p.eval d db row
  | .paren s => s.eval d db row
  | .and s t => (s.eval d db row).bind fun a => (t.eval d db row).map a.and
  | .or s t => (s.eval d db row).bind fun a => (t.eval d db row).map a.or
  | .not s => (s.eval d db row).map Truth.not

/-- Whether a query whose filter is the statement returns the row. An empty statement filters
nothing; a failing one returns nothing. -/
def Statement.selects (d : DialectName) (db : Database) (row : Row) (st : Statement) : Bool :=
  match st.sql with
  | .empty => true
  | s => s.eval d db row == some .true

end Memoark.Filter
