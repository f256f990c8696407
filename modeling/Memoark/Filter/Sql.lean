import Memoark.Filter.Schema

/-! The SQL fragments that the renderer writes, kept as trees, and their text. A placeholder
carries its number and the value that was bound for it. -/
namespace Memoark.Filter

/-- A bound value: the Go types that the renderer passes to `addArg`. -/
inductive Arg where
  | string (value : String)
  | int (value : Int)
  | bool (value : Bool)
  deriving DecidableEq, Repr

inductive SqlTerm where
  | column (d : DialectName) (c : Column)
  | format (e : Expression) (t : SqlTerm)
  | jsonExtract (d : DialectName) (c : Column) (path : List String)
  | jsonAccess (c : Column) (path : List String) (terminalText : Bool)
  | castBoolean (t : SqlTerm)
  | castText (t : SqlTerm)
  | coalesceFalse (t : SqlTerm)
  | castJson (value : Bool)
  | arrayLength (d : DialectName) (t : SqlTerm)
  | elementCount (d : DialectName) (t : SqlTerm)
  | unicodeLower (t : SqlTerm)
  | number (n : Nat)
  | emptyArray
  | placeholder (d : DialectName) (index : Nat) (value : Arg)

inductive SqlPred where
  | isTrue (t : SqlTerm)
  | notIsTrue (t : SqlTerm)
  | isNull (t : SqlTerm)
  | isNotNull (t : SqlTerm)
  | compare (t : SqlTerm) (op : ComparisonOperator) (u : SqlTerm)
  | like (t u : SqlTerm)
  | ilike (t u : SqlTerm)
  | jsonContains (t u : SqlTerm)
  | jsonbContains (t u : SqlTerm)
  | inList (t : SqlTerm) (us : List SqlTerm)

/-- Boolean SQL text. `empty` is the empty string. -/
inductive Sql where
  | empty
  | pred (p : SqlPred)
  | paren (s : Sql)
  | and (s t : Sql)
  | or (s t : Sql)
  | not (s : Sql)

theorem Sql.pred_ne_empty (p : SqlPred) : Sql.pred p ≠ .empty := nofun

theorem Sql.paren_ne_empty (s : Sql) : Sql.paren s ≠ .empty := nofun

theorem Sql.not_ne_empty (s : Sql) : Sql.not s ≠ .empty := nofun

def sqlOperator (op : ComparisonOperator) : String := op.text

def jsonPath (path : List String) : String := "$." ++ ".".intercalate path

def buildPostgresJSONAccessor (base : String) : List String → Bool → String
  | [], _ => base
  | [part], true => base ++ "->>'" ++ part ++ "'"
  | part :: path, terminalText =>
    buildPostgresJSONAccessor (base ++ "->'" ++ part ++ "'") path terminalText

def placeholderText (d : DialectName) (index : Nat) : String :=
  match d with
  | .postgres => "$" ++ toString index
  | _ => "?"

def boolText (b : Bool) : String := if b then "true" else "false"

def jsonExtractText (column : String) (path : List String) : String :=
  "JSON_EXTRACT(" ++ column ++ ", '" ++ jsonPath path ++ "')"

def jsonContainsText (array value : String) : String :=
  "JSON_CONTAINS(" ++ array ++ ", " ++ value ++ ")"

def castJsonText (b : Bool) : String := "CAST('" ++ boolText b ++ "' AS JSON)"

def coalesceFalseText (base : String) : String := "COALESCE(" ++ base ++ ", CAST('false' AS JSON))"

def arrayLengthText (d : DialectName) (base : String) : String :=
  match d with
  | .sqlite => "JSON_ARRAY_LENGTH(COALESCE(" ++ base ++ ", JSON_ARRAY()))"
  | .mysql => "JSON_LENGTH(COALESCE(" ++ base ++ ", JSON_ARRAY()))"
  | .postgres => "jsonb_array_length(COALESCE(" ++ base ++ ", '[]'::jsonb))"

def elementCountText (d : DialectName) (base : String) : String :=
  match d with
  | .postgres => "jsonb_array_length(" ++ base ++ ")"
  | _ => "JSON_LENGTH(" ++ base ++ ")"

def unicodeLowerText (base : String) : String := "memos_unicode_lower(" ++ base ++ ")"

def jsonbBuildArrayText (element : String) : String :=
  "jsonb_build_array(" ++ element ++ "::json)"

def SqlTerm.text : SqlTerm → String
  | .column d c => qualifyColumn d c
  | .format e t => e.format t.text
  | .jsonExtract d c path => jsonExtractText (qualifyColumn d c) path
  | .jsonAccess c path terminalText =>
    buildPostgresJSONAccessor (qualifyColumn .postgres c) path terminalText
  | .castBoolean t => "(" ++ t.text ++ ")::boolean"
  | .castText t => "(" ++ t.text ++ ")::text"
  | .coalesceFalse t => coalesceFalseText t.text
  | .castJson b => castJsonText b
  | .arrayLength d t => arrayLengthText d t.text
  | .elementCount d t => elementCountText d t.text
  | .unicodeLower t => unicodeLowerText t.text
  | .number n => toString n
  | .emptyArray => "'[]'"
  | .placeholder d index _ => placeholderText d index

def SqlPred.text : SqlPred → String
  | .isTrue t => t.text ++ " IS TRUE"
  | .notIsTrue t => "NOT(" ++ t.text ++ " IS TRUE)"
  | .isNull t => t.text ++ " IS NULL"
  | .isNotNull t => t.text ++ " IS NOT NULL"
  | .compare t op u => t.text ++ " " ++ sqlOperator op ++ " " ++ u.text
  | .like t u => t.text ++ " LIKE " ++ u.text
  | .ilike t u => t.text ++ " ILIKE " ++ u.text
  | .jsonContains t u => jsonContainsText t.text u.text
  | .jsonbContains t u => t.text ++ " @> " ++ jsonbBuildArrayText u.text
  | .inList t us => t.text ++ " IN (" ++ ",".intercalate (us.map SqlTerm.text) ++ ")"

def Sql.text : Sql → String
  | .empty => ""
  | .pred p => p.text
  | .paren s => "(" ++ s.text ++ ")"
  | .and s t => s.text ++ " AND " ++ t.text
  | .or s t => s.text ++ " OR " ++ t.text
  | .not s => "NOT (" ++ s.text ++ ")"

def Sql.never : Sql := .pred (.compare (.number 1) .eq (.number 0))

def joinOr : List Sql → Sql
  | [] => .empty
  | [s] => s
  | s :: t :: rest => .or s (joinOr (t :: rest))

@[grind =] def SqlTerm.placeholders : SqlTerm → List (Nat × Arg)
  | .placeholder _ index value => [(index, value)]
  | .format _ t => t.placeholders
  | .castBoolean t => t.placeholders
  | .castText t => t.placeholders
  | .coalesceFalse t => t.placeholders
  | .arrayLength _ t => t.placeholders
  | .elementCount _ t => t.placeholders
  | .unicodeLower t => t.placeholders
  | .column .. => []
  | .jsonExtract .. => []
  | .jsonAccess .. => []
  | .castJson _ => []
  | .number _ => []
  | .emptyArray => []

@[grind =] def SqlPred.placeholders : SqlPred → List (Nat × Arg)
  | .isTrue t => t.placeholders
  | .notIsTrue t => t.placeholders
  | .isNull t => t.placeholders
  | .isNotNull t => t.placeholders
  | .compare t _ u => t.placeholders ++ u.placeholders
  | .like t u => t.placeholders ++ u.placeholders
  | .ilike t u => t.placeholders ++ u.placeholders
  | .jsonContains t u => t.placeholders ++ u.placeholders
  | .jsonbContains t u => t.placeholders ++ u.placeholders
  | .inList t us => t.placeholders ++ us.flatMap SqlTerm.placeholders

@[grind =] def Sql.placeholders : Sql → List (Nat × Arg)
  | .empty => []
  | .pred p => p.placeholders
  | .paren s => s.placeholders
  | .and s t => s.placeholders ++ t.placeholders
  | .or s t => s.placeholders ++ t.placeholders
  | .not s => s.placeholders

end Memoark.Filter
