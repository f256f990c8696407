import Memoark.Filter.Negation
import Memoark.Go.Strings
import Memoark.Js.Json
import Memoark.Json.Scan
import Memoark.Logic.Like

/-! The databases of the three dialects: their LIKE, the text of a JSON array, and the JSON that
they parse. -/
namespace Memoark.Filter

section json

open Json (Piece isHighSurrogate isLowSurrogate)

def paired : List Piece → Bool
  | [] => true
  | .char _ :: pieces => paired pieces
  | .unit u :: .unit v :: pieces =>
    if isHighSurrogate u && isLowSurrogate v then paired pieces
    else !(isHighSurrogate u || isLowSurrogate u) && paired (.unit v :: pieces)
  | .unit u :: pieces => !(isHighSurrogate u || isLowSurrogate u) && paired pieces

def jsonString (text : String) : Option String :=
  match text.toList with
  | '"' :: cs =>
    match Json.scanPieces cs with
    | some (pieces, rest) =>
      if paired pieces && rest.all Json.isSpace then some (String.ofList (Json.joinPieces pieces))
      else none
    | none => none
  | _ => none

/-- The text of a JSON array of strings, whose escapes are those of `JSON.stringify`. -/
def arrayText (separator : String) (tags : List String) : String :=
  "[" ++ separator.intercalate (tags.map Js.stringify) ++ "]"

def compactText (tags : List String) : String := arrayText "," tags

/-- MySQL and PostgreSQL write a space after each comma. -/
def spacedText (tags : List String) : String := arrayText ", " tags

theorem arrayText_eq_empty (separator : String) (tags : List String) :
    arrayText separator tags = "[]" ↔ tags = [] := by
  constructor
  · intro h
    cases tags with
    | nil => rfl
    | cons tag tags =>
      have hlist := congrArg String.toList h
      cases tags <;> simp [arrayText, Js.stringify] at hlist
  · rintro rfl
    rfl

end json

section like

def asciiSame (a b : Char) : Bool := a.toLower = b.toLower

theorem asciiSame_iff (a b : Char) : asciiSame a b = true ↔ a.toLower = b.toLower := by
  simp [asciiSame]

def asciiLike (text pattern : String) : Bool := Logic.Like.like none asciiSame text pattern

def exactLike (text pattern : String) : Bool := Logic.Like.like (some '\\') (· = ·) text pattern

end like

def ComparisonOperator.accepts (op : ComparisonOperator) (o : Ordering) : Bool :=
  match op with
  | .eq => o = .eq
  | .neq => o ≠ .eq
  | .lt => o = .lt
  | .lte => o ≠ .gt
  | .gt => o = .gt
  | .gte => o ≠ .lt

/-- What an installation chooses: the collation of the MySQL columns, the locale of PostgreSQL,
and the case folding of `memos_unicode_lower`. -/
structure Collations where
  unicodeFold : String → String
  mysqlCompare : String → String → Ordering
  mysql_refl : ∀ a, mysqlCompare a a = .eq
  /-- The equality of characters in LIKE on a column. -/
  mysqlSame : Char → Char → Bool
  /-- Brackets and quotes have weights. -/
  mysql_emptyArray : ∀ tags, mysqlCompare (spacedText tags) "[]" = .eq ↔ tags = []
  postgresCompare : String → String → Ordering
  /-- The collation is deterministic. -/
  postgres_eq : ∀ a b, postgresCompare a b = .eq ↔ a = b
  postgresLower : String → String

variable (C : Collations)

theorem compareStrings_neq (a b : String) : compareStrings .neq a b = !decide (a = b) := by
  by_cases h : a = b <;> simp [compareStrings, h]

def sqlite : Database where
  compareText := compareStrings
  like := asciiLike
  jsonLike := asciiLike
  ilike := asciiLike
  unicodeLower := C.unicodeFold
  jsonText := compactText
  jsonString := jsonString
  neq_emptyArray tags := by
    rw [compareStrings_neq]
    cases tags <;> simp [compactText, arrayText_eq_empty]

def mysql : Database where
  compareText op a b := op.accepts (C.mysqlCompare a b)
  like := Logic.Like.like (some '\\') C.mysqlSame
  jsonLike := exactLike
  ilike := Logic.Like.like (some '\\') C.mysqlSame
  unicodeLower := C.unicodeFold
  jsonText := spacedText
  jsonString := jsonString
  neq_emptyArray tags := by
    have hiff := C.mysql_emptyArray tags
    cases tags <;> simp_all [ComparisonOperator.accepts]

def postgres : Database where
  compareText op a b := op.accepts (C.postgresCompare a b)
  like := exactLike
  jsonLike := exactLike
  ilike text pattern := exactLike (C.postgresLower text) (C.postgresLower pattern)
  unicodeLower := C.postgresLower
  jsonText := spacedText
  jsonString text := (jsonString text).filter fun s => '\x00' ∉ s.toList
  neq_emptyArray tags := by
    have hiff := C.postgres_eq (spacedText tags) "[]"
    cases tags <;> simp_all [ComparisonOperator.accepts, spacedText, arrayText_eq_empty]

def Collations.database (C : Collations) : DialectName → Database
  | .sqlite => Filter.sqlite C
  | .mysql => Filter.mysql C
  | .postgres => Filter.postgres C

end Memoark.Filter
