import Memoark.Filter.Text
import Memoark.Syntax.Expression

/-! The lexemes of the rendered fragments: what the lexer reads in their text, and that terms
and predicates are well-formed operands. -/
namespace Memoark.Filter

open Syntax (Lexeme Lexes Ends Word Digits Identifier Phrase Separator separated)

/-- Names that SQL reads back as they are written. -/
def Column.Plain (c : Column) : Prop :=
  (Word c.table ∧ Word c.name) ∧ Identifier c.table

instance (c : Column) : Decidable c.Plain := inferInstanceAs (Decidable (_ ∧ _))

def PlainPath (path : List String) : Prop := ∀ part ∈ path, '\'' ∉ part.toList

instance (path : List String) : Decidable (PlainPath path) :=
  inferInstanceAs (Decidable (∀ part ∈ path, '\'' ∉ part.toList))

def Field.Plain (f : Field) : Prop := f.column.Plain ∧ PlainPath f.jsonPath

instance (f : Field) : Decidable f.Plain := inferInstanceAs (Decidable (_ ∧ _))

/-- The fields that stand for a column have plain names, and so has the field that `tag` stands
for. An alias has no column. -/
def Schema.Plain (s : Schema) : Prop :=
  (∀ p ∈ s.fields, p.2.kind ≠ .virtualAlias ∨ p.2.supportsContains = true → p.2.Plain) ∧
    (s.resolveAlias "tag").all fun f => decide f.Plain

instance (s : Schema) : Decidable s.Plain :=
  inferInstanceAs (Decidable ((∀ p ∈ s.fields, p.2.kind ≠ .virtualAlias ∨
    p.2.supportsContains = true → p.2.Plain) ∧ _))

theorem newSchema_plain : newSchema.Plain := by decide

theorem Schema.Plain.field {s : Schema} (hs : s.Plain) {name : String} {f : Field}
    (h : s.field name = some f) (hk : f.kind ≠ .virtualAlias ∨ f.supportsContains = true) :
    f.Plain := hs.1 _ (Schema.mem_of_field h) hk

theorem Schema.Plain.tag {s : Schema} (hs : s.Plain) {f : Field}
    (h : s.resolveAlias "tag" = some f) : f.Plain := by
  have hall := hs.2
  rw [h] at hall
  exact of_decide_eq_true hall

def SqlTerm.Plain : SqlTerm → Prop
  | .column _ c => c.Plain
  | .jsonExtract _ c path | .jsonAccess c path _ => c.Plain ∧ PlainPath path
  | .format _ t | .castBoolean t | .castText t | .coalesceFalse t | .arrayLength _ t
  | .elementCount _ t | .unicodeLower t => t.Plain
  | .castJson _ | .number _ | .emptyArray | .placeholder .. => True

theorem Field.Plain.columnExpr {f : Field} (h : f.Plain) (d : DialectName) :
    (f.columnExpr d).Plain := by
  unfold Field.columnExpr
  cases f.expressions d <;> exact h.1

theorem Field.Plain.jsonExtractExpr {f : Field} (h : f.Plain) (d : DialectName) :
    (jsonExtractExpr d f).Plain := by
  cases d <;> exact h

theorem Field.Plain.jsonArrayExpr {f : Field} (h : f.Plain) (d : DialectName) :
    (jsonArrayExpr d f).Plain := by
  cases d <;> exact h

def SqlPred.Plain : SqlPred → Prop
  | .isTrue t | .notIsTrue t | .isNull t | .isNotNull t => t.Plain
  | .compare t _ u | .like t u | .ilike t u | .jsonContains t u | .jsonbContains t u =>
    t.Plain ∧ u.Plain
  | .inList t us => t.Plain ∧ ∀ u ∈ us, u.Plain

def Sql.Plain : Sql → Prop
  | .empty => True
  | .pred p => p.Plain
  | .paren s | .not s => s.Plain
  | .and s t | .or s t => s.Plain ∧ t.Plain

def callLexemes (function : String) (arguments : List (List Lexeme)) : List Lexeme :=
  .word function :: .lparen :: (separated arguments ++ [Lexeme.rparen])

def columnLexemes (d : DialectName) (c : Column) : List Lexeme :=
  match d with
  | .postgres => [.word c.table, .dot, .word c.name]
  | _ => [.name, .dot, .name]

def accessorLexemes : List String → Bool → List Lexeme
  | [], _ => []
  | [_], true => [.operator "->>", .string]
  | _ :: path, terminalText => [.operator "->", .string] ++ accessorLexemes path terminalText

def castJsonLexemes : List Lexeme := callLexemes "CAST" [[.string, .word "AS", .word "JSON"]]

def castLexemes (ls : List Lexeme) (type : String) : List Lexeme :=
  .lparen :: (ls ++ [Lexeme.rparen]) ++ [Lexeme.operator "::", .word type]

def SqlTerm.lexemes : SqlTerm → List Lexeme
  | .column d c => columnLexemes d c
  | .format .self t => t.lexemes
  | .format .pipeUsers t => .lparen :: (([.string] ++ .operator "||" :: t.lexemes) ++ [.rparen])
  | .format .concatUsers t => callLexemes "CONCAT" [[.string], t.lexemes]
  | .format .unixTimestamp t => callLexemes "UNIX_TIMESTAMP" [t.lexemes]
  | .jsonExtract d c _ => callLexemes "JSON_EXTRACT" [columnLexemes d c, [.string]]
  | .jsonAccess c path terminalText =>
    columnLexemes .postgres c ++ accessorLexemes path terminalText
  | .castBoolean t => castLexemes t.lexemes "boolean"
  | .castText t => castLexemes t.lexemes "text"
  | .coalesceFalse t => callLexemes "COALESCE" [t.lexemes, castJsonLexemes]
  | .castJson _ => castJsonLexemes
  | .arrayLength .sqlite t =>
    callLexemes "JSON_ARRAY_LENGTH" [callLexemes "COALESCE" [t.lexemes, callLexemes "JSON_ARRAY" []]]
  | .arrayLength .mysql t =>
    callLexemes "JSON_LENGTH" [callLexemes "COALESCE" [t.lexemes, callLexemes "JSON_ARRAY" []]]
  | .arrayLength .postgres t =>
    callLexemes "jsonb_array_length"
      [callLexemes "COALESCE" [t.lexemes, [.string] ++ [.operator "::", .word "jsonb"]]]
  | .elementCount .postgres t => callLexemes "jsonb_array_length" [t.lexemes]
  | .elementCount _ t => callLexemes "JSON_LENGTH" [t.lexemes]
  | .unicodeLower t => callLexemes "memos_unicode_lower" [t.lexemes]
  | .number _ => [.number]
  | .emptyArray => [.string]
  | .placeholder .. => [.placeholder]

def SqlPred.lexemes : SqlPred → List Lexeme
  | .isTrue t => t.lexemes ++ [.word "IS", .word "TRUE"]
  | .notIsTrue t =>
    .word "NOT" :: .lparen :: (t.lexemes ++ [.word "IS", .word "TRUE"] ++ [.rparen])
  | .isNull t => t.lexemes ++ [.word "IS", .word "NULL"]
  | .isNotNull t => t.lexemes ++ [.word "IS", .word "NOT", .word "NULL"]
  | .compare t op u => t.lexemes ++ .operator op.text :: u.lexemes
  | .like t u => t.lexemes ++ .word "LIKE" :: u.lexemes
  | .ilike t u => t.lexemes ++ .word "ILIKE" :: u.lexemes
  | .jsonContains t u => callLexemes "JSON_CONTAINS" [t.lexemes, u.lexemes]
  | .jsonbContains t u => t.lexemes ++ .operator "@>" ::
      callLexemes "jsonb_build_array" [u.lexemes ++ [.operator "::", .word "json"]]
  | .inList t us =>
    t.lexemes ++ .word "IN" :: .lparen :: (separated (us.map SqlTerm.lexemes) ++ [.rparen])

def Sql.lexemes : Sql → List Lexeme
  | .empty => []
  | .pred p => p.lexemes
  | .paren s => .lparen :: (s.lexemes ++ [.rparen])
  | .and s t => s.lexemes ++ .word "AND" :: t.lexemes
  | .or s t => s.lexemes ++ .word "OR" :: t.lexemes
  | .not s => .word "NOT" :: .lparen :: (s.lexemes ++ [.rparen])

theorem digits_toString (n : Nat) : Digits (toString n) :=
  ⟨Nat.repr_ne_empty, fun _ hc => isDigit_of_mem_toString hc⟩

theorem lexes_column {c : Column} (h : c.Plain) (d : DialectName) :
    Lexes (qualifyColumn d c) (columnLexemes d c) := by
  obtain ⟨⟨htable, hname⟩, -⟩ := h
  have hdot : Separator "." [.dot] := by decide
  have hquoted : Ends ("`" ++ c.table ++ "`" ++ "." ++ ("`" ++ c.name ++ "`")) [.name, .dot, .name] :=
    ((Ends.name htable.no_quote.1).append hdot.1).append (.name hname.no_quote.1)
  have htext : "`" ++ c.table ++ "`.`" ++ c.name ++ "`" =
      "`" ++ c.table ++ "`" ++ "." ++ ("`" ++ c.name ++ "`") :=
    String.toList_inj.mp (by simp)
  cases d with
  | postgres => exact (Lexes.word htable).join hdot (.word hname)
  | sqlite | mysql =>
    change Lexes ("`" ++ c.table ++ "`.`" ++ c.name ++ "`") _
    rw [htext]
    exact hquoted.lexes

theorem no_quote_jsonPath {path : List String} (h : PlainPath path) :
    '\'' ∉ (jsonPath path).toList := by
  have hparts : '\'' ∉ (".".intercalate path).toList := by
    intro hmem
    rcases mem_intercalate hmem with hsep | ⟨part, hpart, hchar⟩
    · exact absurd hsep (by decide)
    · exact h part hpart hchar
  rw [jsonPath, String.toList_append, List.mem_append, not_or]
  exact ⟨by decide, hparts⟩

theorem lexes_jsonExtract {c : Column} {path : List String} (hc : c.Plain) (hp : PlainPath path)
    (d : DialectName) :
    Lexes (jsonExtractText (qualifyColumn d c) path)
      (callLexemes "JSON_EXTRACT" [columnLexemes d c, [.string]]) := by
  have hopen : Ends "JSON_EXTRACT(" [.word "JSON_EXTRACT", .lparen] := by decide
  have hcomma : Separator ", " [.comma] := by decide
  have hclose : Separator ")" [.rparen] := by decide
  have hstring := Ends.string (no_quote_jsonPath hp)
  have htext : ∀ start column path : String, start ++ column ++ ", '" ++ path ++ "')" =
      start ++ (column ++ ", " ++ ("'" ++ path ++ "'")) ++ ")" :=
    fun _ _ _ => String.toList_inj.mp (by simp)
  have hargs := ((lexes_column hc d).before hcomma).append hstring
  have hcall := (Ends.wrap hopen hargs.lexes hclose).lexes
  exact .congr (htext _ _ _).symm (by simp [callLexemes, separated]) hcall

theorem lexes_jsonAccess {path : List String} (hp : PlainPath path) (terminalText : Bool)
    {base : String} {ls : List Lexeme} (hbase : Lexes base ls) :
    Lexes (buildPostgresJSONAccessor base path terminalText)
      (ls ++ accessorLexemes path terminalText) := by
  have harrow : ∀ arrow ∈ ["->", "->>"], ∀ {base ls part}, Lexes base ls → '\'' ∉ part.toList →
      Lexes (base ++ (arrow ++ "'") ++ part ++ "'") (ls ++ [.operator arrow, .string]) := by
    intro arrow ha base ls part hb hpart
    have hop : Syntax.scan .start arrow.toList = some ([], .operator arrow.toList) := by
      revert ha
      revert arrow
      decide
    have hbreaks : ∀ rest, Syntax.Breaks (arrow ++ rest) := by
      intro rest c hc
      rw [String.toList_append] at hc
      rcases List.mem_cons.mp ha with rfl | ha
      · obtain rfl : '-' = c := by simpa using hc
        rfl
      · obtain rfl := List.mem_singleton.mp ha
        obtain rfl : '-' = c := by simpa using hc
        rfl
    have htext : base ++ (arrow ++ "'") ++ part ++ "'" = base ++ (arrow ++ ("'" ++ part ++ "'")) :=
      String.toList_inj.mp (by simp)
    rw [htext]
    exact hb.append (Ends.operator hop hpart).lexes (hbreaks _)
  induction path generalizing base ls with
  | nil => simpa [buildPostgresJSONAccessor, accessorLexemes] using hbase
  | cons part path ih =>
    have hpart := hp part (by simp)
    have hrest := fun p h => hp p (List.mem_cons_of_mem part h)
    cases path with
    | nil =>
      cases terminalText with
      | true => exact harrow "->>" (by simp) hbase hpart
      | false => exact harrow "->" (by simp) hbase hpart
    | cons q path =>
      have hstep := ih hrest (harrow "->" (by simp) hbase hpart)
      rw [List.append_assoc] at hstep
      exact hstep

theorem lexes_castJson (b : Bool) : Lexes (castJsonText b) castJsonLexemes := by
  have hends : ∀ b, Ends (castJsonText b) castJsonLexemes := by decide
  exact (hends b).lexes

theorem lexes_wrap {opening t closing : String} {us ls ms : List Lexeme} (hopen : Ends opening us)
    (ht : Lexes t ls) (hclose : Separator closing ms) :
    Lexes (opening ++ t ++ closing) (us ++ ls ++ ms) := (Ends.wrap hopen ht hclose).lexes

theorem lexes_format (e : Expression) {t : String} {ls : List Lexeme} (ht : Lexes t ls)
    (term : SqlTerm) (hls : term.lexemes = ls) :
    Lexes (e.format t) (SqlTerm.format e term).lexemes := by
  subst hls
  have hclose : Separator ")" [.rparen] := by decide
  cases e with
  | self => exact ht
  | pipeUsers =>
    have hopen : Ends "('users/' || " [.lparen, .string, .operator "||"] := by decide
    exact lexes_wrap hopen ht hclose
  | concatUsers =>
    have hopen : Ends "CONCAT('users/', " [.word "CONCAT", .lparen, .string, .comma] := by decide
    exact lexes_wrap hopen ht hclose
  | unixTimestamp =>
    have hopen : Ends "UNIX_TIMESTAMP(" [.word "UNIX_TIMESTAMP", .lparen] := by decide
    exact lexes_wrap hopen ht hclose

theorem lexes_cast {t : String} {ls : List Lexeme} (ht : Lexes t ls) {closing type : String}
    (hclose : Lexes closing [.rparen, .operator "::", .word type]) (hb : Syntax.Breaks closing) :
    Lexes ("(" ++ t ++ closing) (castLexemes ls type) := by
  have hopen : Ends "(" [.lparen] := by decide
  have hcast := (Lexes.after hopen ht).append hclose hb
  simpa [castLexemes] using hcast

theorem lexes_arrayLength (d : DialectName) {t : SqlTerm} (ht : Lexes t.text t.lexemes) :
    Lexes (arrayLengthText d t.text) (SqlTerm.arrayLength d t).lexemes := by
  have harray : Separator ", JSON_ARRAY()))"
      [.comma, .word "JSON_ARRAY", .lparen, .rparen, .rparen, .rparen] := by decide
  have hjsonb : Separator ", '[]'::jsonb))"
      [.comma, .string, .operator "::", .word "jsonb", .rparen, .rparen] := by decide
  have hcall (f : String) : callLexemes f [callLexemes "COALESCE" [t.lexemes, callLexemes "JSON_ARRAY" []]] =
      [Lexeme.word f, .lparen, .word "COALESCE", .lparen] ++ t.lexemes ++
        [Lexeme.comma, .word "JSON_ARRAY", .lparen, .rparen, .rparen, .rparen] := by
    simp [callLexemes, separated]
  have hcast : (SqlTerm.arrayLength .postgres t).lexemes =
      [Lexeme.word "jsonb_array_length", .lparen, .word "COALESCE", .lparen] ++ t.lexemes ++
        [Lexeme.comma, .string, .operator "::", .word "jsonb", .rparen, .rparen] := by
    simp [SqlTerm.lexemes, callLexemes, separated]
  cases d with
  | sqlite =>
    have hopen : Ends "JSON_ARRAY_LENGTH(COALESCE("
        [.word "JSON_ARRAY_LENGTH", .lparen, .word "COALESCE", .lparen] := by decide
    rw [SqlTerm.lexemes, hcall]
    exact lexes_wrap hopen ht harray
  | mysql =>
    have hopen : Ends "JSON_LENGTH(COALESCE("
        [.word "JSON_LENGTH", .lparen, .word "COALESCE", .lparen] := by decide
    rw [SqlTerm.lexemes, hcall]
    exact lexes_wrap hopen ht harray
  | postgres =>
    have hopen : Ends "jsonb_array_length(COALESCE("
        [.word "jsonb_array_length", .lparen, .word "COALESCE", .lparen] := by decide
    rw [hcast]
    exact lexes_wrap hopen ht hjsonb

theorem SqlTerm.lexes {t : SqlTerm} (h : t.Plain) : Lexes t.text t.lexemes := by
  have hclose : Separator ")" [.rparen] := by decide
  induction t with
  | column d c => exact lexes_column h d
  | format e t ih => exact lexes_format e (ih h) t rfl
  | jsonExtract d c path => exact lexes_jsonExtract h.1 h.2 d
  | jsonAccess c path terminalText =>
    exact lexes_jsonAccess h.2 terminalText (lexes_column h.1 .postgres)
  | castBoolean t ih =>
    have htype : Lexes ")::boolean" [.rparen, .operator "::", .word "boolean"] :=
      ⟨[.rparen, .operator "::"], .word "boolean".toList, [.word "boolean"], by decide, trivial, rfl, rfl⟩
    exact lexes_cast (ih h) htype (by decide)
  | castText t ih =>
    have htype : Lexes ")::text" [.rparen, .operator "::", .word "text"] :=
      ⟨[.rparen, .operator "::"], .word "text".toList, [.word "text"], by decide, trivial, rfl, rfl⟩
    exact lexes_cast (ih h) htype (by decide)
  | coalesceFalse t ih =>
    have hopen : Ends "COALESCE(" [.word "COALESCE", .lparen] := by decide
    have hcast : Separator ", CAST('false' AS JSON))"
        ([Lexeme.comma] ++ castJsonLexemes ++ [Lexeme.rparen]) := by decide
    have hcall : (SqlTerm.coalesceFalse t).lexemes = [Lexeme.word "COALESCE", .lparen] ++ t.lexemes ++
        ([Lexeme.comma] ++ castJsonLexemes ++ [Lexeme.rparen]) := by
      simp [SqlTerm.lexemes, callLexemes, separated]
    rw [hcall]
    exact lexes_wrap hopen (ih h) hcast
  | castJson b => exact lexes_castJson b
  | arrayLength d t ih => exact lexes_arrayLength d (ih h)
  | elementCount d t ih =>
    have hopen : Ends "JSON_LENGTH(" [.word "JSON_LENGTH", .lparen] := by decide
    have hopen' : Ends "jsonb_array_length(" [.word "jsonb_array_length", .lparen] := by decide
    cases d with
    | postgres => exact lexes_wrap hopen' (ih h) hclose
    | sqlite | mysql => exact lexes_wrap hopen (ih h) hclose
  | unicodeLower t ih =>
    have hopen : Ends "memos_unicode_lower(" [.word "memos_unicode_lower", .lparen] := by decide
    exact lexes_wrap hopen (ih h) hclose
  | number n => exact .number (digits_toString n)
  | emptyArray => exact Ends.lexes (by decide)
  | placeholder d index value =>
    cases d with
    | postgres => exact .dollar (digits_toString index)
    | sqlite | mysql =>
      have hmark : Ends "?" [.placeholder] := by decide
      exact hmark.lexes

theorem lexes_list {us : List SqlTerm} (h : ∀ u ∈ us, u.Plain) :
    Lexes (",".intercalate (us.map SqlTerm.text)) (separated (us.map SqlTerm.lexemes)) := by
  have hcomma : Separator "," [.comma] := by decide
  have hnone : Ends "" [] := by decide
  induction us with
  | nil => exact hnone.lexes
  | cons u us ih =>
    have hu := SqlTerm.lexes (h u (by simp))
    cases us with
    | nil => simpa [separated] using hu
    | cons v us =>
      have hrest := ih fun w hw => h w (List.mem_cons_of_mem u hw)
      have htext : u.text ++ "," ++ ",".intercalate ((v :: us).map SqlTerm.text) =
          ",".intercalate ((u :: v :: us).map SqlTerm.text) := by
        rw [List.map_cons, List.map_cons, List.map_cons, String.intercalate_cons_cons]
      exact .congr htext (by simp [separated]) (hu.join hcomma hrest)

theorem separator_operator (op : ComparisonOperator) :
    Separator (" " ++ sqlOperator op ++ " ") [.operator op.text] := by
  cases op <;> decide

theorem SqlPred.lexes {p : SqlPred} (h : p.Plain) : Lexes p.text p.lexemes := by
  have hclose : Separator ")" [.rparen] := by decide
  cases p with
  | isTrue t =>
    have htest : Lexes " IS TRUE" [.word "IS", .word "TRUE"] :=
      ⟨[.word "IS"], .word "TRUE".toList, [.word "TRUE"], by decide, trivial, rfl, rfl⟩
    exact (SqlTerm.lexes h).append htest (by decide)
  | notIsTrue t =>
    have hopen : Ends "NOT(" [.word "NOT", .lparen] := by decide
    have htest : Separator " IS TRUE)" [.word "IS", .word "TRUE", .rparen] := by decide
    have hnot := lexes_wrap hopen (SqlTerm.lexes h) htest
    exact .congr rfl (by simp [SqlPred.lexemes]) hnot
  | isNull t =>
    have htest : Lexes " IS NULL" [.word "IS", .word "NULL"] :=
      ⟨[.word "IS"], .word "NULL".toList, [.word "NULL"], by decide, trivial, rfl, rfl⟩
    exact (SqlTerm.lexes h).append htest (by decide)
  | isNotNull t =>
    have htest : Lexes " IS NOT NULL" [.word "IS", .word "NOT", .word "NULL"] :=
      ⟨[.word "IS", .word "NOT"], .word "NULL".toList, [.word "NULL"], by decide, trivial, rfl, rfl⟩
    exact (SqlTerm.lexes h).append htest (by decide)
  | compare t op u =>
    have hboth := (SqlTerm.lexes h.1).join (separator_operator op) (SqlTerm.lexes h.2)
    have htext : t.text ++ (" " ++ sqlOperator op ++ " ") ++ u.text =
        t.text ++ " " ++ sqlOperator op ++ " " ++ u.text := by
      rw [← String.append_assoc, ← String.append_assoc]
    exact .congr htext (by simp [SqlPred.lexemes]) hboth
  | like t u =>
    have hlike : Separator " LIKE " [.word "LIKE"] := by decide
    have hboth := (SqlTerm.lexes h.1).join hlike (SqlTerm.lexes h.2)
    exact .congr rfl (by simp [SqlPred.lexemes]) hboth
  | ilike t u =>
    have hlike : Separator " ILIKE " [.word "ILIKE"] := by decide
    have hboth := (SqlTerm.lexes h.1).join hlike (SqlTerm.lexes h.2)
    exact .congr rfl (by simp [SqlPred.lexemes]) hboth
  | jsonContains t u =>
    have hopen : Ends "JSON_CONTAINS(" [.word "JSON_CONTAINS", .lparen] := by decide
    have hcomma : Separator ", " [.comma] := by decide
    have hcall := ((Lexes.after hopen (SqlTerm.lexes h.1)).join hcomma (SqlTerm.lexes h.2)).before
      hclose
    exact .congr rfl (by simp [SqlPred.lexemes, callLexemes, separated]) hcall.lexes
  | jsonbContains t u =>
    have hat : Separator " @> " [.operator "@>"] := by decide
    have hopen : Ends "jsonb_build_array(" [.word "jsonb_build_array", .lparen] := by decide
    have hjson : Separator "::json)" [.operator "::", .word "json", .rparen] := by decide
    have hcall := lexes_wrap hopen (SqlTerm.lexes h.2) hjson
    have hboth := (SqlTerm.lexes h.1).join hat hcall
    exact .congr rfl (by simp [SqlPred.lexemes, callLexemes, separated]) hboth
  | inList t us =>
    have hin : Separator " IN (" [.word "IN", .lparen] := by decide
    have hlist := ((SqlTerm.lexes h.1).join hin (lexes_list h.2)).before hclose
    exact .congr rfl (by simp [SqlPred.lexemes]) hlist.lexes

theorem Sql.lexes {s : Sql} (h : s.Plain) : Lexes s.text s.lexemes := by
  have hopen : Ends "(" [.lparen] := by decide
  have hclose : Separator ")" [.rparen] := by decide
  induction s with
  | empty =>
    have hnone : Ends "" [] := by decide
    exact hnone.lexes
  | pred p => exact SqlPred.lexes h
  | paren s ih => exact lexes_wrap hopen (ih h) hclose
  | not s ih =>
    have hnot : Ends "NOT (" [.word "NOT", .lparen] := by decide
    exact lexes_wrap hnot (ih h) hclose
  | and s t hs ht =>
    have hand : Separator " AND " [.word "AND"] := by decide
    have hboth := (hs h.1).join hand (ht h.2)
    exact .congr rfl (by simp [Sql.lexemes]) hboth
  | or s t hs ht =>
    have hor : Separator " OR " [.word "OR"] := by decide
    have hboth := (hs h.1).join hor (ht h.2)
    exact .congr rfl (by simp [Sql.lexemes]) hboth

end Memoark.Filter
