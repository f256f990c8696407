import Memoark.Filter.Render

/-! Finding the placeholders in SQL text: `placeholdersIn` scans the text alone, and the scan
of a fragment is the list of placeholders of its tree. -/
namespace Memoark.Filter

def marker : DialectName → Char
  | .postgres => '$'
  | _ => '?'

/-- The placeholder that the marker starts, when `rest` follows it: PostgreSQL reads the
longest run of digits. -/
def placeholderAt (d : DialectName) (rest : List Char) : String :=
  match d with
  | .postgres => String.ofList ('$' :: rest.takeWhile Char.isDigit)
  | _ => "?"

def placeholdersIn (d : DialectName) : List Char → List String
  | [] => []
  | c :: rest =>
    if c = marker d then placeholderAt d rest :: placeholdersIn d rest
    else placeholdersIn d rest

/-- No digit follows: a placeholder before `rest` ends there. -/
def Stops (rest : List Char) : Prop := ∀ c ∈ rest.head?, c.isDigit = false

theorem placeholdersIn_append {d : DialectName} {text : List Char} (h : marker d ∉ text)
    (rest : List Char) : placeholdersIn d (text ++ rest) = placeholdersIn d rest := by
  induction text with
  | nil => rfl
  | cons c text ih =>
    obtain ⟨hc, ht⟩ := List.ne_and_not_mem_of_not_mem_cons h
    rw [List.cons_append, placeholdersIn, if_neg (Ne.symm hc), ih ht]

theorem length_placeholdersIn {d : DialectName} (hd : d ≠ .postgres) (text : List Char) :
    (placeholdersIn d text).length = text.count '?' := by
  have hm : marker d = '?' := by cases d <;> first | rfl | exact absurd rfl hd
  induction text with
  | nil => rfl
  | cons c text ih =>
    rw [placeholdersIn, List.count_cons, hm]
    by_cases hc : c = '?'
    · simp [hc, ih]
    · simp [hc, ih]

private theorem takeWhile_digits {digits : List Char} (h : ∀ c ∈ digits, c.isDigit)
    {rest : List Char} (hr : Stops rest) :
    (digits ++ rest).takeWhile Char.isDigit = digits := by
  induction digits with
  | nil =>
    cases rest with
    | nil => rfl
    | cons c rest => simp [hr c (by simp)]
  | cons c digits ih =>
    rw [List.cons_append, List.takeWhile_cons_of_pos (h c (by simp)),
      ih fun x hx => h x (List.mem_cons_of_mem c hx)]

theorem isDigit_of_mem_toString {n : Nat} {c : Char} (h : c ∈ (toString n).toList) :
    c.isDigit := by
  rw [Nat.toString_eq_repr, Nat.toList_repr] at h
  exact Nat.isDigit_of_mem_toDigits (by decide) (by decide) h

theorem placeholdersIn_placeholderText (d : DialectName) (index : Nat) {rest : List Char}
    (hr : Stops rest) :
    placeholdersIn d ((placeholderText d index).toList ++ rest) =
      placeholderText d index :: placeholdersIn d rest := by
  cases d with
  | sqlite => simp [placeholderText, placeholdersIn, marker, placeholderAt]
  | mysql => simp [placeholderText, placeholdersIn, marker, placeholderAt]
  | postgres =>
    have hdigits : ∀ c ∈ (toString index).toList, c.isDigit := fun _ => isDigit_of_mem_toString
    have hmarker : marker .postgres ∉ (toString index).toList := by
      intro hc
      exact absurd (hdigits _ hc) (by decide)
    have ht : (placeholderText .postgres index).toList = '$' :: (toString index).toList := by
      simp [placeholderText]
    have hd : marker .postgres = '$' := rfl
    rw [ht, List.cons_append, placeholdersIn, hd, if_pos rfl, placeholderAt,
      takeWhile_digits hdigits hr, placeholdersIn_append hmarker, ← ht, String.ofList_toList]

@[grind =] def SqlTerm.Marked (d : DialectName) : SqlTerm → Prop
  | .placeholder d' _ _ => d' = d
  | .format _ t => t.Marked d
  | .castBoolean t => t.Marked d
  | .castText t => t.Marked d
  | .coalesceFalse t => t.Marked d
  | .arrayLength _ t => t.Marked d
  | .elementCount _ t => t.Marked d
  | .unicodeLower t => t.Marked d
  | .castJson _ => True
  | .number _ => True
  | .emptyArray => True
  | .column d' c => marker d ∉ (SqlTerm.column d' c).text.toList
  | .jsonExtract d' c path => marker d ∉ (SqlTerm.jsonExtract d' c path).text.toList
  | .jsonAccess c path terminal => marker d ∉ (SqlTerm.jsonAccess c path terminal).text.toList

@[grind =] def SqlPred.Marked (d : DialectName) : SqlPred → Prop
  | .isTrue t => t.Marked d
  | .notIsTrue t => t.Marked d
  | .isNull t => t.Marked d
  | .isNotNull t => t.Marked d
  | .compare t _ u => t.Marked d ∧ u.Marked d
  | .like t u => t.Marked d ∧ u.Marked d
  | .ilike t u => t.Marked d ∧ u.Marked d
  | .jsonContains t u => t.Marked d ∧ u.Marked d
  | .jsonbContains t u => t.Marked d ∧ u.Marked d
  | .inList t us => t.Marked d ∧ ∀ u ∈ us, u.Marked d

@[grind =] def Sql.Marked (d : DialectName) : Sql → Prop
  | .empty => True
  | .pred p => p.Marked d
  | .paren s => s.Marked d
  | .and s t => s.Marked d ∧ t.Marked d
  | .or s t => s.Marked d ∧ t.Marked d
  | .not s => s.Marked d

/-- Scanning `text` before any continuation yields `found`. -/
def Scans (d : DialectName) (text : String) (found : List String) : Prop :=
  ∀ rest, Stops rest →
    placeholdersIn d (text.toList ++ rest) = found ++ placeholdersIn d rest

theorem Scans.plain {d : DialectName} {text : String} (h : marker d ∉ text.toList) :
    Scans d text [] := fun rest _ => placeholdersIn_append h rest

def Separates (d : DialectName) (text : String) : Prop :=
  marker d ∉ text.toList ∧ (text.toList.head?.any fun c => !c.isDigit) = true

instance (d : DialectName) (text : String) : Decidable (Separates d text) :=
  inferInstanceAs (Decidable (_ ∧ _))

theorem Separates.stops {d : DialectName} {text : String} (h : Separates d text)
    (rest : List Char) : Stops (text.toList ++ rest) := by
  obtain ⟨-, hhead⟩ := h
  cases hl : text.toList with
  | nil => simp [hl] at hhead
  | cons x xs => simpa [Stops, hl] using hhead

namespace Scans

variable {d : DialectName} {start text sep after : String} {found found' : List String}

theorem prepend (hm : marker d ∉ start.toList) (ht : Scans d text found) :
    Scans d (start ++ text) found := by
  intro rest hr
  rw [String.toList_append, List.append_assoc, placeholdersIn_append hm, ht rest hr]

theorem append (ht : Scans d text found) (hs : Separates d sep) (ha : Scans d after found') :
    Scans d (text ++ sep ++ after) (found ++ found') := by
  intro rest hr
  rw [String.toList_append, String.toList_append, List.append_assoc, List.append_assoc,
    ht _ (hs.stops _), placeholdersIn_append hs.1, ha rest hr, List.append_assoc]

theorem close (ht : Scans d text found) (hs : Separates d sep) : Scans d (text ++ sep) found := by
  intro rest _
  rw [String.toList_append, List.append_assoc, ht _ (hs.stops _), placeholdersIn_append hs.1]

theorem wrap (hm : marker d ∉ start.toList) (ht : Scans d text found) (hs : Separates d sep) :
    Scans d (start ++ text ++ sep) found :=
  (ht.prepend hm).close hs

end Scans

def texts (d : DialectName) (ps : List (Nat × Arg)) : List String :=
  ps.map fun p => placeholderText d p.1

@[simp] theorem texts_nil (d : DialectName) : texts d [] = [] := rfl

@[simp] theorem texts_append (d : DialectName) (ps qs : List (Nat × Arg)) :
    texts d (ps ++ qs) = texts d ps ++ texts d qs := List.map_append

theorem SqlTerm.scans {d : DialectName} {t : SqlTerm} (h : t.Marked d) :
    Scans d t.text (texts d t.placeholders) := by
  induction t with
  | column | jsonExtract | jsonAccess => exact Scans.plain h
  | number n =>
    have hn : marker d ∉ (toString n).toList := by
      intro hc
      have hdigit := isDigit_of_mem_toString hc
      cases d <;> exact absurd hdigit (by decide)
    exact Scans.plain hn
  | castJson b => exact Scans.plain (by cases d <;> cases b <;> decide)
  | emptyArray => exact Scans.plain (by cases d <;> decide)
  | placeholder d' index value =>
    obtain rfl := h
    intro rest hr
    exact placeholdersIn_placeholderText d' index hr
  | format e t ih =>
    cases e with
    | self => exact ih h
    | pipeUsers => exact (ih h).wrap (by cases d <;> decide) (by cases d <;> decide)
    | concatUsers => exact (ih h).wrap (by cases d <;> decide) (by cases d <;> decide)
    | unixTimestamp => exact (ih h).wrap (by cases d <;> decide) (by cases d <;> decide)
  | arrayLength d' t ih =>
    cases d' <;> exact (ih h).wrap (by cases d <;> decide) (by cases d <;> decide)
  | elementCount d' t ih =>
    cases d' <;> exact (ih h).wrap (by cases d <;> decide) (by cases d <;> decide)
  | castBoolean t ih | castText t ih | coalesceFalse t ih | unicodeLower t ih =>
    exact (ih h).wrap (by cases d <;> decide) (by cases d <;> decide)

theorem separates_operator (d : DialectName) (op : ComparisonOperator) :
    Separates d (" " ++ sqlOperator op ++ " ") := by
  cases d <;> cases op <;> decide

theorem scans_intercalate {d : DialectName} {us : List SqlTerm} (h : ∀ u ∈ us, u.Marked d) :
    Scans d (",".intercalate (us.map SqlTerm.text))
      (texts d (us.flatMap SqlTerm.placeholders)) := by
  induction us with
  | nil => exact Scans.plain (by cases d <;> decide)
  | cons u us ih =>
    have hu := SqlTerm.scans (h u (by simp))
    cases us with
    | nil => simpa using hu
    | cons v us =>
      have hs : Separates d "," := by cases d <;> decide
      have := hu.append hs (ih fun x hx => h x (List.mem_cons_of_mem u hx))
      simpa using this

theorem SqlPred.scans {d : DialectName} {p : SqlPred} (h : p.Marked d) :
    Scans d p.text (texts d p.placeholders) := by
  cases p with
  | isTrue t | isNull t | isNotNull t => exact (SqlTerm.scans h).close (by cases d <;> decide)
  | notIsTrue t => exact (SqlTerm.scans h).wrap (by cases d <;> decide) (by cases d <;> decide)
  | compare t op u =>
    have := (SqlTerm.scans h.1).append (separates_operator d op) (SqlTerm.scans h.2)
    simpa [text, placeholders, String.append_assoc] using this
  | like t u | ilike t u =>
    simp only [text, placeholders, texts_append]
    exact (SqlTerm.scans h.1).append (by cases d <;> decide) (SqlTerm.scans h.2)
  | jsonContains t u =>
    simp only [text, placeholders, texts_append]
    exact (((SqlTerm.scans h.1).prepend (by cases d <;> decide)).append (by cases d <;> decide)
      (SqlTerm.scans h.2)).close (by cases d <;> decide)
  | jsonbContains t u =>
    have hu : Scans d (jsonbBuildArrayText u.text) (texts d u.placeholders) :=
      (SqlTerm.scans h.2).wrap (by cases d <;> decide) (by cases d <;> decide)
    simp only [text, placeholders, texts_append]
    exact (SqlTerm.scans h.1).append (by cases d <;> decide) hu
  | inList t us =>
    have hopen : Separates d " IN (" := by cases d <;> decide
    have hclose : Separates d ")" := by cases d <;> decide
    simpa [text, placeholders] using
      ((SqlTerm.scans h.1).append hopen (scans_intercalate h.2)).close hclose

theorem Sql.scans {d : DialectName} {s : Sql} (h : s.Marked d) :
    Scans d s.text (texts d s.placeholders) := by
  induction s with
  | empty => exact Scans.plain (by cases d <;> decide)
  | pred p => exact SqlPred.scans h
  | paren s ih => exact (ih h).wrap (by cases d <;> decide) (by cases d <;> decide)
  | not s ih => exact (ih h).wrap (by cases d <;> decide) (by cases d <;> decide)
  | and s t hs ht | or s t hs ht =>
    simp only [text, placeholders, texts_append]
    exact (hs h.1).append (by cases d <;> decide) (ht h.2)

theorem placeholdersIn_text {d : DialectName} {s : Sql} (h : s.Marked d) :
    placeholdersIn d s.text.toList = texts d s.placeholders := by
  have hstop : Stops [] := nofun
  simpa [placeholdersIn] using Sql.scans h [] hstop

/-- A name that holds no placeholder marker of any dialect. -/
def Unmarked (text : String) : Prop := '?' ∉ text.toList ∧ '$' ∉ text.toList

instance (text : String) : Decidable (Unmarked text) :=
  inferInstanceAs (Decidable ('?' ∉ text.toList ∧ '$' ∉ text.toList))

def Field.Unmarked (f : Field) : Prop :=
  (Filter.Unmarked f.column.table ∧ Filter.Unmarked f.column.name) ∧
    ∀ part ∈ f.jsonPath, Filter.Unmarked part

instance (f : Field) : Decidable f.Unmarked := inferInstanceAs (Decidable (_ ∧ _))

def Schema.Unmarked (s : Schema) : Prop := ∀ p ∈ s.fields, p.2.Unmarked

instance (s : Schema) : Decidable s.Unmarked := by
  unfold Schema.Unmarked
  infer_instance

theorem newSchema_unmarked : newSchema.Unmarked := by decide

theorem newAttachmentSchema_unmarked : newAttachmentSchema.Unmarked := by decide

theorem Unmarked.marker {text : String} (h : Unmarked text) (d : DialectName) :
    marker d ∉ text.toList := by
  cases d with
  | postgres => exact h.2
  | _ => exact h.1

theorem marker_qualifyColumn {f : Field} (h : f.Unmarked) (d d' : DialectName) :
    marker d ∉ (qualifyColumn d' f.column).toList := by
  obtain ⟨⟨ht, hn⟩, -⟩ := h
  have hc : marker d ≠ '`' ∧ marker d ≠ '.' := by cases d <;> decide
  cases d' <;> simp [qualifyColumn, ht.marker, hn.marker, hc.1, hc.2]

theorem mem_intercalate {c : Char} {sep : String} {parts : List String}
    (h : c ∈ (sep.intercalate parts).toList) : c ∈ sep.toList ∨ ∃ p ∈ parts, c ∈ p.toList := by
  induction parts with
  | nil => simp at h
  | cons p parts ih =>
    cases parts with
    | nil => exact .inr ⟨p, by simp, by simpa using h⟩
    | cons q parts =>
      rw [String.intercalate_cons_cons, String.toList_append, String.toList_append,
        List.mem_append, List.mem_append] at h
      rcases h with (h | h) | h
      · exact .inr ⟨p, by simp, h⟩
      · exact .inl h
      · rcases ih h with h | ⟨r, hr, h⟩
        · exact .inl h
        · exact .inr ⟨r, List.mem_cons_of_mem p hr, h⟩

private theorem marker_jsonExtractText {column : String} {path : List String} {d : DialectName}
    (hd : d ≠ .postgres) (hc : marker d ∉ column.toList) (hp : ∀ p ∈ path, Unmarked p) :
    marker d ∉ (jsonExtractText column path).toList := by
  have hi : marker d ∉ (".".intercalate path).toList := by
    intro h
    rcases mem_intercalate h with h | ⟨p, hp', h⟩
    · cases d <;> exact absurd h (by decide)
    · exact (hp p hp').marker d h
  have hs : marker d ∉ "JSON_EXTRACT(".toList ∧ marker d ∉ ", '".toList ∧
      marker d ∉ "$.".toList ∧ marker d ∉ "')".toList := by
    cases d <;> first | decide | exact absurd rfl hd
  change marker d ∉ ("JSON_EXTRACT(" ++ column ++ ", '" ++ ("$." ++ ".".intercalate path) ++
    "')").toList
  simp only [String.toList_append, List.mem_append, not_or]
  exact ⟨⟨⟨⟨hs.1, hc⟩, hs.2.1⟩, hs.2.2.1, hi⟩, hs.2.2.2⟩

private theorem marker_buildPostgresJSONAccessor {base : String} {path : List String}
    {d : DialectName} (hb : marker d ∉ base.toList) (hp : ∀ p ∈ path, Unmarked p)
    (terminalText : Bool) :
    marker d ∉ (buildPostgresJSONAccessor base path terminalText).toList := by
  induction path generalizing base with
  | nil => exact hb
  | cons part path ih =>
    have hpart := (hp part (by simp)).marker d
    have hrest := fun p h => hp p (List.mem_cons_of_mem part h)
    have hstep : ∀ arrow ∈ ["->'", "->>'"],
        marker d ∉ (base ++ arrow ++ part ++ "'").toList := by
      intro arrow ha
      have harrow : ∀ arrow ∈ ["->'", "->>'"], marker d ∉ arrow.toList := by cases d <;> decide
      have hquote : marker d ∉ "'".toList := by cases d <;> decide
      simp only [String.toList_append, List.mem_append, not_or]
      exact ⟨⟨⟨hb, harrow arrow ha⟩, hpart⟩, hquote⟩
    cases path with
    | nil =>
      cases terminalText with
      | true => exact hstep _ (by simp)
      | false => exact hstep _ (by simp)
    | cons q path => exact ih (hstep _ (by simp)) hrest

theorem Field.Unmarked.column {f : Field} (h : f.Unmarked) (d : DialectName) :
    (SqlTerm.column d f.column).Marked d := marker_qualifyColumn h d d

theorem Field.Unmarked.columnExpr {f : Field} (h : f.Unmarked) (d : DialectName) :
    (f.columnExpr d).Marked d := by
  unfold Field.columnExpr
  cases f.expressions d <;> exact h.column d

theorem Field.Unmarked.jsonExtractExpr {f : Field} (h : f.Unmarked) (d : DialectName) :
    (jsonExtractExpr d f).Marked d := by
  cases d with
  | postgres => exact marker_buildPostgresJSONAccessor (marker_qualifyColumn h _ _) h.2 true
  | _ => exact marker_jsonExtractText (by decide) (marker_qualifyColumn h _ _) h.2

theorem Field.Unmarked.jsonArrayExpr {f : Field} (h : f.Unmarked) (d : DialectName) :
    (jsonArrayExpr d f).Marked d := by
  cases d with
  | postgres => exact marker_buildPostgresJSONAccessor (marker_qualifyColumn h _ _) h.2 false
  | _ => exact marker_jsonExtractText (by decide) (marker_qualifyColumn h _ _) h.2

theorem Schema.Unmarked.field {s : Schema} (h : s.Unmarked) {name : String} {f : Field}
    (hf : s.field name = some f) : f.Unmarked := h _ (Schema.mem_of_field hf)

theorem Schema.Unmarked.resolveAlias {s : Schema} (h : s.Unmarked) {name : String} {f : Field}
    (hf : s.resolveAlias name = some f) : f.Unmarked := by
  unfold Schema.resolveAlias at hf
  cases hn : s.field name with
  | none => simp [hn] at hf
  | some g =>
    simp only [hn] at hf
    split at hf
    · exact h.field hf
    · obtain rfl : g = f := by simpa using hf
      exact h.field hn

end Memoark.Filter
