import Memoark.Cel.Value
import Memoark.Filter.Completeness
import Memoark.Filter.Databases
import Memoark.Filter.Negation

/-! What a filter means where the conditions between its logical operators have the truth of what is
built from them, and when the databases of the three dialects select the same memos by it. -/
namespace Memoark.Filter
open Memoark.Logic

section values

variable {now : Int} {d : DialectName} {db : Database} {row : Row}

def Expr.truth (now : Int) (d : DialectName) (db : Database) (row : Row) (e : Expr) : Truth :=
  match buildCondition now newSchema e with
  | .ok cond => (cond.truth d db row).getD .unknown
  | .error _ => .unknown

theorem value_call {v : Expr → Truth} {target : Option Expr} {function : String}
    {args : List Expr} (hand : function ≠ "_&&_") (hor : function ≠ "_||_")
    (hnot : function ≠ "!_") :
    (Expr.call target function args).value v = v (.call target function args) := by
  unfold Expr.value
  split
  · rename_i heq
    cases heq
    exact absurd rfl hand
  · rename_i heq
    cases heq
    exact absurd rfl hor
  · rename_i heq
    cases heq
    exact absurd rfl hnot
  · rfl

end values

section conditions

def exactPattern (tag : String) : String := "%\"" ++ tag ++ "\"%"

def belowPattern (tag : String) : String := "%\"" ++ tag ++ "/%"

def startPattern (start : String) : String := "%\"" ++ start ++ "%"

def endPattern (suffix : String) : String := "%" ++ suffix ++ "\"%"

def partPattern (substring : String) : String := "%" ++ substring ++ "%"

def tagElement (tag : String) : Option String :=
  (jsonString (quoted tag)).filter fun s => '\x00' ∉ s.toList

/-- The tag is the inside of a JSON string, and the memo has it exactly if SQLite finds its
pattern. -/
def ExactTag (row : Row) (tag : String) : Prop :=
  ∃ element, tagElement tag = some element ∧
    ∀ tags, row.tags = some tags →
      asciiLike (compactText tags) (exactPattern tag) = tags.contains element

def AnyTag (row : Row) (names : List String) : Prop :=
  names = [] ∨ (∀ tag ∈ names, (tagElement tag).isSome = true) ∧
    ∀ tags, row.tags = some tags →
      (names.any fun tag => asciiLike (compactText tags) (exactPattern tag) ||
          asciiLike (compactText tags) (belowPattern tag)) =
        names.any fun tag => (tagElement tag).any tags.contains ||
          exactLike (spacedText tags) (belowPattern tag)

/-- The predicate finds the same in a list of tags by the patterns of SQLite, by those of MySQL
and by the elements of PostgreSQL. -/
def PredicateExpr.FindsAlike (tags : List String) : PredicateExpr → Prop
  | .equals value =>
    asciiLike (compactText tags) (exactPattern value) = (tagElement value).any tags.contains ∧
      exactLike (spacedText tags) (exactPattern value) = (tagElement value).any tags.contains
  | .startsWith start =>
    (asciiLike (compactText tags) (exactPattern start) ||
        asciiLike (compactText tags) (startPattern start)) =
      ((tagElement start).any tags.contains || exactLike (spacedText tags) (startPattern start)) ∧
    (exactLike (spacedText tags) (exactPattern start) ||
        exactLike (spacedText tags) (startPattern start)) =
      ((tagElement start).any tags.contains || exactLike (spacedText tags) (startPattern start))
  | .endsWith suffix =>
    asciiLike (compactText tags) (endPattern suffix) =
      exactLike (spacedText tags) (endPattern suffix)
  | .contains substring =>
    asciiLike (compactText tags) (partPattern substring) =
      exactLike (spacedText tags) (partPattern substring)

/-- What PostgreSQL parses as JSON is the inside of a JSON string. -/
def PredicateExpr.Parses : PredicateExpr → Prop
  | .equals value => (tagElement value).isSome = true
  | .startsWith start => (tagElement start).isSome = true
  | .endsWith _ => True
  | .contains _ => True

variable (C : Collations) (row : Row)

def ComparesAlike (op : ComparisonOperator) (s t : String) : Prop :=
  op.accepts (C.mysqlCompare s t) = compareStrings op s t ∧
    op.accepts (C.postgresCompare s t) = compareStrings op s t

def FindsText (s : String) (values : List ValueExpr) : Prop :=
  ∀ v ∈ values, ∀ t, v.literalValue = .string t → C.mysqlCompare s t = .eq →
    ∃ w ∈ values, w.literalValue = .string s

/-- The folded content, the content in its column, and the content in lower case match alike. -/
def ContainsAlike (value : String) : Prop :=
  Like.like (some '\\') C.mysqlSame row.content (partPattern value) =
      asciiLike (C.unicodeFold row.content) (C.unicodeFold (partPattern value)) ∧
    exactLike (C.postgresLower row.content) (C.postgresLower (partPattern value)) =
      asciiLike (C.unicodeFold row.content) (C.unicodeFold (partPattern value))

/-- The condition on a part of a filter without logical operators, and on a memo, under which the
three databases read the part alike. -/
def Condition.Uniform : Condition → Prop
  | .comparison (.fieldRef name) op right =>
    match row.flag name, row.scalar name, right.literalValue with
    | some flag, _, _ => flag.isSome = true ∨ name = "has_task_list"
    | none, .text s, .string t => ComparesAlike C op s t
    | none, _, _ => True
  | .inList (.fieldRef name) values =>
    if name = "tag" then AnyTag row (values.map (·.tag))
    else
      values ≠ [] ∧
        match row.scalar name with
        | .text s => FindsText C s values
        | _ => True
  | .elementIn element _ => ExactTag row element.tag
  | .contains _ value => ContainsAlike C row value
  | .listComprehension _ _ _ predicate =>
    predicate.Parses ∧ ∀ tags, row.tags = some tags → tags ≠ [] → predicate.FindsAlike tags
  | _ => True

def Condition.Alike (cond : Condition) : Prop :=
  ∀ d, cond.truth d (C.database d) row = cond.truth .sqlite (C.database .sqlite) row

end conditions

section leaves

variable {C : Collations} {row : Row}

theorem alike_iff {cond : Condition} : cond.Alike C row ↔
    cond.truth .mysql (mysql C) row = cond.truth .sqlite (sqlite C) row ∧
      cond.truth .postgres (postgres C) row = cond.truth .sqlite (sqlite C) row := by
  constructor
  · intro h
    exact ⟨h .mysql, h .postgres⟩
  · rintro ⟨hmysql, hpostgres⟩ d
    cases d
    · rfl
    · exact hmysql
    · exact hpostgres

theorem scalar_cases (row : Row) (name : String) : row.scalar name = .null ∨
    (∃ s, row.scalar name = .text s) ∨ ∃ n, row.scalar name = .int n := by
  unfold Row.scalar
  split
  · exact .inr (.inl ⟨_, rfl⟩)
  · cases row.creatorUsername with
    | none => exact .inl rfl
    | some username => exact .inr (.inl ⟨_, rfl⟩)
  · exact .inr (.inr ⟨_, rfl⟩)
  · exact .inr (.inr ⟨_, rfl⟩)
  · exact .inr (.inr ⟨_, rfl⟩)
  · exact .inr (.inl ⟨_, rfl⟩)
  · exact .inl rfl

theorem scalar_of_flag {name : String} {flag : Option Bool} (h : row.flag name = some flag) :
    row.scalar name = .null := by
  unfold Row.flag at h
  split at h
  · rfl
  · rfl
  · rfl
  · rfl
  · rfl
  · cases h

theorem scalarHolds_text (db : Database) (op : ComparisonOperator) (s t : String) :
    scalarHolds db op (.text s) (.string t) = db.compareText op s t := by
  simp [scalarHolds, Literal.scalarValue, Database.compare, Database.asText]

theorem scalarHolds_eq (db db' : Database) (op : ComparisonOperator) {v : Value} {lit : Literal}
    (h : ∀ s t, v = .text s → lit ≠ .string t)
    (hv : v = .null ∨ (∃ s, v = .text s) ∨ ∃ n, v = .int n) :
    scalarHolds db op v lit = scalarHolds db' op v lit := by
  rcases hv with rfl | ⟨s, rfl⟩ | ⟨n, rfl⟩
  · cases lit <;> rfl
  · cases lit with
    | string t => exact absurd rfl (h s t rfl)
    | _ => rfl
  · cases lit <;> rfl

theorem truth_comparison (d : DialectName) (db : Database) (name : String) (op : ComparisonOperator)
    (right : ValueExpr) :
    (Condition.comparison (.fieldRef name) op right).truth d db row =
      some (.mask ((Condition.comparison (.fieldRef name) op right).blocked d db row)
        (comparisonHolds db row (.fieldRef name) op right)) := rfl

theorem blocked_comparison (d : DialectName) (db : Database) (name : String)
    (op : ComparisonOperator) (right : ValueExpr) :
    (Condition.comparison (.fieldRef name) op right).blocked d db row =
      match row.flag name with
      | some value => value.isNone && unguarded d name
      | none => row.scalar name == .null && right.literalValue != .null := rfl

theorem comparisonHolds_eq (db db' : Database) {name : String} (op : ComparisonOperator)
    {right : ValueExpr} (h : ∀ s t, row.scalar name = .text s → right.literalValue ≠ .string t) :
    comparisonHolds db row (.fieldRef name) op right =
      comparisonHolds db' row (.fieldRef name) op right := by
  have hscalar := scalarHolds_eq db db' op h (scalar_cases row name)
  unfold comparisonHolds
  cases hlit : right.literalValue with
  | bool value => rfl
  | _ =>
    rw [hlit] at hscalar
    exact hscalar

theorem comparisonHolds_text (db : Database) {name : String} (op : ComparisonOperator)
    {right : ValueExpr} {s t : String} (hs : row.scalar name = .text s)
    (ht : right.literalValue = .string t) :
    comparisonHolds db row (.fieldRef name) op right = db.compareText op s t := by
  unfold comparisonHolds
  rw [ht]
  dsimp only
  rw [hs]
  exact scalarHolds_text db op s t

theorem mask_inj {p q a : Bool} : Truth.mask p a = Truth.mask q a ↔ p = q := by
  cases p <;> cases q <;> cases a <;> decide

theorem ofBool_inj {a b : Bool} : Truth.ofBool a = Truth.ofBool b ↔ a = b := by
  cases a <;> cases b <;> decide

theorem comparison_alike (name : String) (op : ComparisonOperator) (right : ValueExpr) :
    (Condition.comparison (.fieldRef name) op right).Alike C row ↔
      (Condition.comparison (.fieldRef name) op right).Uniform C row := by
  rw [alike_iff]
  simp only [truth_comparison, blocked_comparison, Condition.Uniform, Option.some.injEq]
  cases hflag : row.flag name with
  | some flag =>
    have hholds : ∀ db, comparisonHolds db row (.fieldRef name) op right =
        comparisonHolds (sqlite C) row (.fieldRef name) op right := by
      intro db
      refine comparisonHolds_eq db _ op fun s t hs => ?_
      rw [scalar_of_flag hflag] at hs
      cases hs
    rw [hholds (mysql C), hholds (postgres C)]
    simp only [mask_inj, Renderer.unguarded_sqlite, Renderer.unguarded_mysql,
      Renderer.unguarded_postgres]
    cases flag <;> simp
  | none =>
    by_cases htexts : ∃ s t, row.scalar name = .text s ∧ right.literalValue = .string t
    · obtain ⟨s, t, hs, ht⟩ := htexts
      have htext := fun db => comparisonHolds_text db op hs ht
      rw [htext (mysql C), htext (postgres C), htext (sqlite C), hs, ht]
      simp only [text_beq_null, Bool.false_and, Truth.mask_false, ofBool_inj]
      exact Iff.rfl
    · have hholds : ∀ db, comparisonHolds db row (.fieldRef name) op right =
          comparisonHolds (sqlite C) row (.fieldRef name) op right := by
        intro db
        exact comparisonHolds_eq db _ op fun s t hs ht => htexts ⟨s, t, hs, ht⟩
      rw [hholds (mysql C), hholds (postgres C)]
      have htrue : ∀ v lit, row.scalar name = v → right.literalValue = lit →
          (match (none : Option (Option Bool)), v, lit with
            | some flag, _, _ => flag.isSome = true ∨ name = "has_task_list"
            | none, .text s, .string t => ComparesAlike C op s t
            | none, _, _ => True) := by
        intro v lit hv hlit
        split
        · rename_i heq
          cases heq
        · exact absurd ⟨_, _, hv, hlit⟩ htexts
        · trivial
      exact ⟨fun _ => htrue _ _ rfl rfl, fun _ => ⟨rfl, rfl⟩⟩

theorem any_text_iff (db : Database) (s : String) (values : List ValueExpr) :
    (values.any fun v => scalarHolds db .eq (.text s) v.literalValue) = true ↔
      ∃ v ∈ values, ∃ t, v.literalValue = .string t ∧ db.compareText .eq s t = true := by
  rw [List.any_eq_true]
  refine exists_congr fun v => and_congr_right fun _ => ?_
  cases hlit : v.literalValue with
  | string t =>
    rw [scalarHolds_text]
    constructor
    · intro h
      exact ⟨t, rfl, h⟩
    · rintro ⟨_, ⟨⟩, h⟩
      exact h
  | _ =>
    constructor
    · intro h
      cases h
    · rintro ⟨_, ⟨⟩, -⟩

theorem findsText_iff (s : String) (values : List ValueExpr) :
    ((values.any fun v => scalarHolds (mysql C) .eq (.text s) v.literalValue) =
          values.any fun v => scalarHolds (sqlite C) .eq (.text s) v.literalValue) ∧
        ((values.any fun v => scalarHolds (postgres C) .eq (.text s) v.literalValue) =
          values.any fun v => scalarHolds (sqlite C) .eq (.text s) v.literalValue) ↔
      FindsText C s values := by
  have hsqlite : (values.any fun v => scalarHolds (sqlite C) .eq (.text s) v.literalValue) = true ↔
      ∃ v ∈ values, v.literalValue = .string s := by
    rw [any_text_iff]
    simp [sqlite, compareStrings]
  have hpostgres : (values.any fun v => scalarHolds (postgres C) .eq (.text s) v.literalValue) =
      values.any fun v => scalarHolds (sqlite C) .eq (.text s) v.literalValue := by
    rw [Bool.eq_iff_iff, hsqlite, any_text_iff]
    simp [postgres, ComparisonOperator.accepts, C.postgres_eq]
  have hmysql : (values.any fun v => scalarHolds (mysql C) .eq (.text s) v.literalValue) = true ↔
      ∃ v ∈ values, ∃ t, v.literalValue = .string t ∧ C.mysqlCompare s t = .eq := by
    rw [any_text_iff]
    simp [mysql, ComparisonOperator.accepts]
  rw [and_iff_left hpostgres, Bool.eq_iff_iff, hmysql, hsqlite]
  constructor
  · intro h v hv t ht heq
    exact h.mp ⟨v, hv, t, ht, heq⟩
  · intro h
    constructor
    · rintro ⟨v, hv, t, ht, heq⟩
      exact h v hv t ht heq
    · rintro ⟨v, hv, hs⟩
      exact ⟨v, hv, s, hs, C.mysql_refl s⟩

theorem truth_inList (d : DialectName) (db : Database) {name : String} (hname : name ≠ "tag")
    (values : List ValueExpr) :
    (Condition.inList (.fieldRef name) values).truth d db row =
      if values.isEmpty && d != .sqlite then none
      else some (.mask (row.scalar name == .null && !values.isEmpty)
        (values.any fun v => scalarHolds db .eq (row.scalar name) v.literalValue)) := by
  simp [Condition.truth, Condition.faulty, Condition.blocked, Condition.readsMissing,
    Condition.holds, inListHolds, hname]

theorem inList_alike {name : String} (hname : name ≠ "tag") (values : List ValueExpr) :
    (Condition.inList (.fieldRef name) values).Alike C row ↔
      (Condition.inList (.fieldRef name) values).Uniform C row := by
  rw [alike_iff]
  simp only [truth_inList _ _ hname, Condition.Uniform, hname, if_false]
  cases values with
  | nil => simp
  | cons v values =>
    simp only [List.isEmpty_cons, Bool.false_and, Bool.not_false, Bool.and_true, ne_eq, reduceCtorEq,
      not_false_eq_true, true_and, if_false, Option.some.injEq]
    rcases scalar_cases row name with hscalar | ⟨s, hscalar⟩ | ⟨n, hscalar⟩
    · rw [hscalar]
      simp
    · rw [hscalar]
      simp only [text_beq_null, Truth.mask_false, ofBool_inj]
      exact findsText_iff s (v :: values)
    · have hholds : ∀ db w, scalarHolds db .eq (.int n) w = scalarHolds (sqlite C) .eq (.int n) w := by
        intro db w
        exact scalarHolds_eq db _ .eq (fun s t hs => by cases hs) (.inr (.inr ⟨n, rfl⟩))
      rw [hscalar]
      simp only [hholds (mysql C), hholds (postgres C), and_self]

theorem tagTruth_inj {faulty a b : Bool} :
    tagTruth row faulty a = tagTruth row false b ↔
      faulty = false ∧ ∀ tags, row.tags = some tags → a = b := by
  unfold tagTruth
  cases faulty with
  | true => simp
  | false =>
    cases htags : row.tags with
    | none => simp
    | some tags => simp [ofBool_inj]

theorem tagList_of_some {tags : List String} (h : row.tags = some tags) : row.tagList = tags := by
  rw [Row.tagList, h]
  rfl

theorem matches_sqlite (tag : String) : tagMatches .sqlite (sqlite C) row tag =
    asciiLike (compactText row.tagList) (exactPattern tag) := rfl

theorem matches_postgres (tag : String) : tagMatches .postgres (postgres C) row tag =
    (tagElement tag).any row.tagList.contains := rfl

theorem textMatches_sqlite (pattern : String) : tagTextMatches .sqlite (sqlite C) row pattern =
    asciiLike (compactText row.tagList) pattern := rfl

theorem textMatches_mysql (pattern : String) : tagTextMatches .mysql (mysql C) row pattern =
    exactLike (spacedText row.tagList) pattern := rfl

theorem textMatches_postgres (pattern : String) : tagTextMatches .postgres (postgres C) row pattern =
    exactLike (spacedText row.tagList) pattern := rfl

theorem faulty_sqlite (tag : String) : jsonFaulty .sqlite (sqlite C) tag = false := rfl

theorem jsonString_of_tagElement {tag element : String} (h : tagElement tag = some element) :
    jsonString (quoted tag) = some element := (Option.filter_eq_some_iff.mp h).1

theorem faulty_mysql_of_element {tag : String} (h : (tagElement tag).isSome = true) :
    jsonFaulty .mysql (mysql C) tag = false := by
  obtain ⟨element, helement⟩ := Option.isSome_iff_exists.mp h
  have hjson : jsonFaulty .mysql (mysql C) tag = (jsonString (quoted tag)).isNone := rfl
  rw [hjson, jsonString_of_tagElement helement]
  rfl

theorem matches_mysql_of_element {tag : String} (h : (tagElement tag).isSome = true) :
    tagMatches .mysql (mysql C) row tag = (tagElement tag).any row.tagList.contains := by
  obtain ⟨element, helement⟩ := Option.isSome_iff_exists.mp h
  have hjson : tagMatches .mysql (mysql C) row tag =
      (jsonString (quoted tag)).any row.tagList.contains := rfl
  rw [hjson, jsonString_of_tagElement helement, helement]

theorem faulty_postgres (tag : String) :
    jsonFaulty .postgres (postgres C) tag = !(tagElement tag).isSome := by
  have hjson : jsonFaulty .postgres (postgres C) tag = (tagElement tag).isNone := rfl
  rw [hjson]
  cases tagElement tag <;> rfl

theorem elementIn_alike (element : ValueExpr) (name : String) :
    (Condition.elementIn element name).Alike C row ↔
      (Condition.elementIn element name).Uniform C row := by
  have htruth : ∀ d db, (Condition.elementIn element name).truth d db row =
      tagTruth row (jsonFaulty d db element.tag) (tagMatches d db row element.tag) :=
    fun _ _ => rfl
  rw [alike_iff, htruth, htruth, htruth, faulty_sqlite, matches_sqlite, tagTruth_inj, tagTruth_inj,
    faulty_postgres, matches_postgres]
  simp only [Condition.Uniform, ExactTag]
  constructor
  · rintro ⟨-, hsome, hmatches⟩
    obtain ⟨json, hjson⟩ := Option.isSome_iff_exists.mp (by simpa using hsome)
    refine ⟨json, hjson, fun tags htags => ?_⟩
    have htext := hmatches tags htags
    rw [hjson, tagList_of_some htags] at htext
    exact htext.symm
  · rintro ⟨json, hjson, hmatches⟩
    have hsome : (tagElement element.tag).isSome = true := by rw [hjson]; rfl
    have htexts : ∀ tags, row.tags = some tags →
        (tagElement element.tag).any row.tagList.contains =
          asciiLike (compactText row.tagList) (exactPattern element.tag) := by
      intro tags htags
      rw [hjson, tagList_of_some htags]
      exact (hmatches tags htags).symm
    rw [matches_mysql_of_element hsome]
    exact ⟨⟨faulty_mysql_of_element hsome, htexts⟩, by rw [hsome]; rfl, htexts⟩

theorem truth_tagList (d : DialectName) (db : Database) (values : List ValueExpr) :
    (Condition.inList (.fieldRef "tag") values).truth d db row =
      tagTruth row (values.isEmpty || (values.map (·.tag)).any (jsonFaulty d db))
        ((values.map (·.tag)).any (tagElementHolds d db row)) := by
  rw [List.any_map, List.any_map]
  rfl

theorem elementHolds_sqlite : tagElementHolds .sqlite (sqlite C) row = fun tag =>
    asciiLike (compactText row.tagList) (exactPattern tag) ||
      asciiLike (compactText row.tagList) (belowPattern tag) := by
  funext tag
  rw [tagElementHolds, matches_sqlite, textMatches_sqlite, belowPattern]

theorem elementHolds_postgres : tagElementHolds .postgres (postgres C) row = fun tag =>
    (tagElement tag).any row.tagList.contains ||
      exactLike (spacedText row.tagList) (belowPattern tag) := by
  funext tag
  rw [tagElementHolds, matches_postgres, textMatches_postgres, belowPattern]

theorem tagList_alike (values : List ValueExpr) :
    (Condition.inList (.fieldRef "tag") values).Alike C row ↔
      (Condition.inList (.fieldRef "tag") values).Uniform C row := by
  rw [alike_iff]
  simp only [truth_tagList, Condition.Uniform, if_true]
  by_cases hvalues : values = []
  · subst hvalues
    simp [tagTruth, AnyTag]
  have hnames : values.map (·.tag) ≠ [] := by simpa using hvalues
  have hempty : values.isEmpty = false := by simpa using hvalues
  rw [hempty, Bool.false_or, Bool.false_or, Bool.false_or]
  generalize values.map (·.tag) = names at hnames
  have hsqlite : names.any (jsonFaulty .sqlite (sqlite C)) = false := by simp [faulty_sqlite]
  have hpostgres : names.any (jsonFaulty .postgres (postgres C)) = false ↔
      ∀ tag ∈ names, (tagElement tag).isSome = true := by
    simp [faulty_postgres, Option.isSome_iff_ne_none]
  rw [hsqlite, tagTruth_inj, tagTruth_inj, hpostgres, elementHolds_sqlite, elementHolds_postgres]
  constructor
  · rintro ⟨-, hsome, hmatches⟩
    refine .inr ⟨hsome, fun tags htags => ?_⟩
    have htexts := hmatches tags htags
    rw [tagList_of_some htags] at htexts
    exact htexts.symm
  · rintro (h | ⟨hsome, hmatches⟩)
    · exact absurd h hnames
    have hfaulty : names.any (jsonFaulty .mysql (mysql C)) = false := by
      rw [List.any_eq_false]
      intro tag htag
      rw [faulty_mysql_of_element (hsome tag htag)]
      exact Bool.false_ne_true
    have hholds : names.any (tagElementHolds .mysql (mysql C) row) =
        names.any fun tag => (tagElement tag).any row.tagList.contains ||
          exactLike (spacedText row.tagList) (belowPattern tag) := by
      rw [Bool.eq_iff_iff, List.any_eq_true, List.any_eq_true]
      refine exists_congr fun tag => and_congr_right fun htag => ?_
      rw [tagElementHolds, matches_mysql_of_element (hsome tag htag), textMatches_mysql,
        belowPattern]
    have htexts : ∀ tags, row.tags = some tags →
        (names.any fun tag => (tagElement tag).any row.tagList.contains ||
            exactLike (spacedText row.tagList) (belowPattern tag)) =
          names.any fun tag => asciiLike (compactText row.tagList) (exactPattern tag) ||
            asciiLike (compactText row.tagList) (belowPattern tag) := by
      intro tags htags
      rw [tagList_of_some htags]
      exact (hmatches tags htags).symm
    rw [hholds]
    exact ⟨⟨hfaulty, htexts⟩, hsome, htexts⟩

theorem contains_alike (field value : String) :
    (Condition.contains field value).Alike C row ↔
      (Condition.contains field value).Uniform C row := by
  have htruth : ∀ d db, (Condition.contains field value).truth d db row =
      some (.ofBool (containsHolds d db row value)) := fun _ _ => rfl
  rw [alike_iff, htruth, htruth, htruth, Option.some.injEq, Option.some.injEq, ofBool_inj,
    ofBool_inj]
  exact Iff.rfl

theorem truth_comprehension (d : DialectName) (db : Database) (kind : ComprehensionKind)
    (field iterVar : String) (predicate : PredicateExpr) :
    (Condition.listComprehension kind field iterVar predicate).truth d db row =
      if predicate.faulty d db then none
      else some (.ofBool (!row.tagList.isEmpty && predicate.holds d db row)) := rfl

theorem PredicateExpr.faulty_postgres {predicate : PredicateExpr} :
    predicate.faulty .postgres (postgres C) = false ↔ predicate.Parses := by
  cases predicate with
  | equals value | startsWith start =>
    simp [faulty, exactTagFaulty, Filter.faulty_postgres, Parses]
  | endsWith suffix | contains substring => exact ⟨fun _ => trivial, fun _ => rfl⟩

theorem PredicateExpr.findsAlike_iff {predicate : PredicateExpr} :
    predicate.holds .mysql (mysql C) row = predicate.holds .sqlite (sqlite C) row ∧
        predicate.holds .postgres (postgres C) row = predicate.holds .sqlite (sqlite C) row ↔
      predicate.FindsAlike row.tagList := by
  cases predicate with
  | equals value =>
    simp only [holds, exactTagHolds, textMatches_sqlite, textMatches_mysql, matches_postgres,
      FindsAlike, exactPattern]
    constructor
    · rintro ⟨hmysql, hpostgres⟩
      exact ⟨hpostgres.symm, hmysql.trans hpostgres.symm⟩
    · rintro ⟨hsqlite, hmysql⟩
      exact ⟨hmysql.trans hsqlite.symm, hsqlite.symm⟩
  | startsWith start =>
    simp only [holds, exactTagHolds, textMatches_sqlite, textMatches_mysql, textMatches_postgres,
      matches_postgres, FindsAlike, exactPattern, startPattern]
    constructor
    · rintro ⟨hmysql, hpostgres⟩
      exact ⟨hpostgres.symm, hmysql.trans hpostgres.symm⟩
    · rintro ⟨hsqlite, hmysql⟩
      exact ⟨hmysql.trans hsqlite.symm, hsqlite.symm⟩
  | endsWith suffix =>
    simp only [holds, textMatches_sqlite, textMatches_mysql, textMatches_postgres, FindsAlike,
      endPattern, and_self]
    exact eq_comm
  | contains substring =>
    simp only [holds, textMatches_sqlite, textMatches_mysql, textMatches_postgres, FindsAlike,
      partPattern, and_self]
    exact eq_comm

theorem comprehension_alike (kind : ComprehensionKind) (field iterVar : String)
    (predicate : PredicateExpr) :
    (Condition.listComprehension kind field iterVar predicate).Alike C row ↔
      (Condition.listComprehension kind field iterVar predicate).Uniform C row := by
  have hmysql : predicate.faulty .mysql (mysql C) = false := by cases predicate <;> rfl
  have hsqlite : predicate.faulty .sqlite (sqlite C) = false := by cases predicate <;> rfl
  have htags : (∀ tags, row.tags = some tags → tags ≠ [] → predicate.FindsAlike tags) ↔
      (row.tagList.isEmpty = false → predicate.FindsAlike row.tagList) := by
    unfold Row.tagList
    cases row.tags <;> simp
  rw [alike_iff]
  simp only [truth_comprehension, Condition.Uniform, hmysql, hsqlite, Bool.false_eq_true, if_false,
    Option.some.injEq, ofBool_inj]
  rw [htags, ← PredicateExpr.findsAlike_iff (C := C), ← PredicateExpr.faulty_postgres (C := C)]
  cases predicate.faulty .postgres (postgres C) with
  | true => simp
  | false => cases row.tagList.isEmpty <;> simp [ofBool_inj]

theorem leaf_alike {cond : Condition} (h : cond.IsLeaf) :
    cond.Alike C row ↔ cond.Uniform C row := by
  have htrivial : ∀ {p q : Prop}, p → q → (p ↔ q) := fun hp hq => ⟨fun _ => hq, fun _ => hp⟩
  cases cond with
  | logical op left right => exact h.elim
  | not expr => exact h.elim
  | constant value => exact htrivial (fun d => rfl) trivial
  | fieldPredicate field => exact htrivial (fun d => rfl) trivial
  | comparison left op right =>
    cases left with
    | fieldRef name => exact comparison_alike name op right
    | literal value => exact htrivial (fun d => rfl) trivial
    | function name args => exact htrivial (fun d => rfl) trivial
  | inList left values =>
    cases left with
    | fieldRef name =>
      by_cases hname : name = "tag"
      · subst hname
        exact tagList_alike values
      · exact inList_alike hname values
    | literal value => exact htrivial (fun d => rfl) trivial
    | function name args => exact htrivial (fun d => rfl) trivial
  | elementIn element field => exact elementIn_alike element field
  | contains field value => exact contains_alike field value
  | listComprehension kind field iterVar predicate =>
    exact comprehension_alike kind field iterVar predicate

end leaves

end Memoark.Filter
