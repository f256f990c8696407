import Memoark.Filter.Render
import Memoark.Filter.Parts
import Memoark.Filter.Semantics

/-! `contains` on the content of a memo and on the filename of an attachment: the searched string
is put between two `%` as it is, so it is a pattern and not a text. The rendered SQL is read on the
rows of any query, which have columns and payloads; on memo rows this is their evaluation. -/
namespace Memoark.Filter

section sources

open Memoark.Logic

structure Source where
  column : DialectName → Column → Option Value
  payload : Column → List String → Option Value

def Row.source (row : Row) : Source := ⟨row.column, row.payload⟩

structure AttachmentRow where
  filename : String
  type : String
  createdTs : Int
  memoId : Option Int

def AttachmentRow.column (row : AttachmentRow) (c : Column) : Option Value :=
  if c.table = "attachment" then
    match c.name with
    | "filename" => some (.text row.filename)
    | "type" => some (.text row.type)
    | "created_ts" => some (.int row.createdTs)
    | "memo_id" => some (ofOption .int row.memoId)
    | _ => none
  else none

def AttachmentRow.source (row : AttachmentRow) : Source where
  column _ := row.column
  payload _ _ := none

def SqlTerm.evalOn (db : Database) (src : Source) : SqlTerm → Option Value
  | .column d c => src.column d c
  | .format e t => (t.evalOn db src).bind (formatValue e)
  | .jsonExtract d c path => (src.payload c path).map (extracted d)
  | .jsonAccess c path terminalText =>
    (src.payload c path).map fun v => if terminalText then db.terminalText v else v
  | .castBoolean t => (t.evalOn db src).bind Database.castBoolean
  | .castText t => (t.evalOn db src).bind db.castText
  | .coalesceFalse t => (t.evalOn db src).map fun v => if v = .null then .jsonBool false else v
  | .castJson b => some (.jsonBool b)
  | .arrayLength _ t =>
    (t.evalOn db src).bind fun v => Database.arrayLength (if v = .null then .jsonArray [] else v)
  | .elementCount _ t => (t.evalOn db src).bind Database.arrayLength
  | .unicodeLower t => (t.evalOn db src).bind db.lowered
  | .number n => some (.int n)
  | .emptyArray => some (.text "[]")
  | .placeholder d _ value => some (value.value d)

def SqlPred.evalOn (d : DialectName) (db : Database) (src : Source) : SqlPred → Option Truth
  | .isTrue t => (t.evalOn db src).bind fun v => (Database.isTrue v).map .ofBool
  | .notIsTrue t => (t.evalOn db src).bind fun v => (Database.isTrue v).map fun b => .ofBool (!b)
  | .isNull t => (t.evalOn db src).map fun v => .ofBool (v == .null)
  | .isNotNull t => (t.evalOn db src).map fun v => .ofBool (v != .null)
  | .compare t op u => (t.evalOn db src).bind fun v => (u.evalOn db src).bind (db.compare op v)
  | .like t u =>
    (t.evalOn db src).bind fun v => (u.evalOn db src).bind (db.patternMatch (db.likeOf v) v)
  | .ilike t u =>
    (t.evalOn db src).bind fun v => (u.evalOn db src).bind (db.patternMatch db.ilike v)
  | .jsonContains t u => (t.evalOn db src).bind fun v => (u.evalOn db src).bind (db.arrayContains v)
  | .jsonbContains t u => (t.evalOn db src).bind fun v => (u.evalOn db src).bind (db.arrayContains v)
  | .inList t us =>
    (t.evalOn db src).bind fun v => (us.mapM (SqlTerm.evalOn db src)).bind (evalIn d db v)

def Sql.evalOn (d : DialectName) (db : Database) (src : Source) : Sql → Option Truth
  | .empty => none
  | .pred p => p.evalOn d db src
  | .paren s => s.evalOn d db src
  | .and s t => (s.evalOn d db src).bind fun a => (t.evalOn d db src).map a.and
  | .or s t => (s.evalOn d db src).bind fun a => (t.evalOn d db src).map a.or
  | .not s => (s.evalOn d db src).map Truth.not

def Statement.selectsOn (d : DialectName) (db : Database) (src : Source) (st : Statement) : Bool :=
  match st.sql with
  | .empty => true
  | s => s.evalOn d db src == some .true

variable {d : DialectName} {db : Database} {row : Row}

theorem SqlTerm.evalOn_row (t : SqlTerm) : t.evalOn db row.source = t.eval db row := by
  induction t with
  | column | jsonExtract | jsonAccess | castJson | number | emptyArray | placeholder => rfl
  | format e t ih => rw [evalOn, ih, eval]
  | castBoolean t ih => rw [evalOn, ih, eval]
  | castText t ih => rw [evalOn, ih, eval]
  | coalesceFalse t ih => rw [evalOn, ih, eval]
  | arrayLength d t ih => rw [evalOn, ih, eval]
  | elementCount d t ih => rw [evalOn, ih, eval]
  | unicodeLower t ih => rw [evalOn, ih, eval]

theorem SqlPred.evalOn_row (p : SqlPred) : p.evalOn d db row.source = p.eval d db row := by
  have hterms : SqlTerm.evalOn db row.source = SqlTerm.eval db row := funext SqlTerm.evalOn_row
  cases p <;> simp only [evalOn, eval, hterms]

theorem Sql.evalOn_row (s : Sql) : s.evalOn d db row.source = s.eval d db row := by
  induction s with
  | empty => rfl
  | pred p => exact p.evalOn_row
  | paren s ih => exact ih
  | and s t hs ht => rw [evalOn, hs, ht, eval]
  | or s t hs ht => rw [evalOn, hs, ht, eval]
  | not s ih => rw [evalOn, ih, eval]

theorem Statement.selectsOn_row (st : Statement) :
    st.selectsOn d db row.source = st.selects d db row := by
  unfold selectsOn selects
  cases st.sql with
  | empty => rfl
  | _ => simp only [Sql.evalOn_row]

end sources

open Logic.Like (Plain Keeps Special)

def containsCall (name s : String) : Expr := .call (some (.ident name)) "contains" [.const (.string s)]

def containsIn (d : DialectName) (db : Database) (text s : String) : Bool :=
  match d with
  | .sqlite => db.like (db.unicodeLower text) (db.unicodeLower ("%" ++ s ++ "%"))
  | .postgres => db.ilike text ("%" ++ s ++ "%")
  | .mysql => db.like text ("%" ++ s ++ "%")

variable (now : Int) (opts : RenderOptions) (s : String)

theorem buildCondition_contains {schema : Schema} {name : String} {f : Field}
    (hf : schema.field name = some f) (hsupports : f.supportsContains = true) :
    buildCondition now schema (containsCall name s) = .ok (.contains name s) := by
  simp [containsCall, buildCondition, buildLeafCall, buildContainsCondition, getIdentName,
    getConstValue, hf, hsupports, Bind.bind, Except.bind, Pure.pure, Except.pure]

def containsPred (d : DialectName) (column pattern : SqlTerm) : SqlPred :=
  match d with
  | .sqlite => .like (.unicodeLower column) (.unicodeLower pattern)
  | .postgres => .ilike column pattern
  | .mysql => .like column pattern

theorem containsPred_evalOn (d : DialectName) {db : Database} {src : Source} {column : SqlTerm}
    {text : String} (h : column.evalOn db src = some (.text text)) (index : Nat) :
    (containsPred d column (.placeholder d index (.string ("%" ++ s ++ "%")))).evalOn d db src =
      some (.ofBool (containsIn d db text s)) := by
  cases d <;>
    simp [containsPred, SqlPred.evalOn, SqlTerm.evalOn, h, Arg.value, Database.lowered,
      Database.patternMatch, Database.asText, containsIn]

theorem renderContainsCondition_eq {r : Renderer} {name : String} {f : Field}
    (hf : r.schema.field name = some f) :
    ∃ index st', r.renderContainsCondition name s {} =
      .ok ({ sql := .pred (containsPred r.dialect (f.columnExpr r.dialect)
        (.placeholder r.dialect index (.string ("%" ++ s ++ "%")))) }, st') := by
  have hlookup : r.lookupField name = .ok f := by simp [Renderer.lookupField, hf]
  refine ⟨r.placeholderOffset + 1, ⟨1, [.string ("%" ++ s ++ "%")]⟩, ?_⟩
  unfold Renderer.renderContainsCondition
  rw [hlookup]
  obtain ⟨schema, d, offset⟩ := r
  cases d <;> rfl

theorem contains_selectsOn (schema : Schema) (name : String) {f : Field}
    (hf : schema.field name = some f) (hsupports : f.supportsContains = true) :
    ∃ st, schema.compileToStatement now opts (containsCall name s) = .ok st ∧
      ∀ db src text, (f.columnExpr opts.dialect).evalOn db src = some (.text text) →
        st.selectsOn opts.dialect db src = containsIn opts.dialect db text s := by
  have hfield : (newRenderer schema opts).schema.field name = some f := hf
  obtain ⟨index, st', hrender⟩ := renderContainsCondition_eq s hfield
  let pattern := SqlTerm.placeholder opts.dialect index (.string ("%" ++ s ++ "%"))
  refine ⟨⟨.pred (containsPred opts.dialect (f.columnExpr opts.dialect) pattern), st'.args⟩,
    ?_, ?_⟩
  · rw [Schema.compileToStatement, buildCondition_contains now s hf hsupports]
    unfold Renderer.render
    dsimp only [Bind.bind, Except.bind, StateT.run]
    rw [Renderer.renderCondition, hrender]
    rfl
  · intro db src text htext
    have hpred := containsPred_evalOn s opts.dialect htext index
    change (SqlPred.evalOn opts.dialect db src
      (containsPred opts.dialect (f.columnExpr opts.dialect) pattern) == some .true) = _
    rw [hpred]
    cases containsIn opts.dialect db text s <;> rfl

section folding

/-- How the databases fold case, character by character: SQLite by `memos_unicode_lower`,
PostgreSQL by its locale, MySQL by the weights of its collation. -/
structure Foldings (C : Collations) where
  unicode : Char → List Char
  unicodeFold_eq : ∀ text, C.unicodeFold text = String.ofList (text.toList.flatMap unicode)
  unicode_keeps : Keeps none unicode
  /-- Folded texts have no upper case, which LIKE would fold again. -/
  unicode_lower : ∀ c, ∀ d ∈ unicode c, d.toLower = d
  postgres : Char → List Char
  postgresLower_eq : ∀ text, C.postgresLower text = String.ofList (text.toList.flatMap postgres)
  postgres_keeps : Keeps (some '\\') postgres
  mysqlWeight : Char → Nat
  mysqlSame_iff : ∀ a b, C.mysqlSame a b = true ↔ mysqlWeight a = mysqlWeight b
  /-- The special characters of LIKE have weights of their own. -/
  mysql_distinct : mysqlWeight '%' ≠ mysqlWeight '_' ∧ mysqlWeight '%' ≠ mysqlWeight '\\'

variable {C : Collations} (F : Foldings C)

def Foldings.Contains (d : DialectName) (text s : String) : Prop :=
  match d with
  | .sqlite => s.toList.flatMap F.unicode <:+: text.toList.flatMap F.unicode
  | .postgres => s.toList.flatMap F.postgres <:+: text.toList.flatMap F.postgres
  | .mysql => s.toList.map F.mysqlWeight <:+: text.toList.map F.mysqlWeight

instance (d : DialectName) (text s : String) : Decidable (F.Contains d text s) := by
  unfold Foldings.Contains
  cases d <;> infer_instance

/-- The strings without a character that LIKE of the dialect reads as a wildcard or an escape. -/
def LikePlain (d : DialectName) (s : String) : Prop :=
  '%' ∉ s.toList ∧ '_' ∉ s.toList ∧ (d = .sqlite ∨ '\\' ∉ s.toList)

instance (d : DialectName) (s : String) : Decidable (LikePlain d s) :=
  inferInstanceAs (Decidable (_ ∧ _ ∧ _))

theorem likePlain_iff (escape : Option Char) {d : DialectName}
    (h : escape = if d = .sqlite then none else some '\\') :
    LikePlain d s ↔ Plain escape s.toList := by
  subst h
  rw [Logic.Like.plain_iff]
  constructor
  · rintro ⟨hmany, hone, hescape⟩ c hc (rfl | rfl | hsome)
    · exact hmany hc
    · exact hone hc
    · rcases hescape with rfl | hescape
      · cases hsome
      · split at hsome
        · cases hsome
        · cases hsome
          exact hescape hc
  · intro hnone
    refine ⟨fun hc => hnone _ hc (.inl rfl), fun hc => hnone _ hc (.inr (.inl rfl)), ?_⟩
    by_cases hd : d = .sqlite
    · exact .inl hd
    · exact .inr fun hc => hnone _ hc (.inr (.inr (if_neg hd)))

theorem folded_pattern {escape : Option Char} {f : Char → List Char} (hf : Keeps escape f) :
    ("%" ++ s ++ "%").toList.flatMap f = '%' :: (s.toList.flatMap f ++ ['%']) := by
  have hpercent : f '%' = ['%'] := hf.special '%' (.inl rfl)
  rw [String.toList_append, String.toList_append]
  change ('%' :: s.toList ++ ['%']).flatMap f = _
  rw [List.flatMap_append, List.flatMap_cons, List.flatMap_singleton, hpercent]
  rfl

theorem keeps_singleton (escape : Option Char) : Keeps escape fun c => [c] where
  special _ _ := rfl
  other c h := by
    refine ⟨List.cons_ne_nil c [], Logic.Like.plain_iff.mpr fun d hd => ?_⟩
    rwa [List.mem_singleton.mp hd]

theorem like_search_iff {β : Type} [DecidableEq β] {key : Char → β} {escape : Option Char}
    {same : Char → Char → Bool} {f : Char → List Char} (hf : Keeps escape f)
    (hsame : ∀ a b, same a b = true ↔ key a = key b)
    (hdistinct : ∀ w, Special escape w → w ≠ '%' → key '%' ≠ key w)
    (hescape : escape = none ∨ escape = some '\\') :
    (∀ text : String, Logic.Like.like escape same (String.ofList (text.toList.flatMap f))
        (String.ofList (("%" ++ s ++ "%").toList.flatMap f)) = true ↔
          (s.toList.flatMap f).map key <:+: (text.toList.flatMap f).map key) ↔
      Plain escape s.toList := by
  have hmany : escape ≠ some '%' := by rcases hescape with rfl | rfl <;> decide
  have hone : escape ≠ some '_' := by rcases hescape with rfl | rfl <;> decide
  rw [← Logic.Like.search_iff_plain hf hsame hdistinct hmany hone]
  simp only [Logic.Like.like, String.toList_ofList, folded_pattern s hf]
  constructor
  · intro h cs
    have := h (String.ofList cs)
    rwa [String.toList_ofList] at this
  · intro h text
    exact h text.toList

theorem containsIn_iff_likePlain (d : DialectName) (s : String) :
    (∀ text, containsIn d (C.database d) text s = true ↔ F.Contains d text s) ↔ LikePlain d s := by
  cases d with
  | sqlite =>
    have hdistinct : ∀ w, Special none w → w ≠ '%' → '%'.toLower ≠ w.toLower := by
      rintro w (rfl | rfl | h) hne
      · exact absurd rfl hne
      · decide
      · cases h
    have hlower : ∀ cs : List Char,
        (cs.flatMap F.unicode).map Char.toLower = cs.flatMap F.unicode := by
      intro cs
      have hmap : ∀ d ∈ cs.flatMap F.unicode, d.toLower = id d := by
        intro d hd
        obtain ⟨c, -, hd⟩ := List.mem_flatMap.mp hd
        exact F.unicode_lower c d hd
      exact (List.map_congr_left hmap).trans (List.map_id _)
    rw [likePlain_iff s none rfl,
      ← like_search_iff s F.unicode_keeps asciiSame_iff hdistinct (.inl rfl)]
    simp only [containsIn, Collations.database, sqlite, asciiLike, F.unicodeFold_eq, hlower,
      Foldings.Contains]
  | postgres =>
    have hdistinct : ∀ w, Special (some '\\') w → w ≠ '%' → id '%' ≠ id w :=
      fun w _ hne h => hne h.symm
    have hsame : ∀ a b : Char, decide (a = b) = true ↔ id a = id b := by simp
    rw [likePlain_iff s (some '\\') rfl,
      ← like_search_iff s F.postgres_keeps hsame hdistinct (.inr rfl)]
    simp only [containsIn, Collations.database, postgres, exactLike, F.postgresLower_eq,
      Foldings.Contains, List.map_id]
  | mysql =>
    have hdistinct : ∀ w, Special (some '\\') w → w ≠ '%' → F.mysqlWeight '%' ≠ F.mysqlWeight w := by
      rintro w (rfl | rfl | h) hne
      · exact absurd rfl hne
      · exact F.mysql_distinct.1
      · cases h
        exact F.mysql_distinct.2
    rw [likePlain_iff s (some '\\') rfl,
      ← like_search_iff s (keeps_singleton _) F.mysqlSame_iff hdistinct (.inr rfl)]
    simp only [containsIn, Collations.database, mysql, Foldings.Contains, List.flatMap_singleton',
      String.ofList_toList]

def ContentSearchExact : Prop :=
  ∃ st, compileToStatement now opts (containsCall "content" s) = .ok st ∧
    ∀ row : Row, st.selects opts.dialect (C.database opts.dialect) row = true ↔
      F.Contains opts.dialect row.content s

def FilenameSearchExact : Prop :=
  ∃ st, newAttachmentSchema.compileToStatement now opts (containsCall "filename" s) = .ok st ∧
    ∀ row : AttachmentRow,
      st.selectsOn opts.dialect (C.database opts.dialect) row.source = true ↔
        F.Contains opts.dialect row.filename s

variable {now opts s} in
theorem exact_iff_likePlain {α : Type} {compiled : Except String Statement} {st : Statement}
    (hst : compiled = .ok st) (selects : Statement → α → Bool) (text : α → String)
    (hselects : ∀ a, selects st a =
      containsIn opts.dialect (C.database opts.dialect) (text a) s)
    (hany : ∀ t, ∃ a, text a = t) :
    (∃ st, compiled = .ok st ∧
        ∀ a, selects st a = true ↔ F.Contains opts.dialect (text a) s) ↔
      LikePlain opts.dialect s := by
  rw [← containsIn_iff_likePlain F]
  constructor
  · rintro ⟨st', hst', h⟩ t
    obtain rfl : st = st' := Except.ok.inj (hst.symm.trans hst')
    obtain ⟨a, rfl⟩ := hany t
    rw [← hselects a]
    exact h a
  · intro h
    refine ⟨st, hst, fun a => ?_⟩
    rw [hselects a]
    exact h (text a)

/-- Text search is the substring test exactly for the strings without `%`, `_` and, outside of
SQLite, backslashes. -/
theorem textSearch_iff_likePlain :
    (ContentSearchExact now opts s F ↔ LikePlain opts.dialect s) ∧
      (FilenameSearchExact now opts s F ↔ LikePlain opts.dialect s) := by
  constructor
  · obtain ⟨st, hst, hselects⟩ := contains_selectsOn now opts s newSchema "content" rfl rfl
    refine exact_iff_likePlain F hst (fun st (row : Row) => st.selects opts.dialect _ row)
      Row.content (fun row => ?_) (fun t => ⟨{ bareMemo with content := t }, rfl⟩)
    rw [← Statement.selectsOn_row]
    exact hselects _ row.source row.content rfl
  · obtain ⟨st, hst, hselects⟩ := contains_selectsOn now opts s newAttachmentSchema "filename" rfl rfl
    refine exact_iff_likePlain F hst
      (fun st (row : AttachmentRow) => st.selectsOn opts.dialect _ row.source)
      AttachmentRow.filename (fun row => ?_) (fun t => ⟨⟨t, "", 0, none⟩, rfl⟩)
    exact hselects _ row.source row.filename rfl

theorem keeps_toLower {escape : Option Char} (h : escape = none ∨ escape = some '\\') :
    Keeps escape fun c => [c.toLower] := by
  have hspecial : ∀ c, Special escape c → c.toNat < 97 ∧ c.toLower = c := by
    rintro c (rfl | rfl | hc)
    · decide
    · decide
    · rcases h with rfl | rfl
      · cases hc
      · cases hc
        decide
  constructor
  · intro c hc
    rw [(hspecial c hc).2]
  · intro c hc
    refine ⟨List.cons_ne_nil _ [], Logic.Like.plain_iff.mpr fun d hd hd' => ?_⟩
    obtain rfl := List.mem_singleton.mp hd
    rcases Go.toLower_cases c with heq | ⟨hle, -⟩
    · exact hc (heq ▸ hd')
    · have := (hspecial _ hd').1
      omega

def binaryFoldings : Foldings binaryCollations where
  unicode c := [c.toLower]
  unicodeFold_eq text := congrArg String.ofList List.map_eq_flatMap
  unicode_keeps := keeps_toLower (.inl rfl)
  unicode_lower c d hd := by
    rw [List.mem_singleton.mp hd]
    exact Go.toLower_toLower c
  postgres c := [c.toLower]
  postgresLower_eq text := congrArg String.ofList List.map_eq_flatMap
  postgres_keeps := keeps_toLower (.inr rfl)
  mysqlWeight := Char.toNat
  mysqlSame_iff a b := by simp [binaryCollations, Char.toNat_inj]
  mysql_distinct := by decide

theorem textSearch_plain : ContentSearchExact 0 ⟨.postgres, 0⟩ "it's \"Done\"" binaryFoldings ∧
    FilenameSearchExact 0 ⟨.sqlite, 0⟩ "C:\\Report" binaryFoldings :=
  ⟨(textSearch_iff_likePlain 0 ⟨.postgres, 0⟩ _ binaryFoldings).1.mpr (by decide),
    (textSearch_iff_likePlain 0 ⟨.sqlite, 0⟩ _ binaryFoldings).2.mpr (by decide)⟩

/-- A search for `100%` finds a memo without the sign, one for `_with` a filename without the
underscore, and one for a backslash not the text that has it. -/
theorem textSearch_wildcards :
    (∃ st, compileToStatement 0 ⟨.sqlite, 0⟩ (containsCall "content" "100%") = .ok st ∧
      st.selects .sqlite (binaryCollations.database .sqlite)
        { bareMemo with content := "100 euros" } = true) ∧
    ¬binaryFoldings.Contains .sqlite "100 euros" "100%" ∧
    (∃ st, newAttachmentSchema.compileToStatement 0 ⟨.mysql, 0⟩ (containsCall "filename" "_with") =
        .ok st ∧
      st.selectsOn .mysql (binaryCollations.database .mysql)
        (AttachmentRow.source ⟨"notes with.txt", "text/plain", 0, none⟩) = true) ∧
    ¬binaryFoldings.Contains .mysql "notes with.txt" "_with" ∧
    (∃ st, compileToStatement 0 ⟨.postgres, 0⟩ (containsCall "content" "\\") = .ok st ∧
      st.selects .postgres (binaryCollations.database .postgres)
        { bareMemo with content := "c:\\old" } = false) ∧
    binaryFoldings.Contains .postgres "c:\\old" "\\" :=
  ⟨⟨_, rfl, by decide⟩, by decide, ⟨_, rfl, by decide⟩, by decide, ⟨_, rfl, by decide⟩, by decide⟩

end folding

end Memoark.Filter
