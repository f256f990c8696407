import Memoark.Filter.Parts
import Memoark.Filter.Text
import Memoark.Logic.Quotes

/-! Filters on tags that ask for a string: what they find is a text in the JSON of the array, and
when that is one of the tags. -/
namespace Memoark.Filter
open Logic (Truth)
open Program (Total)

section json

def Unescaped (c : Char) : Prop := c ≠ '"' ∧ c ≠ '\\' ∧ 32 ≤ c.toNat

theorem quoteChar_unescaped {c : Char} (h : Unescaped c) : Js.quoteChar c = [c] := by
  obtain ⟨hquote, hescape, hcontrol⟩ := h
  have hne : ∀ d : Char, d.toNat < 32 → ¬c = d := by
    rintro d hd rfl
    omega
  unfold Js.quoteChar
  rw [if_neg (hne _ (by decide)), if_neg (hne _ (by decide)), if_neg (hne _ (by decide)),
    if_neg (hne _ (by decide)), if_neg (hne _ (by decide)), if_neg hquote, if_neg hescape,
    if_neg (by omega)]

theorem flatMap_unescaped {cs : List Char} (h : ∀ c ∈ cs, Unescaped c) :
    cs.flatMap Js.quoteChar = cs := by
  calc cs.flatMap Js.quoteChar
    _ = cs.flatMap fun c => [c] := List.flatMap_congr fun c hc => quoteChar_unescaped (h c hc)
    _ = cs := by simp

theorem scanPieces_unescaped {cs : List Char} (h : ∀ c ∈ cs, Unescaped c) (rest : List Char) :
    Json.scanPieces (cs ++ '"' :: rest) = some (cs.map .char, rest) := by
  induction cs with
  | nil => rfl
  | cons c cs ih =>
    obtain ⟨hquote, hescape, hcontrol⟩ := h c List.mem_cons_self
    have hrest := ih fun d hd => h d (List.mem_cons_of_mem c hd)
    have hplain : Json.plain c = some (.char c) := if_neg (by omega)
    rw [List.cons_append, Json.scanPieces.eq_5, hrest, hplain]
    · rfl
    · exact hquote
    · rintro a b c d cs heq -
      exact hescape heq
    · rintro e cs heq -
      exact hescape heq

theorem joinPieces_chars (cs : List Char) : Json.joinPieces (cs.map .char) = cs := by
  induction cs with
  | nil => rfl
  | cons c cs ih => rw [List.map_cons, Json.joinPieces, ih]

theorem paired_chars (cs : List Char) : paired (cs.map .char) = true := by
  induction cs with
  | nil => rfl
  | cons c cs ih => rwa [List.map_cons, paired]

theorem toList_quoted (s : String) : (quoted s).toList = '"' :: (s.toList ++ ['"']) := by
  rw [quoted, String.toList_append, String.toList_append]
  rfl

theorem jsonString_unescaped {s : String} (h : ∀ c ∈ s.toList, Unescaped c) :
    jsonString (quoted s) = some s := by
  simp [jsonString, toList_quoted, scanPieces_unescaped h, paired_chars, joinPieces_chars]

end json

section patterns

theorem exactPattern_eq (s : String) : exactPattern s = "%" ++ quoted s ++ "%" := by
  have hstart : "%\"" = "%" ++ "\"" := rfl
  have hend : "\"%" = "\"" ++ "%" := rfl
  rw [exactPattern, quoted, hstart, hend]
  simp only [String.append_assoc]

theorem startPattern_eq (s : String) : startPattern s = "%" ++ ("\"" ++ s) ++ "%" := by
  have hstart : "%\"" = "%" ++ "\"" := rfl
  rw [startPattern, hstart]
  simp only [String.append_assoc]

theorem belowPattern_eq (s : String) : belowPattern s = "%" ++ ("\"" ++ s ++ "/") ++ "%" := by
  have hstart : "%\"" = "%" ++ "\"" := rfl
  have hend : "/%" = "/" ++ "%" := rfl
  rw [belowPattern, hstart, hend]
  simp only [String.append_assoc]

theorem endPattern_eq (s : String) : endPattern s = "%" ++ (s ++ "\"") ++ "%" := by
  have hend : "\"%" = "\"" ++ "%" := rfl
  rw [endPattern, hend]
  simp only [String.append_assoc]

end patterns

def PredicateExpr.text : PredicateExpr → String
  | .equals value => value
  | .startsWith start => start
  | .endsWith suffix => suffix
  | .contains substring => substring

inductive TagFilter where
  | inTags (v : String)
  | exists (predicate : PredicateExpr)
  | tagIn (vs : List String)

def PredicateExpr.call : PredicateExpr → Expr
  | .equals value => .call none "_==_" [.ident "t", .const (.string value)]
  | .startsWith start => .call (some (.ident "t")) "startsWith" [.const (.string start)]
  | .endsWith suffix => .call (some (.ident "t")) "endsWith" [.const (.string suffix)]
  | .contains substring => .call (some (.ident "t")) "contains" [.const (.string substring)]

def TagFilter.expr : TagFilter → Expr
  | .inTags v => .call none "@in" [.const (.string v), .ident "tags"]
  | .exists predicate => .comprehension "t" (.ident "tags") (.const (.bool false))
      (.call none "_||_" [.ident "__result__", predicate.call])
  | .tagIn vs => .call none "@in" [.ident "tag", .list (vs.map fun v => .const (.string v))]

def TagFilter.condition : TagFilter → Condition
  | .inTags v => .elementIn (.literal (.string v)) "tags"
  | .exists predicate => .listComprehension .exists "tags" "t" predicate
  | .tagIn vs => .inList (.fieldRef "tag") (vs.map fun v => .literal (.string v))

def PredicateExpr.Has (t : String) : PredicateExpr → Prop
  | .equals value => t = value
  | .startsWith start => start.toList <+: t.toList
  | .endsWith suffix => suffix.toList <:+ t.toList
  | .contains substring => substring.toList <:+: t.toList

def TagFilter.Asks (tags : List String) : TagFilter → Prop
  | .inTags v => v ∈ tags
  | .exists predicate => ∃ t ∈ tags, predicate.Has t
  | .tagIn vs => ∃ t ∈ tags, ∃ v ∈ vs, t = v ∨ (v ++ "/").toList <+: t.toList

section compile

variable (now : Int) (opts : RenderOptions)

theorem buildCondition_expr (f : TagFilter) :
    buildCondition now newSchema f.expr = .ok f.condition := by
  cases f with
  | inTags v => rfl
  | «exists» predicate => cases predicate <;> rfl
  | tagIn vs =>
    have hvalues : (vs.map fun v => Expr.const (.string v)).mapM (buildValueExpr now newSchema) =
        .ok (vs.map fun v => .literal (.string v)) := by
      induction vs with
      | nil => rfl
      | cons v vs ih =>
        rw [List.map_cons, List.mapM_cons, ih]
        rfl
    change (do return Condition.inList (.fieldRef "tag") (← _) : Except String Condition) = _
    rw [hvalues]
    rfl

theorem renders_tagFilter (f : TagFilter) : Renders opts f.condition := by
  cases f with
  | inTags v =>
    obtain ⟨d, offset⟩ := opts
    cases d
    all_goals exact fun _ => ⟨_, rfl⟩
  | «exists» predicate =>
    obtain ⟨d, offset⟩ := opts
    cases d <;> cases predicate
    all_goals exact fun _ => ⟨_, rfl⟩
  | tagIn vs =>
    let r := newRenderer newSchema opts
    have helement : ∀ f, ∀ v ∈ vs.map fun v => ValueExpr.literal (.string v),
        Total (r.renderTagElement f v) := by
      intro f v hv
      obtain ⟨tag, -, rfl⟩ := List.mem_map.mp hv
      have hpair : Total do
          let exactMatch ← r.tagExactMatch f tag
          let prefixMatch ←
            r.buildJSONArrayLike (jsonArrayExpr r.dialect f) ("%\"" ++ tag ++ "/%")
          return Sql.paren (.or (.pred exactMatch) (.pred prefixMatch)) :=
        (Renderer.tagExactMatch_total r f tag).bind fun _ =>
          (Renderer.buildJSONArrayLike_total r _ _).bind fun _ => .pure _
      exact fun st => hpair st
    refine (Total.mapM (helement _)).bind fun conditions => ?_
    split
    · exact .pure _
    · exact .pure _

theorem tagFilter_compiles (f : TagFilter) :
    ∃ st, compileToStatement now opts f.expr = .ok st ∧ ∀ db row,
      st.selects opts.dialect db row = (f.condition.truth opts.dialect db row == some .true) := by
  have hcond := buildCondition_expr now f
  obtain ⟨st, hst⟩ := (renders_tagFilter opts f).render_ok
  refine ⟨st, by simp [compileToStatement, hcond, hst, Bind.bind, Except.bind], fun db row => ?_⟩
  exact render_selects (buildCondition_checked hcond) hst db row

end compile

section search

def likeKey (d : DialectName) (c : Char) : Char := if d = .sqlite then c.toLower else c

def Within (d : DialectName) (w text : String) : Prop :=
  w.toList.map (likeKey d) <:+: text.toList.map (likeKey d)

instance (d : DialectName) (w text : String) : Decidable (Within d w text) :=
  inferInstanceAs (Decidable (_ <:+: _))

def elementSeparator (d : DialectName) : String := if d = .sqlite then "," else ", "

@[grind =] def TagFilter.compared (d : DialectName) : TagFilter → List String
  | .inTags v => if d = .sqlite then [] else [v]
  | .exists (.equals value) => if d = .postgres then [value] else []
  | .exists (.startsWith start) => if d = .postgres then [start] else []
  | .exists _ => []
  | .tagIn vs => if d = .sqlite then [] else vs

@[grind =] def TagFilter.searched (d : DialectName) : TagFilter → List String
  | .inTags v => if d = .sqlite then [quoted v] else []
  | .exists (.equals value) => if d = .postgres then [] else [quoted value]
  | .exists (.startsWith start) =>
    if d = .postgres then ["\"" ++ start] else [quoted start, "\"" ++ start]
  | .exists (.endsWith suffix) => [suffix ++ "\""]
  | .exists (.contains substring) => [substring]
  | .tagIn vs =>
    (if d = .sqlite then vs.map quoted else []) ++ vs.map fun v => "\"" ++ v ++ "/"

def TagFilter.values : TagFilter → List String
  | .inTags v => [v]
  | .exists predicate => [predicate.text]
  | .tagIn vs => vs

/-- A character that neither JSON nor LIKE gives a meaning. -/
def Verbatim (c : Char) : Prop := Unescaped c ∧ c ≠ '%' ∧ c ≠ '_'

instance : DecidablePred Verbatim := fun _ =>
  inferInstanceAs (Decidable ((_ ∧ _ ∧ _) ∧ _ ∧ _))

def TagFilter.AllVerbatim (f : TagFilter) : Prop := ∀ v ∈ f.values, ∀ c ∈ v.toList, Verbatim c

/-- No character of the filter's strings has a meaning where the dialect uses them: in JSON, and
in LIKE if the filter searches a text. -/
def TagFilter.Plain (d : DialectName) (f : TagFilter) : Prop :=
  ∀ v ∈ f.values, ∀ c ∈ v.toList, Unescaped c ∧ (f.searched d = [] ∨ c ≠ '%' ∧ c ≠ '_')

instance (d : DialectName) (f : TagFilter) : Decidable (f.Plain d) :=
  have (c : Char) : Decidable (Unescaped c) := inferInstanceAs (Decidable (_ ∧ _ ∧ _))
  decidable_of_iff (f.values.all fun v => v.toList.all fun c =>
    decide (Unescaped c ∧ (f.searched d = [] ∨ c ≠ '%' ∧ c ≠ '_'))) (by simp [TagFilter.Plain])

variable {C : Collations} {row : Row} {tags : List String} {v w : String}

/-- Characters of a searched text: those of a value and quotes. -/
def Findable (w : String) : Prop := ∀ c ∈ w.toList, c = '"' ∨ Verbatim c

theorem Findable.plain (h : Findable w) {escape : Option Char}
    (hescape : escape = none ∨ escape = some '\\') : Logic.Like.Plain escape w.toList := by
  intro c hc
  rcases h c hc with rfl | ⟨⟨-, hbackslash, -⟩, hmany, hone⟩
  · refine ⟨by decide, by decide, ?_⟩
    rcases hescape with rfl | rfl <;> decide
  · refine ⟨hmany, hone, ?_⟩
    rcases hescape with rfl | rfl
    · exact nofun
    · exact fun heq => hbackslash (Option.some.inj heq).symm

theorem tagTextMatches_iff (d : DialectName) (h : Findable w) :
    tagTextMatches d (C.database d) row ("%" ++ w ++ "%") = true ↔
      Within d w (arrayText (elementSeparator d) row.tagList) := by
  cases d with
  | sqlite => exact Logic.Like.like_key (by decide) (by simp [asciiSame, likeKey]) (h.plain (.inl rfl))
  | mysql =>
    exact Logic.Like.like_key (by decide) (by simp [likeKey]) (h.plain (.inr rfl))
  | postgres =>
    exact Logic.Like.like_key (by decide) (by simp [likeKey]) (h.plain (.inr rfl))

theorem findable_of_verbatim (hv : ∀ c ∈ v.toList, Verbatim c) : Findable v :=
  fun c hc => .inr (hv c hc)

theorem Findable.append (hv : Findable v) (hw : Findable w) : Findable (v ++ w) := by
  intro c hc
  rw [String.toList_append] at hc
  rcases List.mem_append.mp hc with hc | hc
  · exact hv c hc
  · exact hw c hc

theorem findable_quote : Findable "\"" := by
  intro c hc
  exact .inl (List.mem_singleton.mp hc)

theorem findable_slash : Findable "/" := by
  intro c hc
  obtain rfl := List.mem_singleton.mp hc
  exact .inr ⟨⟨by decide, by decide, by decide⟩, by decide, by decide⟩

theorem findable_quoted (hv : ∀ c ∈ v.toList, Verbatim c) : Findable (quoted v) :=
  (findable_quote.append (findable_of_verbatim hv)).append findable_quote

theorem database_jsonString (d : DialectName) (hv : ∀ c ∈ v.toList, Unescaped c) :
    (C.database d).jsonString (quoted v) = some v := by
  have hstring := jsonString_unescaped hv
  cases d with
  | sqlite => exact hstring
  | mysql => exact hstring
  | postgres =>
    have hnul : '\x00' ∉ v.toList := fun hmem => absurd (hv _ hmem).2.2 (by decide)
    change (jsonString (quoted v)).filter _ = some v
    rw [hstring, Option.filter_some, if_pos (by simpa using hnul)]

/-- MySQL and PostgreSQL compare a tag with the elements of the array. -/
theorem tagMatches_element {d : DialectName} (hd : d ≠ .sqlite)
    (h : (C.database d).jsonString (quoted v) = some v) :
    tagMatches d (C.database d) row v = true ↔ v ∈ row.tagList := by
  cases d with
  | sqlite => exact absurd rfl hd
  | mysql => simp [tagMatches, h]
  | postgres => simp [tagMatches, h]

theorem tagMatches_iff (d : DialectName) (hv : ∀ c ∈ v.toList, Verbatim c) :
    tagMatches d (C.database d) row v = true ↔
      if d = .sqlite then Within d (quoted v) (arrayText (elementSeparator d) row.tagList)
      else v ∈ row.tagList := by
  have hpattern : "%\"" ++ v ++ "\"%" = "%" ++ quoted v ++ "%" := exactPattern_eq v
  have hstring := database_jsonString (C := C) d fun c hc => (hv c hc).1
  cases d with
  | sqlite =>
    have htext : tagTextMatches .sqlite (C.database .sqlite) row ("%" ++ quoted v ++ "%") = true ↔
        _ := tagTextMatches_iff .sqlite (findable_quoted hv)
    rw [if_pos rfl, ← htext, ← hpattern]
    rfl
  | mysql => exact tagMatches_element (by decide) hstring
  | postgres => exact tagMatches_element (by decide) hstring

theorem exactTagHolds_iff (d : DialectName) (hv : ∀ c ∈ v.toList, Verbatim c) :
    exactTagHolds d (C.database d) row v = true ↔
      if d = .postgres then v ∈ row.tagList
      else Within d (quoted v) (arrayText (elementSeparator d) row.tagList) := by
  have hpattern : "%\"" ++ v ++ "\"%" = "%" ++ quoted v ++ "%" := exactPattern_eq v
  cases d with
  | postgres => exact tagMatches_iff .postgres hv
  | sqlite =>
    change tagTextMatches .sqlite (C.database .sqlite) row ("%\"" ++ v ++ "\"%") = true ↔ _
    rw [hpattern]
    exact tagTextMatches_iff .sqlite (findable_quoted hv)
  | mysql =>
    change tagTextMatches .mysql (C.database .mysql) row ("%\"" ++ v ++ "\"%") = true ↔ _
    rw [hpattern]
    exact tagTextMatches_iff .mysql (findable_quoted hv)

/-- A part of the filter finds a tag among the elements, or a text in their JSON. -/
def TagFilter.Finds (d : DialectName) (tags : List String) (f : TagFilter) : Prop :=
  (∃ v ∈ f.compared d, v ∈ tags) ∨
    ∃ w ∈ f.searched d, Within d w (arrayText (elementSeparator d) tags)

theorem tagElementHolds_iff (d : DialectName) (hv : ∀ c ∈ v.toList, Verbatim c) :
    tagElementHolds d (C.database d) row v = true ↔ (TagFilter.tagIn [v]).Finds d row.tagList := by
  have hpattern : "%\"" ++ v ++ "/%" = "%" ++ ("\"" ++ v ++ "/") ++ "%" := belowPattern_eq v
  have hbelow : Findable ("\"" ++ v ++ "/") :=
    (findable_quote.append (findable_of_verbatim hv)).append findable_slash
  rw [tagElementHolds, hpattern, Bool.or_eq_true, tagMatches_iff d hv, tagTextMatches_iff d hbelow]
  cases d <;> simp [TagFilter.Finds, TagFilter.compared, TagFilter.searched]

theorem predicate_holds_iff (d : DialectName) {predicate : PredicateExpr}
    (h : ∀ c ∈ predicate.text.toList, Verbatim c) :
    predicate.holds d (C.database d) row = true ↔
      (TagFilter.exists predicate).Finds d row.tagList := by
  cases predicate with
  | equals value =>
    have hvalue : ∀ c ∈ value.toList, Verbatim c := h
    rw [PredicateExpr.holds, exactTagHolds_iff d hvalue]
    cases d <;> simp [TagFilter.Finds, TagFilter.compared, TagFilter.searched]
  | startsWith start =>
    have hstart : ∀ c ∈ start.toList, Verbatim c := h
    have hpattern : "%\"" ++ start ++ "%" = "%" ++ ("\"" ++ start) ++ "%" := startPattern_eq start
    rw [PredicateExpr.holds, hpattern, Bool.or_eq_true, exactTagHolds_iff d hstart,
      tagTextMatches_iff d (findable_quote.append (findable_of_verbatim hstart))]
    cases d <;> simp [TagFilter.Finds, TagFilter.compared, TagFilter.searched]
  | endsWith suffix =>
    have hsuffix : Findable suffix := findable_of_verbatim h
    have hpattern : "%" ++ suffix ++ "\"%" = "%" ++ (suffix ++ "\"") ++ "%" := endPattern_eq suffix
    rw [PredicateExpr.holds, hpattern, tagTextMatches_iff d (hsuffix.append findable_quote)]
    simp [TagFilter.Finds, TagFilter.compared, TagFilter.searched]
  | contains substring =>
    have hsubstring : Findable substring := findable_of_verbatim h
    rw [PredicateExpr.holds, tagTextMatches_iff d hsubstring]
    simp [TagFilter.Finds, TagFilter.compared, TagFilter.searched]

theorem likeKey_quote (d : DialectName) : likeKey d '"' = '"' := by
  cases d <;> rfl

theorem not_within_empty (d : DialectName) (hw : '"' ∈ w.toList) :
    ¬Within d w (arrayText (elementSeparator d) []) := by
  intro h
  have hmem : '"' ∈ "[]".toList.map (likeKey d) :=
    h.subset (likeKey_quote d ▸ List.mem_map_of_mem hw)
  cases d <;> exact absurd hmem (by decide)

theorem truth_eq_true {cond : Condition} {d : DialectName} {db : Database}
    (hfaulty : cond.faulty d db = false) (hblocked : cond.blocked d db row = false) :
    cond.truth d db row = some .true ↔ cond.holds d db row = true := by
  rw [Condition.truth, hfaulty, hblocked]
  cases cond.holds d db row <;> decide

theorem mem_quoted (v : String) : '"' ∈ (quoted v).toList := by
  rw [toList_quoted]
  exact List.mem_cons_self

theorem finds_tagIn (d : DialectName) (vs : List String) :
    (TagFilter.tagIn vs).Finds d tags ↔ ∃ v ∈ vs, (TagFilter.tagIn [v]).Finds d tags := by
  cases d
  all_goals
    simp only [TagFilter.Finds, TagFilter.compared, TagFilter.searched, List.mem_append,
      List.mem_map, List.map_cons, List.map_nil, List.mem_cons, List.not_mem_nil]
    simp
    try grind

theorem TagFilter.Finds.ne_nil {d : DialectName} {f : TagFilter} (h : f.Finds d tags)
    (hquote : ∀ w ∈ f.searched d, '"' ∈ w.toList) : tags ≠ [] := by
  rintro rfl
  rcases h with ⟨v, -, hv⟩ | ⟨w, hw, hwithin⟩
  · cases hv
  · exact not_within_empty d (hquote w hw) hwithin

theorem truth_tagFilter (d : DialectName) {f : TagFilter} (h : f.AllVerbatim)
    (htags : row.tags = some tags) :
    f.condition.truth d (C.database d) row = some .true ↔ tags ≠ [] ∧ f.Finds d tags := by
  have hlist : row.tagList = tags := by rw [Row.tagList, htags]; rfl
  have hnone : row.tags.isNone = false := by rw [htags]; rfl
  have hjson : ∀ v ∈ f.values, jsonFaulty d (C.database d) v = false := by
    intro v hv
    rw [jsonFaulty, database_jsonString d fun c hc => (h v hv c hc).1]
    simp
  cases f with
  | inTags v =>
    have hv := List.mem_singleton_self v
    have hfaulty : (TagFilter.inTags v).condition.faulty d (C.database d) = false := hjson v hv
    rw [truth_eq_true hfaulty hnone]
    change tagMatches d (C.database d) row v = true ↔ _
    have hfinds : tagMatches d (C.database d) row v = true ↔ (TagFilter.inTags v).Finds d tags := by
      rw [tagMatches_iff d (h v hv), hlist]
      cases d <;> simp [TagFilter.Finds, TagFilter.compared, TagFilter.searched]
    have hquote : ∀ w ∈ (TagFilter.inTags v).searched d, '"' ∈ w.toList := by
      intro w hw
      cases d <;> simp [TagFilter.searched] at hw
      rw [hw]
      exact mem_quoted v
    rw [hfinds]
    exact ⟨fun hf => ⟨hf.ne_nil hquote, hf⟩, And.right⟩
  | «exists» predicate =>
    have hfaulty : (TagFilter.exists predicate).condition.faulty d (C.database d) = false := by
      have := hjson predicate.text (List.mem_singleton_self _)
      cases predicate <;> cases d <;> first | rfl | exact this
    rw [truth_eq_true hfaulty rfl]
    change (!row.tagList.isEmpty && predicate.holds d (C.database d) row) = true ↔ _
    rw [Bool.and_eq_true, predicate_holds_iff d (h predicate.text (List.mem_singleton_self _)),
      hlist]
    simp
  | tagIn vs =>
    by_cases hvs : vs = []
    · subst hvs
      have hfinds : ¬(TagFilter.tagIn []).Finds d tags := by
        cases d <;> simp [TagFilter.Finds, TagFilter.compared, TagFilter.searched]
      constructor
      · intro htruth
        cases htruth
      · intro hf
        exact absurd hf.2 hfinds
    · have hfaulty : (TagFilter.tagIn vs).condition.faulty d (C.database d) = false := by
        change (List.isEmpty _ || List.any _ _) = false
        rw [Bool.or_eq_false_iff, List.any_map, List.any_eq_false]
        refine ⟨by simp [hvs], fun v hv => ?_⟩
        simp [ValueExpr.tag, hjson v hv]
      rw [truth_eq_true hfaulty hnone]
      change List.any _ _ = true ↔ _
      rw [List.any_map, List.any_eq_true, finds_tagIn]
      have hiff : ∀ v ∈ vs, tagElementHolds d (C.database d) row v = true ↔
          (TagFilter.tagIn [v]).Finds d tags := fun v hv => hlist ▸ tagElementHolds_iff d (h v hv)
      have hquote : ∀ v, ∀ w ∈ (TagFilter.tagIn [v]).searched d, '"' ∈ w.toList := by
        intro v w hw
        rcases List.mem_append.mp hw with hw | hw
        · cases d <;> simp at hw
          rw [hw]
          exact mem_quoted v
        · rw [List.mem_singleton.mp hw]
          simp
      constructor
      · rintro ⟨v, hv, hholds⟩
        have hfind := (hiff v hv).mp hholds
        exact ⟨hfind.ne_nil (hquote v), v, hv, hfind⟩
      · rintro ⟨-, v, hv, hfind⟩
        exact ⟨v, hv, (hiff v hv).mpr hfind⟩

end search

section found

variable {C : Collations} {tags : List String} {v w : String}

/-- The text stands around the strings of the array: before the first, behind the last, or
between two, with their quotes. -/
def Around (d : DialectName) (tags : List String) (w : String) : Prop :=
  tags ≠ [] ∧ (Within d w "[\"" ∨ Within d w "\"]" ∨
    2 ≤ tags.length ∧ Within d w ("\"" ++ elementSeparator d ++ "\""))

instance (d : DialectName) (tags : List String) (w : String) : Decidable (Around d tags w) :=
  inferInstanceAs (Decidable (_ ∧ (_ ∨ _ ∨ _ ∧ _)))

open Logic.Quotes (Uncut array following)

theorem toList_stringify (t : String) :
    (Js.stringify t).toList = '"' :: t.toList.flatMap Js.quoteChar ++ ['"'] := by
  simp [Js.stringify]

theorem intercalate_following (sep : String) (t : String) (ts : List String) :
    (sep.intercalate ((t :: ts).map Js.stringify)).toList ++ [']'] =
      '"' :: (t.toList.flatMap Js.quoteChar ++ '"' :: following '"' sep.toList [']']
        (ts.map fun t => t.toList.flatMap Js.quoteChar)) := by
  induction ts generalizing t with
  | nil => simp [toList_stringify, following]
  | cons t' ts ih =>
    rw [List.map_cons, List.map_cons, String.intercalate_cons_cons, String.toList_append,
      String.toList_append, List.append_assoc, ← List.map_cons, ih t', toList_stringify,
      List.map_cons, following]
    simp

theorem toList_arrayText (sep : String) (tags : List String) : (arrayText sep tags).toList =
    array '"' ['['] sep.toList [']'] (tags.map fun t => t.toList.flatMap Js.quoteChar) := by
  cases tags with
  | nil => simp [arrayText, array]
  | cons t ts =>
    rw [arrayText, String.toList_append, String.toList_append, List.append_assoc]
    change ['['] ++ (_ ++ [']']) = _
    rw [intercalate_following, List.map_cons, array]

theorem likeKey_eq_quote {d : DialectName} {c : Char} (h : likeKey d c = '"') : c = '"' := by
  cases d with
  | sqlite =>
    have hlower : c.toLower = '"' := h
    rcases Go.toLower_cases c with heq | ⟨hle, -⟩
    · exact heq.symm.trans hlower
    · rw [hlower] at hle
      exact absurd hle (by decide)
  | mysql => exact h
  | postgres => exact h

theorem within_arrayText {d : DialectName} (hw : Uncut '"' (w.toList.map (likeKey d)))
    (htags : tags ≠ []) :
    Within d w (arrayText (elementSeparator d) tags) ↔
      (∃ t ∈ tags, Within d w (Js.stringify t)) ∨ Around d tags w := by
  obtain ⟨t, ts, rfl⟩ := List.exists_cons_of_ne_nil htags
  let body := fun t : String => (t.toList.flatMap Js.quoteChar).map (likeKey d)
  have htext : (arrayText (elementSeparator d) (t :: ts)).toList.map (likeKey d) =
      array '"' (['['].map (likeKey d)) ((elementSeparator d).toList.map (likeKey d))
        ([']'].map (likeKey d)) (body t :: ts.map body) := by
    rw [toList_arrayText, Logic.Quotes.map_array, likeKey_quote, List.map_map]
    rfl
  have hstring : ∀ t, Within d w (Js.stringify t) ↔
      w.toList.map (likeKey d) <:+: '"' :: body t ++ ['"'] := by
    intro t
    rw [Within, toList_stringify, List.map_append, List.map_cons, List.map_singleton,
      likeKey_quote]
  have hopen : "[\"".toList.map (likeKey d) = ['['].map (likeKey d) ++ ['"'] := by
    cases d <;> rfl
  have hclose : "\"]".toList.map (likeKey d) = '"' :: [']'].map (likeKey d) := by
    cases d <;> rfl
  have hbetween : ("\"" ++ elementSeparator d ++ "\"").toList.map (likeKey d) =
      '"' :: (elementSeparator d).toList.map (likeKey d) ++ ['"'] := by
    cases d <;> rfl
  rw [Within, htext, Logic.Quotes.infix_array hw, ← List.map_cons]
  refine or_congr ?_ ?_
  · constructor
    · rintro ⟨b, hb, h⟩
      obtain ⟨t', ht', rfl⟩ := List.mem_map.mp hb
      exact ⟨t', ht', (hstring t').mpr h⟩
    · rintro ⟨t', ht', h⟩
      exact ⟨body t', List.mem_map_of_mem ht', (hstring t').mp h⟩
  · rw [Around, Within, Within, Within, hopen, hclose, hbetween]
    have hlength : ts.map body ≠ [] ↔ 2 ≤ (t :: ts).length := by
      cases ts <;> simp
    rw [hlength]
    exact ⟨fun h => ⟨htags, h⟩, And.right⟩

theorem notMem_map (d : DialectName) (hv : ∀ c ∈ v.toList, Verbatim c) :
    '"' ∉ v.toList.map (likeKey d) := by
  intro h
  obtain ⟨c, hc, heq⟩ := List.mem_map.mp h
  exact (hv c hc).1.1 (likeKey_eq_quote heq)

theorem searched_cases {d : DialectName} {f : TagFilter} (hw : w ∈ f.searched d) :
    ∃ v ∈ f.values, w = quoted v ∨ w = "\"" ++ v ∨ w = v ++ "\"" ∨ w = v ∨
      w = "\"" ++ v ++ "/" := by
  cases f with
  | inTags v =>
    refine ⟨v, List.mem_singleton_self v, .inl ?_⟩
    cases d <;> simp_all [TagFilter.searched]
  | «exists» predicate =>
    refine ⟨predicate.text, List.mem_singleton_self _, ?_⟩
    cases predicate <;> cases d <;>
      simp_all [TagFilter.searched, PredicateExpr.text] <;> tauto
  | tagIn vs =>
    rcases List.mem_append.mp hw with hw | hw
    · cases d
      · obtain ⟨v, hv, rfl⟩ := List.mem_map.mp hw
        exact ⟨v, hv, .inl rfl⟩
      · cases hw
      · cases hw
    · obtain ⟨v, hv, rfl⟩ := List.mem_map.mp hw
      exact ⟨v, hv, .inr (.inr (.inr (.inr rfl)))⟩

theorem searched_uncut {d : DialectName} {f : TagFilter} (h : f.AllVerbatim) :
    ∀ w ∈ f.searched d, Uncut '"' (w.toList.map (likeKey d)) := by
  have hquoted : ∀ v, '"' ∉ v.toList.map (likeKey d) →
      Uncut '"' ((quoted v).toList.map (likeKey d)) := by
    intro v hv
    rw [toList_quoted, List.map_cons, List.map_append, List.map_singleton, likeKey_quote]
    exact .enclosed hv
  have hstart : ∀ v, '"' ∉ v.toList.map (likeKey d) →
      Uncut '"' (("\"" ++ v).toList.map (likeKey d)) := by
    intro v hv
    rw [String.toList_append, List.map_append]
    change Uncut '"' (likeKey d '"' :: _)
    rw [likeKey_quote]
    exact .cons hv
  have hend : ∀ v, '"' ∉ v.toList.map (likeKey d) →
      Uncut '"' ((v ++ "\"").toList.map (likeKey d)) := by
    intro v hv
    rw [String.toList_append, List.map_append]
    change Uncut '"' (_ ++ [likeKey d '"'])
    rw [likeKey_quote]
    exact .concat hv
  have hbelow : ∀ v, '"' ∉ v.toList.map (likeKey d) →
      Uncut '"' (("\"" ++ v ++ "/").toList.map (likeKey d)) := by
    intro v hv
    rw [String.append_assoc]
    refine hstart (v ++ "/") fun hmem => ?_
    rw [String.toList_append, List.map_append] at hmem
    rcases List.mem_append.mp hmem with hmem | hmem
    · exact hv hmem
    · cases d <;> exact absurd hmem (by decide)
  intro w hw
  obtain ⟨v, hv, hcases⟩ := searched_cases hw
  have hnot := notMem_map d (h v hv)
  rcases hcases with rfl | rfl | rfl | rfl | rfl
  · exact hquoted v hnot
  · exact hstart v hnot
  · exact hend v hnot
  · exact Logic.Quotes.uncut_of_notMem hnot
  · exact hbelow v hnot

theorem within_of_mem {d : DialectName} (hw : Uncut '"' (w.toList.map (likeKey d))) {t : String}
    (ht : t ∈ tags) (h : w.toList <:+: (Js.stringify t).toList) :
    Within d w (arrayText (elementSeparator d) tags) :=
  (within_arrayText hw (List.ne_nil_of_mem ht)).mpr (.inl ⟨t, ht, h.map (likeKey d)⟩)

theorem finds_of_asks (d : DialectName) {f : TagFilter} (h : f.AllVerbatim) (hasks : f.Asks tags) :
    f.Finds d tags := by
  have hfound : ∀ w ∈ f.searched d, ∀ t ∈ tags, w.toList <:+: (Js.stringify t).toList →
      f.Finds d tags := fun w hw t ht hinfix =>
    .inr ⟨w, hw, within_of_mem (searched_uncut h w hw) ht hinfix⟩
  have hbody : ∀ v : String, (∀ c ∈ v.toList, Verbatim c) → v.toList.flatMap Js.quoteChar = v.toList :=
    fun v hv => flatMap_unescaped fun c hc => (hv c hc).1
  have hwhole : ∀ v : String, (∀ c ∈ v.toList, Verbatim c) →
      (quoted v).toList <:+: (Js.stringify v).toList := by
    intro v hv
    rw [toList_stringify, hbody v hv, toList_quoted]
    exact List.infix_rfl
  have hstart : ∀ v t : String, (∀ c ∈ v.toList, Verbatim c) → v.toList <+: t.toList →
      ("\"" ++ v).toList <:+: (Js.stringify t).toList := by
    rintro v t hv ⟨rest, hrest⟩
    rw [toList_stringify, ← hrest, List.flatMap_append, hbody v hv, String.toList_append]
    exact ⟨[], rest.flatMap Js.quoteChar ++ ['"'], by simp⟩
  cases f with
  | inTags v =>
    have hv := h v (List.mem_singleton_self v)
    by_cases hd : d = .sqlite
    · exact hfound (quoted v) (by simp [TagFilter.searched, hd]) v hasks (hwhole v hv)
    · exact .inl ⟨v, by simp [TagFilter.compared, hd], hasks⟩
  | «exists» predicate =>
    obtain ⟨t, ht, hhas⟩ := hasks
    have hv := h predicate.text (List.mem_singleton_self _)
    cases predicate with
    | equals value =>
      obtain rfl : t = value := hhas
      by_cases hd : d = .postgres
      · exact .inl ⟨t, by simp [TagFilter.compared, hd], ht⟩
      · exact hfound (quoted t) (by simp [TagFilter.searched, hd]) t ht (hwhole t hv)
    | startsWith start =>
      refine hfound ("\"" ++ start) ?_ t ht (hstart start t hv hhas)
      cases d <;> simp [TagFilter.searched]
    | endsWith suffix =>
      obtain ⟨rest, hrest⟩ := hhas
      refine hfound (suffix ++ "\"") (List.mem_singleton_self _) t ht ?_
      rw [toList_stringify, ← hrest, List.flatMap_append, hbody suffix hv, String.toList_append]
      exact ⟨'"' :: rest.flatMap Js.quoteChar, [], by simp⟩
    | contains substring =>
      obtain ⟨before, after, htext⟩ := hhas
      refine hfound substring (List.mem_singleton_self _) t ht ?_
      rw [toList_stringify, ← htext, List.flatMap_append, List.flatMap_append, hbody substring hv]
      exact ⟨'"' :: before.flatMap Js.quoteChar, after.flatMap Js.quoteChar ++ ['"'], by simp⟩
  | tagIn vs =>
    obtain ⟨t, ht, v, hv, rfl | hbelow⟩ := hasks
    · by_cases hd : d = .sqlite
      · subst hd
        exact hfound (quoted t) (List.mem_append_left _ (List.mem_map_of_mem hv)) t ht
          (hwhole t (h t hv))
      · exact .inl ⟨t, by simp [TagFilter.compared, hd, hv], ht⟩
    · have hslash : ∀ c ∈ (v ++ "/").toList, Verbatim c := by
        intro c hc
        rw [String.toList_append] at hc
        rcases List.mem_append.mp hc with hc | hc
        · exact h v hv c hc
        · obtain rfl := List.mem_singleton.mp hc
          exact ⟨⟨by decide, by decide, by decide⟩, by decide, by decide⟩
      have hinfix := hstart (v ++ "/") t hslash hbelow
      rw [← String.append_assoc] at hinfix
      refine hfound ("\"" ++ v ++ "/") ?_ t ht hinfix
      exact List.mem_append_right _ (List.mem_map_of_mem (f := fun v => "\"" ++ v ++ "/") hv)

theorem asks_of_compared {d : DialectName} {f : TagFilter} (hv : v ∈ f.compared d)
    (hmem : v ∈ tags) : f.Asks tags := by
  cases f with
  | inTags value =>
    obtain rfl : v = value := by cases d <;> simp_all [TagFilter.compared]
    exact hmem
  | «exists» predicate =>
    refine ⟨v, hmem, ?_⟩
    cases predicate with
    | equals value => cases d <;> simp_all [TagFilter.compared, PredicateExpr.Has]
    | startsWith start =>
      obtain rfl : v = start := by cases d <;> simp_all [TagFilter.compared]
      exact List.prefix_rfl
    | endsWith suffix => cases hv
    | contains substring => cases hv
  | tagIn vs =>
    refine ⟨v, hmem, v, ?_, .inl rfl⟩
    cases d
    · cases hv
    · exact hv
    · exact hv

variable (now : Int) (opts : RenderOptions) (C) (f : TagFilter) (tags)

def TagFilter.Exact : Prop :=
  ∃ st, compileToStatement now opts f.expr = .ok st ∧ ∀ row : Row, row.tags = some tags →
    (st.selects opts.dialect (C.database opts.dialect) row = true ↔ f.Asks tags)

variable {C tags now opts f} in
theorem exact_of_searched (h : f.AllVerbatim) : f.Exact C tags now opts ↔
    f.Asks tags ∨ ∀ w ∈ f.searched opts.dialect,
      (∀ t ∈ tags, ¬Within opts.dialect w (Js.stringify t)) ∧ ¬Around opts.dialect tags w := by
  obtain ⟨st, hst, hselects⟩ := tagFilter_compiles now opts f
  have htruth : ∀ row : Row, row.tags = some tags →
      (st.selects opts.dialect (C.database opts.dialect) row = true ↔
        tags ≠ [] ∧ f.Finds opts.dialect tags) := by
    intro row htags
    rw [hselects, beq_iff_eq]
    exact truth_tagFilter opts.dialect h htags
  have hwithin : tags ≠ [] → ∀ w ∈ f.searched opts.dialect,
      (Within opts.dialect w (arrayText (elementSeparator opts.dialect) tags) ↔
        (∃ t ∈ tags, Within opts.dialect w (Js.stringify t)) ∨ Around opts.dialect tags w) :=
    fun hne w hw => within_arrayText (searched_uncut h w hw) hne
  constructor
  · rintro ⟨st', hst', hexact⟩
    obtain rfl : st = st' := Except.ok.inj (hst.symm.trans hst')
    by_cases hasks : f.Asks tags
    · exact .inl hasks
    · refine .inr fun w hw => ?_
      have hnot : ¬(tags ≠ [] ∧ f.Finds opts.dialect tags) := by
        rw [← htruth { bareMemo with tags := some tags } rfl, hexact _ rfl]
        exact hasks
      constructor
      · intro t ht hfound
        have hne := List.ne_nil_of_mem ht
        exact hnot ⟨hne, .inr ⟨w, hw, (hwithin hne w hw).mpr (.inl ⟨t, ht, hfound⟩)⟩⟩
      · intro haround
        exact hnot ⟨haround.1, .inr ⟨w, hw, (hwithin haround.1 w hw).mpr (.inr haround)⟩⟩
  · intro hcond
    refine ⟨st, hst, fun row htags => ?_⟩
    rw [htruth row htags]
    constructor
    · rintro ⟨hne, ⟨v, hv, hmem⟩ | ⟨w, hw, hfound⟩⟩
      · exact asks_of_compared hv hmem
      · rcases hcond with hasks | hnone
        · exact hasks
        · rcases (hwithin hne w hw).mp hfound with ⟨t, ht, hstring⟩ | haround
          · exact absurd hstring ((hnone w hw).1 t ht)
          · exact absurd haround (hnone w hw).2
    · intro hasks
      refine ⟨?_, finds_of_asks opts.dialect h hasks⟩
      rintro rfl
      cases f with
      | inTags v => cases hasks
      | «exists» predicate =>
        obtain ⟨t, ht, -⟩ := hasks
        cases ht
      | tagIn vs =>
        obtain ⟨t, ht, -⟩ := hasks
        cases ht

variable {C tags now opts f} in
theorem exact_of_compared (hsearched : f.searched opts.dialect = [])
    (h : ∀ v ∈ f.values, ∀ c ∈ v.toList, Unescaped c) : f.Exact C tags now opts := by
  obtain ⟨st, hst, hselects⟩ := tagFilter_compiles now opts f
  refine ⟨st, hst, fun row htags => ?_⟩
  rw [hselects, beq_iff_eq]
  have hlist : row.tagList = tags := by rw [Row.tagList, htags]; rfl
  have hnone : row.tags.isNone = false := by rw [htags]; rfl
  cases f with
  | inTags v =>
    have hd : opts.dialect ≠ .sqlite := by
      intro hd
      simp [TagFilter.searched, hd] at hsearched
    have hstring := database_jsonString (C := C) opts.dialect (h v (List.mem_singleton_self v))
    have hfaulty : (TagFilter.inTags v).condition.faulty opts.dialect
        (C.database opts.dialect) = false := by
      change jsonFaulty _ _ v = false
      simp [jsonFaulty, hstring]
    rw [truth_eq_true hfaulty hnone]
    change tagMatches _ _ row v = true ↔ v ∈ tags
    rw [tagMatches_element hd hstring, hlist]
  | «exists» predicate =>
    cases predicate with
    | equals value =>
      have hd : opts.dialect = .postgres := by
        by_contra hd
        simp [TagFilter.searched, hd] at hsearched
      have hstring := database_jsonString (C := C) opts.dialect
        (h value (List.mem_singleton_self value))
      have hfaulty : (TagFilter.exists (.equals value)).condition.faulty opts.dialect
          (C.database opts.dialect) = false := by
        change exactTagFaulty _ _ value = false
        rw [hd] at hstring ⊢
        simp [exactTagFaulty, jsonFaulty, hstring]
      rw [truth_eq_true hfaulty rfl]
      change (!row.tagList.isEmpty && exactTagHolds _ _ row value) = true ↔ ∃ t ∈ tags, t = value
      have hholds : exactTagHolds opts.dialect (C.database opts.dialect) row value =
          tagMatches opts.dialect (C.database opts.dialect) row value := by
        rw [hd]
        rfl
      rw [hholds, Bool.and_eq_true, tagMatches_element (by simp [hd]) hstring, hlist,
        exists_eq_right]
      exact ⟨And.right, fun hmem => ⟨by simp [List.ne_nil_of_mem hmem], hmem⟩⟩
    | startsWith start => cases hd : opts.dialect <;> simp [TagFilter.searched, hd] at hsearched
    | endsWith suffix => cases hsearched
    | contains substring => cases hsearched
  | tagIn vs =>
    have hvs : vs.map (fun v => "\"" ++ v ++ "/") = [] := (List.append_eq_nil_iff.mp hsearched).2
    obtain rfl := List.map_eq_nil_iff.mp hvs
    constructor
    · intro htruth
      cases htruth
    · rintro ⟨t, -, v, hv, -⟩
      cases hv

/-- A filter whose strings have no meaning where the dialect uses them is exact when it asks for
one of the tags, or else when the searched texts are neither in the string of a tag nor around the
strings. -/
theorem tagFilter_exact_iff (h : f.Plain opts.dialect) : f.Exact C tags now opts ↔
    f.Asks tags ∨ ∀ w ∈ f.searched opts.dialect,
      (∀ t ∈ tags, ¬Within opts.dialect w (Js.stringify t)) ∧ ¬Around opts.dialect tags w := by
  by_cases hsearched : f.searched opts.dialect = []
  · have hexact : f.Exact C tags now opts :=
      exact_of_compared hsearched fun v hv c hc => (h v hv c hc).1
    refine iff_of_true hexact (.inr fun w hw => ?_)
    rw [hsearched] at hw
    cases hw
  · refine exact_of_searched fun v hv c hc => ?_
    obtain ⟨hjson, hempty | hlike⟩ := h v hv c hc
    · exact absurd hempty hsearched
    · exact ⟨hjson, hlike⟩

/-- SQLite finds the tag `work` among its own, and no tag of MySQL with `or` in it. -/
theorem tagFilter_exact_work :
    (TagFilter.inTags "work").Exact binaryCollations ["work", "home"] 0 ⟨.sqlite, 0⟩ ∧
      (TagFilter.exists (.contains "or")).Exact binaryCollations ["home"] 0 ⟨.mysql, 0⟩ :=
  ⟨(tagFilter_exact_iff binaryCollations _ 0 ⟨.sqlite, 0⟩ (.inTags "work") (by decide)).mpr
      (.inl List.mem_cons_self),
    (tagFilter_exact_iff binaryCollations _ 0 ⟨.mysql, 0⟩ (.exists (.contains "or"))
      (by decide)).mpr (.inr (by decide))⟩

/-- SQLite finds the tag `Work` by `work`, MySQL finds a tag that starts with a comma between two
others, and no tag with a quote is found. -/
theorem tagFilter_misread :
    (∃ st, compileToStatement 0 ⟨.sqlite, 0⟩ (TagFilter.inTags "work").expr = .ok st ∧
      st.selects .sqlite (binaryCollations.database .sqlite) (taggedMemo "Work") = true) ∧
    "work" ∉ ["Work"] ∧
    (∃ st, compileToStatement 0 ⟨.mysql, 0⟩ (TagFilter.exists (.startsWith ",")).expr = .ok st ∧
      st.selects .mysql (binaryCollations.database .mysql)
        { bareMemo with tags := some ["a", "b"] } = true) ∧
    (∀ t ∈ ["a", "b"], ¬",".toList <+: t.toList) ∧
    (∃ st, compileToStatement 0 ⟨.postgres, 0⟩ (TagFilter.inTags "a\"b").expr = .ok st ∧
      st.selects .postgres (binaryCollations.database .postgres) (taggedMemo "a\"b") = false) ∧
    "a\"b" ∈ ["a\"b"] :=
  ⟨⟨_, rfl, by decide⟩, by decide, ⟨_, rfl, by decide⟩, by decide, ⟨_, rfl, by decide⟩, by decide⟩

end found

end Memoark.Filter
