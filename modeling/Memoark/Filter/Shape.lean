import Memoark.Filter.Checked
import Memoark.Filter.Lexemes
import Memoark.Filter.Render

/-! The shape of the rendered fragments: where a fragment may stand among operators, and that its
text is well formed exactly when no group and no list in it is empty. -/
namespace Memoark.Filter

open Program (Returns)

/-- The place a fragment stands in: an operand of any operator, a conjunct, or a disjunct. -/
inductive Place where
  | operand
  | conjunct
  | disjunct
  deriving DecidableEq, Repr

/-- The text of the fragment, put in the place, is read as the fragment. An empty group counts
as an operand here. -/
@[grind =] def Sql.fits : Sql → Place → Bool
  | .empty, _ => false
  | .pred _, _ => true
  | .paren .empty, _ => true
  | .paren s, _ => s.fits .disjunct
  | .not s, _ => s.fits .disjunct
  | .and s t, p => p != .operand && s.fits .conjunct && t.fits .conjunct
  | .or s t, p => p == .disjunct && s.fits .disjunct && t.fits .disjunct

def SqlPred.complete : SqlPred → Bool
  | .inList _ us => !us.isEmpty
  | _ => true

@[grind =] def Sql.complete : Sql → Bool
  | .empty => false
  | .pred p => p.complete
  | .paren s => s.complete
  | .and s t => s.complete && t.complete
  | .or s t => s.complete && t.complete
  | .not s => s.complete

@[grind =] def Condition.complete : Condition → Bool
  | .logical op l r =>
    (Condition.logical op l r).constantValue.isSome || (l.complete && r.complete)
  | .not e => e.complete
  | .inList _ values => !values.isEmpty
  | .fieldPredicate _ | .comparison .. | .elementIn .. | .contains .. | .listComprehension ..
  | .constant _ => true

theorem Sql.fits_paren {s : Sql} (h : s.fits .disjunct = true) (p : Place) :
    (Sql.paren s).fits p = true := by
  cases s <;> simp_all [Sql.fits]

theorem Sql.fits_of_operand {s : Sql} (h : s.fits .operand = true) (p : Place) :
    s.fits p = true := by
  cases s with
  | empty => simp [Sql.fits] at h
  | pred q => rfl
  | paren s => cases s <;> simp_all [Sql.fits]
  | not s => simpa [Sql.fits] using h
  | and s t => simp [Sql.fits] at h
  | or s t => simp [Sql.fits] at h

theorem joinOr_fits {conditions : List Sql} (hne : conditions ≠ [])
    (h : ∀ s ∈ conditions, s.fits .operand = true) : (joinOr conditions).fits .disjunct = true := by
  induction conditions with
  | nil => exact absurd rfl hne
  | cons s rest ih =>
    have hs := Sql.fits_of_operand (h s (by simp)) .disjunct
    cases rest with
    | nil => exact hs
    | cons t rest =>
      have hrest := ih (List.cons_ne_nil t rest) fun u hu => h u (List.mem_cons_of_mem s hu)
      simp [joinOr, Sql.fits, hs, hrest]

theorem joinOr_complete {conditions : List Sql} (h : ∀ s ∈ conditions, s.complete = true) :
    (joinOr conditions).complete = !conditions.isEmpty := by
  induction conditions with
  | nil => rfl
  | cons s rest ih =>
    have hs := h s (by simp)
    cases rest with
    | nil => exact hs
    | cons t rest =>
      have hrest := ih fun u hu => h u (List.mem_cons_of_mem s hu)
      simp [joinOr, Sql.complete, hs, hrest]

/-- What a leaf renders to: an operand without flags, complete when the leaf is, with the names
of the schema. -/
structure LeafShape (s : Schema) (cond : Condition) (res : RenderResult) : Prop where
  isTrivial : res.isTrivial = false
  unsatisfiable : res.unsatisfiable = false
  operand : res.sql.fits .operand = true
  complete : res.sql.complete = cond.complete
  plain : s.Plain → cond.Checked s → res.sql.Plain

theorem LeafShape.pred {s : Schema} {cond : Condition} {p : SqlPred}
    (h : p.complete = cond.complete) (hp : s.Plain → cond.Checked s → p.Plain) :
    LeafShape s cond { sql := .pred p } := ⟨rfl, rfl, rfl, h, hp⟩

namespace Renderer

variable {r : Renderer} {cond : Condition} {f : Field} {name : String}

theorem plain_of_lookup (hf : r.lookupField name = .ok f) (hk : f.kind ≠ .virtualAlias)
    (hs : r.schema.Plain) : f.Plain := hs.field (lookupField_eq r hf) (.inl hk)

theorem addArg_plain (a : Arg) : Returns (r.addArg a) SqlTerm.Plain := by
  intro st t st' h
  obtain ⟨rfl, -⟩ : SqlTerm.placeholder r.dialect _ a = t ∧ _ = st' := by
    simpa [addArg] using h
  trivial

theorem addArg_shape {build : SqlTerm → SqlPred} (a : Arg)
    (h : ∀ t, (build t).complete = cond.complete)
    (hp : ∀ t, t.Plain → r.schema.Plain → cond.Checked r.schema → (build t).Plain) :
    Returns (r.addArg a >>= fun t => pure { sql := .pred (build t) })
      (LeafShape r.schema cond) :=
  (addArg_plain a).bind fun t ht => .pure (.pred (h t) (hp t ht))

theorem addBoolArg_eq (r : Renderer) (value : Bool) :
    ∃ a, r.addBoolArg value = r.addArg a := by
  unfold addBoolArg
  split
  · exact ⟨_, rfl⟩
  · exact ⟨_, rfl⟩

theorem renderFieldPredicate_shape (name : String) :
    Returns (r.renderFieldPredicate name) (LeafShape r.schema (.fieldPredicate name)) := by
  unfold renderFieldPredicate
  refine .bindLift fun f hf => ?_
  split
  · rename_i hk
    exact .pure (.pred rfl fun hs _ => (plain_of_lookup hf (by simp [hk]) hs).1)
  · rename_i hk
    have hplain (hs : r.schema.Plain) := (plain_of_lookup hf (by simp [hk]) hs).jsonExtractExpr
    unfold jsonBoolPredicate
    dsimp only
    split
    · exact .pure (.pred rfl fun hs _ => hplain hs r.dialect)
    · exact .pure (.pred rfl fun hs _ => ⟨hplain hs r.dialect, trivial⟩)
    · exact .pure (.pred rfl fun hs _ => hplain hs r.dialect)
  · exact .throw _

theorem renderFunctionComparison_shape (name : String) (args : List ValueExpr)
    (op : ComparisonOperator) (right : ValueExpr) :
    Returns (r.renderFunctionComparison name args op right)
      (LeafShape r.schema (.comparison (.function name args) op right)) := by
  unfold renderFunctionComparison
  refine .check fun _ => ?_
  split
  · refine .bindLift fun f hf => .check fun hk => .bindLift fun value _ => ?_
    have hkind : f.kind = .jsonList := Decidable.not_not.mp hk
    refine addArg_shape _ (fun _ => rfl) fun t ht hs _ => ⟨?_, ht⟩
    exact (plain_of_lookup hf (by simp [hkind]) hs).jsonArrayExpr r.dialect
  · exact .throw _
  · exact .throw _

theorem renderScalarComparison_shape (hf : r.schema.Plain → f.Plain) (left : ValueExpr)
    (op : ComparisonOperator) (right : ValueExpr) :
    Returns (r.renderScalarComparison f op right)
      (LeafShape r.schema (.comparison left op right)) := by
  have hcolumn (hs : r.schema.Plain) := (hf hs).columnExpr r.dialect
  have hbound (a : Arg) : Returns
      (r.addArg a >>= fun t => pure { sql := .pred (.compare (f.columnExpr r.dialect) op t) })
      (LeafShape r.schema (.comparison left op right)) :=
    addArg_shape a (fun _ => rfl) fun t ht hs _ => ⟨hcolumn hs, ht⟩
  unfold renderScalarComparison
  refine .bindLift fun lit _ => ?_
  dsimp only
  split
  · split
    · exact .pure (.pred rfl fun hs _ => hcolumn hs)
    · exact .pure (.pred rfl fun hs _ => hcolumn hs)
    · exact .throw _
  · split
    · split
      · exact hbound _
      · exact .throw _
    · split
      · exact hbound _
      · exact .throw _
    · split
      · exact hbound _
      · exact .throw _
    · exact .throw _

theorem renderBoolColumnComparison_shape (hf : r.schema.Plain → f.Plain) (left : ValueExpr)
    (op : ComparisonOperator) (right : ValueExpr) :
    Returns (r.renderBoolColumnComparison f op right)
      (LeafShape r.schema (.comparison left op right)) := by
  unfold renderBoolColumnComparison
  refine .bindLift fun value _ => ?_
  obtain ⟨a, ha⟩ := addBoolArg_eq r value
  rw [ha]
  exact addArg_shape a (fun _ => rfl) fun t ht hs _ => ⟨(hf hs).1, ht⟩

theorem renderJSONBoolComparison_shape (hf : r.schema.Plain → f.Plain) (left : ValueExpr)
    (op : ComparisonOperator) (right : ValueExpr) :
    Returns (r.renderJSONBoolComparison f op right)
      (LeafShape r.schema (.comparison left op right)) := by
  have hexpr (hs : r.schema.Plain) := (hf hs).jsonExtractExpr r.dialect
  unfold renderJSONBoolComparison
  refine .bindLift fun value _ => ?_
  dsimp only
  split
  · split
    · exact .ite (fun _ => .pure (.pred rfl fun hs _ => ⟨hexpr hs, trivial⟩)) fun _ =>
        .ite (fun _ => .pure (.pred rfl fun hs _ => hexpr hs)) fun _ =>
          .pure (.pred rfl fun hs _ => hexpr hs)
    · exact .ite (fun _ => .pure (.pred rfl fun hs _ => ⟨hexpr hs, trivial⟩)) fun _ =>
        .ite (fun _ => .pure (.pred rfl fun hs _ => hexpr hs)) fun _ =>
          .pure (.pred rfl fun hs _ => hexpr hs)
    · exact .throw _
  · exact .pure (.pred rfl fun hs _ => ⟨hexpr hs, trivial⟩)
  · exact addArg_shape _ (fun _ => rfl) fun t ht hs _ => ⟨hexpr hs, ht⟩

theorem renderComparison_shape (left : ValueExpr) (op : ComparisonOperator) (right : ValueExpr) :
    Returns (r.renderComparison left op right)
      (LeafShape r.schema (.comparison left op right)) := by
  unfold renderComparison
  split
  · refine .bindLift fun f hf => ?_
    split
    · rename_i hk
      exact renderBoolColumnComparison_shape (plain_of_lookup hf (by simp [hk])) _ op right
    · rename_i hk
      exact renderJSONBoolComparison_shape (plain_of_lookup hf (by simp [hk])) _ op right
    · rename_i hk
      exact renderScalarComparison_shape (plain_of_lookup hf (by simp [hk])) _ op right
    · exact .throw _
  · exact renderFunctionComparison_shape _ _ op right
  · exact .throw _

def TagMatch (r : Renderer) (f : Field) (p : SqlPred) : Prop :=
  p.complete = true ∧ ((r.schema.Plain → f.Plain) → r.schema.Plain → p.Plain)

theorem tagExactMatch_shape (f : Field) (tag : String) :
    Returns (r.tagExactMatch f tag) (TagMatch r f) := by
  unfold tagExactMatch
  dsimp only
  split
  all_goals
    refine (addArg_plain _).bind fun t ht => .pure ⟨rfl, fun hf hs => ⟨?_, ht⟩⟩
    exact (hf hs).jsonArrayExpr r.dialect

theorem buildJSONArrayLike_shape (f : Field) (pattern : String) :
    Returns (r.buildJSONArrayLike (jsonArrayExpr r.dialect f) pattern) (TagMatch r f) := by
  unfold buildJSONArrayLike
  split
  all_goals
    refine (addArg_plain _).bind fun t ht => .pure ⟨rfl, fun hf hs => ⟨?_, ht⟩⟩
    exact (hf hs).jsonArrayExpr r.dialect

theorem renderTagElement_shape (hf : r.schema.Plain → f.Plain) (v : ValueExpr) :
    Returns (r.renderTagElement f v) fun s =>
      s.fits .operand = true ∧ s.complete = true ∧ (r.schema.Plain → s.Plain) := by
  unfold renderTagElement
  refine .bindLift fun lit _ => ?_
  split
  · refine (tagExactMatch_shape f _).bind fun p hp => (buildJSONArrayLike_shape f _).bind
      fun q hq => .pure ⟨rfl, ?_, fun hs => ⟨hp.2 hf hs, hq.2 hf hs⟩⟩
    simp [Sql.complete, hp.1, hq.1]
  · exact .throw _

theorem joinOr_plain {conditions : List Sql} (h : ∀ s ∈ conditions, s.Plain) :
    (joinOr conditions).Plain := by
  induction conditions with
  | nil => trivial
  | cons s rest ih =>
    have hs := h s (by simp)
    cases rest with
    | nil => exact hs
    | cons t rest => exact ⟨hs, ih fun u hu => h u (List.mem_cons_of_mem s hu)⟩

theorem renderTagInList_shape (values : List ValueExpr) :
    Returns (r.renderTagInList values)
      (LeafShape r.schema (.inList (.fieldRef "tag") values)) := by
  unfold renderTagInList
  split
  · exact .throw _
  · rename_i f hf
    have hloop := Returns.mapM (l := values)
      (Q := fun as bs => bs.isEmpty = as.isEmpty ∧ ∀ s ∈ bs,
        s.fits .operand = true ∧ s.complete = true ∧ (r.schema.Plain → s.Plain))
      (renderTagElement_shape (r := r) fun hs => hs.tag hf) ⟨rfl, by simp⟩
      fun a b as bs hb hbs => ⟨rfl, by simpa using ⟨hb, hbs.2⟩⟩
    refine hloop.bind fun conditions hc => ?_
    obtain ⟨hempty, hall⟩ := hc
    split
    · rename_i condition
      obtain ⟨hfits, hcomplete, hplain⟩ := hall condition (by simp)
      exact .pure ⟨rfl, rfl, hfits, by simp [hcomplete, Condition.complete, ← hempty],
        fun hs _ => hplain hs⟩
    · have hcomplete := joinOr_complete fun s hs => (hall s hs).2.1
      refine .pure ⟨rfl, rfl, ?_, by simp [Sql.complete, hcomplete, Condition.complete, hempty],
        fun hs _ => joinOr_plain fun s hmem => (hall s hmem).2.2 hs⟩
      by_cases hne : conditions = []
      · rw [hne]
        rfl
      · exact Sql.fits_paren (joinOr_fits hne fun s hs => (hall s hs).1) _

theorem renderScalarElement_plain (f : Field) (v : ValueExpr) :
    Returns (r.renderScalarElement f v) SqlTerm.Plain := by
  unfold renderScalarElement
  refine .bindLift fun lit _ => ?_
  split
  · split
    · exact addArg_plain _
    · exact .throw _
  · exact .bindLift fun num _ => addArg_plain _
  · exact .throw _

theorem renderScalarInCondition_shape (hf : r.schema.Plain → f.Plain) (left : ValueExpr)
    (values : List ValueExpr) :
    Returns (r.renderScalarInCondition f values) (LeafShape r.schema (.inList left values)) := by
  unfold renderScalarInCondition
  have hloop := Returns.mapM (l := values)
    (Q := fun as bs => bs.isEmpty = as.isEmpty ∧ ∀ t ∈ bs, t.Plain)
    (renderScalarElement_plain (r := r) f) ⟨rfl, by simp⟩
    fun a b as bs hb hbs => ⟨rfl, by simpa using ⟨hb, hbs.2⟩⟩
  refine hloop.bind fun ts hts => ?_
  obtain ⟨hempty, hplain⟩ := hts
  refine .pure (.pred ?_ fun hs _ => ⟨(hf hs).columnExpr r.dialect, hplain⟩)
  rw [SqlPred.complete, Condition.complete, hempty]

theorem renderInCondition_shape (left : ValueExpr) (values : List ValueExpr) :
    Returns (r.renderInCondition left values) (LeafShape r.schema (.inList left values)) := by
  unfold renderInCondition
  split
  · refine .ite (fun hn => ?_) fun _ => .bindLift fun f hf => .check fun hk => ?_
    · rw [hn]
      exact renderTagInList_shape values
    · have hkind : f.kind = .scalar := Decidable.not_not.mp hk
      exact renderScalarInCondition_shape (plain_of_lookup hf (by simp [hkind])) _ values
  · exact .throw _

theorem renderElementInCondition_shape (element : ValueExpr) (name : String) :
    Returns (r.renderElementInCondition element name)
      (LeafShape r.schema (.elementIn element name)) := by
  unfold renderElementInCondition
  refine .bindLift fun f hf => .check fun hk => .bindLift fun lit _ => ?_
  have hkind : f.kind = .jsonList := Decidable.not_not.mp hk
  have hplain := plain_of_lookup hf (by simp [hkind])
  split
  · exact (tagExactMatch_shape f _).bind fun p hp =>
      .pure (.pred hp.1 fun hs _ => hp.2 hplain hs)
  · exact .throw _

theorem renderContainsCondition_shape (name value : String) :
    Returns (r.renderContainsCondition name value)
      (LeafShape r.schema (.contains name value)) := by
  unfold renderContainsCondition
  refine .bindLift fun f hf => ?_
  have hplain (hs : r.schema.Plain) (hc : (Condition.contains name value).Checked r.schema) :
      (f.columnExpr r.dialect).Plain := by
    obtain ⟨g, hg, hcontains⟩ := hc
    obtain rfl : g = f := Option.some.inj (hg.symm.trans (lookupField_eq r hf))
    exact (hs.field hg (.inr hcontains)).columnExpr r.dialect
  dsimp only
  split
  all_goals exact addArg_shape _ (fun _ => rfl) fun t ht hs hc => ⟨hplain hs hc, ht⟩

theorem wrapWithNullCheck_shape {condition : Sql} (hplain : r.schema.Plain → f.Plain)
    (hf : condition.fits .conjunct = true) (hc : condition.complete = true)
    (hp : r.schema.Plain → condition.Plain) (hcond : cond.complete = true) :
    LeafShape r.schema cond
      { sql := r.wrapWithNullCheck (jsonArrayExpr r.dialect f) condition } := by
  have harray (hs : r.schema.Plain) := (hplain hs).jsonArrayExpr r.dialect
  have hnull : (SqlPred.isNotNull (jsonArrayExpr r.dialect f)).complete = true := rfl
  have hcheck : (isNotEmptyArray r.dialect (jsonArrayExpr r.dialect f)).complete = true := by
    cases r.dialect <;> rfl
  have hcheckPlain (hs : r.schema.Plain) :
      (isNotEmptyArray r.dialect (jsonArrayExpr r.dialect f)).Plain := by
    have ht := harray hs
    unfold isNotEmptyArray
    split <;> exact ⟨ht, trivial⟩
  refine ⟨rfl, rfl, Sql.fits_paren ?_ _, ?_, fun hs _ => ⟨hp hs, harray hs, hcheckPlain hs⟩⟩
  · simp [Sql.fits, hf]
  · simp [wrapWithNullCheck, Sql.complete, hc, hnull, hcheck, hcond]

theorem renderTagStartsWith_shape (hplain : r.schema.Plain → f.Plain) (start : String)
    (hcond : cond.complete = true) :
    Returns (r.renderTagStartsWith f start) (LeafShape r.schema cond) := by
  unfold renderTagStartsWith
  let pair (p q : SqlPred) : Sql := .paren (.or (.pred p) (.pred q))
  have hpair : ∀ {p q}, TagMatch r f p → TagMatch r f q → LeafShape r.schema cond
      { sql := r.wrapWithNullCheck (jsonArrayExpr r.dialect f) (pair p q) } := by
    intro p q hp hq
    refine wrapWithNullCheck_shape hplain rfl ?_ (fun hs => ⟨hp.2 hplain hs, hq.2 hplain hs⟩) hcond
    simp [pair, Sql.complete, hp.1, hq.1]
  dsimp only
  split
  · exact (tagExactMatch_shape f _).bind fun p hp =>
      (buildJSONArrayLike_shape f _).bind fun q hq => .pure (hpair hp hq)
  · exact (buildJSONArrayLike_shape f _).bind fun p hp =>
      (buildJSONArrayLike_shape f _).bind fun q hq => .pure (hpair hp hq)

theorem renderListComprehension_shape (kind : ComprehensionKind) (name iterVar : String)
    (predicate : PredicateExpr) :
    Returns (r.renderListComprehension name predicate)
      (LeafShape r.schema (.listComprehension kind name iterVar predicate)) := by
  unfold renderListComprehension
  refine .bindLift fun f hf => .check fun hk => ?_
  have hkind : f.kind = .jsonList := Decidable.not_not.mp hk
  have hplain := plain_of_lookup hf (by simp [hkind])
  have hmatch : ∀ {p}, TagMatch r f p →
      LeafShape r.schema (.listComprehension kind name iterVar predicate)
        { sql := r.wrapWithNullCheck (jsonArrayExpr r.dialect f) (.pred p) } :=
    fun hp => wrapWithNullCheck_shape hplain rfl hp.1 (fun hs => hp.2 hplain hs) rfl
  split
  · unfold renderTagEquals
    dsimp only
    split
    · exact (tagExactMatch_shape f _).bind fun p hp => .pure (hmatch hp)
    · exact (buildJSONArrayLike_shape f _).bind fun p hp => .pure (hmatch hp)
  · exact renderTagStartsWith_shape hplain _ rfl
  · exact (buildJSONArrayLike_shape f _).bind fun p hp => .pure (hmatch hp)
  · exact (buildJSONArrayLike_shape f _).bind fun p hp => .pure (hmatch hp)

end Renderer

open Syntax (Lexeme Phrase Malformed Identifier separated wellFormed)

theorem phrase_string : Phrase [.string] := .constant fun _ => rfl

theorem phrase_cast {ls : List Lexeme} (h : Phrase ls) (type : String) :
    Phrase (ls ++ [.operator "::", .word type]) := h.test fun _ _ => rfl

theorem phrase_call {f : String} (hf : Identifier f) {ls : List Lexeme} (h : Phrase ls) :
    Phrase (callLexemes f [ls]) := .call hf (by simpa using h)

theorem phrase_call₂ {f : String} (hf : Identifier f) {ls ms : List Lexeme} (hl : Phrase ls)
    (hm : Phrase ms) : Phrase (callLexemes f [ls, ms]) := .call hf (by simpa using ⟨hl, hm⟩)

theorem phrase_column {c : Column} (h : c.Plain) (d : DialectName) :
    Phrase (columnLexemes d c) := by
  intro brackets
  cases d with
  | postgres =>
    refine ⟨true, ?_⟩
    rw [columnLexemes, Syntax.Position.run_cons, Syntax.Position.next, h.2.operandStep]
    rfl
  | sqlite | mysql => exact ⟨false, rfl⟩

theorem phrase_accessors {path : List String} {terminalText : Bool} {ls : List Lexeme}
    (h : Phrase ls) : Phrase (ls ++ accessorLexemes path terminalText) := by
  induction path generalizing ls with
  | nil => simpa [accessorLexemes] using h
  | cons part path ih =>
    have harrow : Phrase (ls ++ .operator "->" :: [.string]) := h.binary phrase_string fun _ _ => rfl
    have htext : Phrase (ls ++ .operator "->>" :: [.string]) := h.binary phrase_string fun _ _ => rfl
    cases path with
    | nil =>
      cases terminalText with
      | true => exact htext
      | false => exact harrow
    | cons q path =>
      have hrest := ih harrow
      rw [List.append_assoc] at hrest
      exact hrest

theorem phrase_castJson : Phrase castJsonLexemes :=
  phrase_call (by decide) (phrase_string.test fun _ _ => rfl)

theorem SqlTerm.phrase {t : SqlTerm} (h : t.Plain) : Phrase t.lexemes := by
  have harray : Phrase (callLexemes "JSON_ARRAY" []) := .call (by decide) nofun
  induction t with
  | column d c => exact phrase_column h d
  | format e t ih =>
    cases e with
    | self => exact ih h
    | pipeUsers => exact Phrase.group (phrase_string.binary (ih h) fun _ _ => rfl)
    | concatUsers => exact phrase_call₂ (by decide) phrase_string (ih h)
    | unixTimestamp => exact phrase_call (by decide) (ih h)
  | jsonExtract d c path =>
    exact phrase_call₂ (by decide) (phrase_column h.1 d) phrase_string
  | jsonAccess c path terminalText => exact phrase_accessors (phrase_column h.1 .postgres)
  | castBoolean t ih | castText t ih => exact phrase_cast (ih h).group _
  | coalesceFalse t ih => exact phrase_call₂ (by decide) (ih h) phrase_castJson
  | castJson b => exact phrase_castJson
  | arrayLength d t ih =>
    have hcoalesce := phrase_call₂ (f := "COALESCE") (by decide) (ih h) harray
    cases d with
    | sqlite | mysql => exact phrase_call (by decide) hcoalesce
    | postgres =>
      exact phrase_call (by decide) (phrase_call₂ (by decide) (ih h) (phrase_cast phrase_string _))
  | elementCount d t ih => cases d <;> exact phrase_call (by decide) (ih h)
  | unicodeLower t ih => exact phrase_call (by decide) (ih h)
  | number n | emptyArray | placeholder d index value => exact .constant fun _ => rfl

theorem phrase_terms {us : List SqlTerm} (h : ∀ u ∈ us, u.Plain) :
    ∀ ls ∈ us.map SqlTerm.lexemes, Phrase ls := by
  intro ls hls
  obtain ⟨u, hu, rfl⟩ := List.mem_map.mp hls
  exact SqlTerm.phrase (h u hu)

theorem SqlPred.phrase {p : SqlPred} (h : p.Plain) (hc : p.complete = true) :
    Phrase p.lexemes := by
  cases p with
  | isTrue t | isNull t | isNotNull t => exact (SqlTerm.phrase h).test fun _ _ => rfl
  | notIsTrue t => exact ((SqlTerm.phrase h).test fun _ _ => rfl).group.not
  | compare t op u =>
    exact (SqlTerm.phrase h.1).binary (SqlTerm.phrase h.2) fun _ _ => by cases op <;> rfl
  | like t u | ilike t u => exact (SqlTerm.phrase h.1).binary (SqlTerm.phrase h.2) fun _ _ => rfl
  | jsonContains t u => exact phrase_call₂ (by decide) (SqlTerm.phrase h.1) (SqlTerm.phrase h.2)
  | jsonbContains t u =>
    have hcall := phrase_call (f := "jsonb_build_array") (by decide)
      (phrase_cast (SqlTerm.phrase h.2) "json")
    exact (SqlTerm.phrase h.1).binary hcall fun _ _ => rfl
  | inList t us =>
    have hne : us ≠ [] := by
      rintro rfl
      exact absurd hc Bool.false_ne_true
    exact (SqlTerm.phrase h.1).inList (by simpa using hne) (phrase_terms h.2)

theorem SqlPred.malformed {p : SqlPred} (h : p.Plain) (hc : p.complete = false) :
    Malformed p.lexemes := by
  cases p with
  | inList t us =>
    obtain rfl : us = [] := by simpa [SqlPred.complete] using hc
    exact .inList (SqlTerm.phrase h.1)
  | _ => exact absurd hc.symm Bool.false_ne_true

theorem Sql.phrase {s : Sql} (h : s.Plain) (hc : s.complete = true) : Phrase s.lexemes := by
  induction s with
  | empty => exact absurd hc Bool.false_ne_true
  | pred p => exact SqlPred.phrase h hc
  | paren s ih => exact (ih h hc).group
  | not s ih => exact (ih h hc).group.not
  | and s t hs ht | or s t hs ht =>
    obtain ⟨hcs, hct⟩ := Bool.and_eq_true_iff.mp hc
    exact (hs h.1 hcs).binary (ht h.2 hct) fun _ _ => rfl

/-- A fragment with an empty group or list ends in a syntax error. -/
theorem Sql.malformed {s : Sql} {p : Place} (hf : s.fits p = true) (h : s.Plain)
    (hc : s.complete = false) : Malformed s.lexemes := by
  induction s generalizing p with
  | empty => simp [Sql.fits] at hf
  | pred q => exact SqlPred.malformed h hc
  | paren s ih =>
    by_cases hs : s = .empty
    · rw [hs]
      exact .emptyGroup
    · exact (ih (p := .disjunct) (by cases s <;> simp_all [Sql.fits]) h hc).group
  | not s ih => exact (ih (p := .disjunct) hf h hc).group.not
  | and s t hs ht | or s t hs ht =>
    simp only [Sql.fits, Bool.and_eq_true] at hf
    obtain ⟨⟨-, hfs⟩, hft⟩ := hf
    cases hcs : s.complete with
    | false => exact (hs hfs h.1 hcs).append _
    | true =>
      have hct : t.complete = false := by simpa [Sql.complete, hcs] using hc
      exact .binary (Sql.phrase h.1 hcs) (ht hft h.2 hct) fun _ _ => rfl

theorem Sql.wellFormed_text {s : Sql} {p : Place} (hf : s.fits p = true) (h : s.Plain) :
    wellFormed s.text = s.complete := by
  cases hc : s.complete with
  | true => exact (Sql.phrase h hc).wellFormed (Sql.lexes h)
  | false => exact (Sql.malformed hf h hc).wellFormed (Sql.lexes h)

end Memoark.Filter
