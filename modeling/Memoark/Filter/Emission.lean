import Memoark.Filter.Text
import Memoark.Program.Emit

/-! What each leaf of a condition emits: its placeholders are the values bound for it, numbered
on from the state it was rendered in. -/
namespace Memoark.Filter
open Memoark.Program

instance : Log RenderState Arg where
  push st new := ⟨st.placeholderCounter + new.length, st.args ++ new⟩
  push_nil _ := by simp
  push_append _ a b := by simp [Nat.add_assoc]

/-- Values bound after `n` others, with the numbers of their placeholders. -/
def numbered (n : Nat) : List Arg → List (Nat × Arg)
  | [] => []
  | a :: args => (n + 1, a) :: numbered (n + 1) args

theorem numbered_append (n : Nat) (a b : List Arg) :
    numbered n (a ++ b) = numbered n a ++ numbered (n + a.length) b := by
  induction a generalizing n with
  | nil => rfl
  | cons x a ih => simp [numbered, ih, Nat.add_comm, Nat.add_left_comm]

@[simp] theorem length_numbered (n : Nat) (args : List Arg) :
    (numbered n args).length = args.length := by
  induction args generalizing n with
  | nil => rfl
  | cons a args ih => simp [numbered, ih]

def scalarArgs : ValueExpr → Nat
  | .literal .null => 0
  | _ => 1

def comparisonArgs (s : Schema) (d : DialectName) (left right : ValueExpr) : Nat :=
  match left with
  | .fieldRef name =>
    match (s.field name).map Field.kind with
    | some .jsonBool => if d = .postgres then 1 else 0
    | some .scalar => scalarArgs right
    | _ => 1
  | _ => 1

def PredicateExpr.boundArgs : PredicateExpr → Nat
  | .startsWith _ => 2
  | _ => 1

@[grind =] def Condition.boundArgs (s : Schema) (d : DialectName) : Condition → Nat
  | .logical _ l r => l.boundArgs s d + r.boundArgs s d
  | .not e => e.boundArgs s d
  | .fieldPredicate _ => 0
  | .comparison left _ right => comparisonArgs s d left right
  | .inList (.fieldRef name) values =>
    if name = "tag" then 2 * values.length else values.length
  | .inList _ values => values.length
  | .elementIn .. => 1
  | .contains .. => 1
  | .listComprehension _ _ _ predicate => predicate.boundArgs
  | .constant _ => 0

namespace Renderer

variable {r : Renderer}

/-- The placeholders of a fragment are the values bound for it, numbered on from the state. -/
def Places {α : Type} (r : Renderer) (ps : α → List (Nat × Arg)) (ok : α → Prop) :
    RenderState → List Arg → α → Prop := fun st new a =>
  ps a = numbered (r.placeholderOffset + st.placeholderCounter) new ∧ ok a

def Leaf (r : Renderer) : RenderState → List Arg → RenderResult → Prop :=
  r.Places (fun res => res.sql.placeholders) fun res =>
    res.sql.Marked r.dialect ∧ res.isTrivial = false ∧ res.unsatisfiable = false

theorem leaf_pure {s : Sql} (hp : s.placeholders = []) (hm : s.Marked r.dialect)
    (st : RenderState) : r.Leaf st [] { sql := s } := ⟨hp, hm, rfl, rfl⟩

@[simp] theorem columnExpr_placeholders (f : Field) (d : DialectName) :
    (f.columnExpr d).placeholders = [] := by
  unfold Field.columnExpr
  cases f.expressions d <;> rfl

@[simp] theorem jsonExtractExpr_placeholders (d : DialectName) (f : Field) :
    (jsonExtractExpr d f).placeholders = [] := by
  cases d <;> rfl

@[simp] theorem jsonArrayExpr_placeholders (d : DialectName) (f : Field) :
    (jsonArrayExpr d f).placeholders = [] := by
  cases d <;> rfl

theorem addArg_emits (value : Arg) :
    Emits (r.addArg value) 1 (r.Places SqlTerm.placeholders (SqlTerm.Marked r.dialect)) := by
  intro st t st' h
  obtain ⟨rfl, rfl⟩ : SqlTerm.placeholder r.dialect _ value = t ∧ _ = st' := by
    simpa [addArg] using h
  exact ⟨[value], rfl, rfl, rfl, rfl⟩

theorem addBoolArg_emits (value : Bool) :
    Emits (r.addBoolArg value) 1 (r.Places SqlTerm.placeholders (SqlTerm.Marked r.dialect)) := by
  unfold addBoolArg
  split <;> exact addArg_emits _

theorem leaf_of_arg {m : RenderM SqlTerm} {g : SqlTerm → SqlPred}
    (hm : Emits m 1 (r.Places SqlTerm.placeholders (SqlTerm.Marked r.dialect)))
    (hp : ∀ t, (g t).placeholders = t.placeholders)
    (hg : ∀ t, t.Marked r.dialect → (g t).Marked r.dialect) :
    Emits (m >>= fun t => pure { sql := .pred (g t) }) 1 r.Leaf :=
  hm.bindPure fun _ _ t _ h => ⟨(hp t).trans h.1, hg t h.2, rfl, rfl⟩

theorem lookupField_unmarked (hs : r.schema.Unmarked) {name : String} {f : Field}
    (h : r.lookupField name = .ok f) : f.Unmarked := hs.field (lookupField_eq r h)

theorem jsonBoolPredicate_placeholders (f : Field) :
    (r.jsonBoolPredicate f).placeholders = [] := by
  unfold jsonBoolPredicate
  split <;> simp [Sql.placeholders, SqlPred.placeholders, SqlTerm.placeholders]

theorem jsonBoolPredicate_marked {f : Field} (hf : f.Unmarked) :
    (r.jsonBoolPredicate f).Marked r.dialect := by
  have he := hf.jsonExtractExpr r.dialect
  unfold jsonBoolPredicate
  split
  · exact he
  · exact ⟨he, trivial⟩
  · exact he

theorem renderFieldPredicate_emits (hs : r.schema.Unmarked) (name : String) :
    Emits (r.renderFieldPredicate name) 0 r.Leaf := by
  unfold renderFieldPredicate
  refine .bindLift fun f hf => ?_
  have hf := lookupField_unmarked hs hf
  split
  · exact .pure _ rfl (leaf_pure rfl (hf.column _))
  · exact .pure _ rfl (leaf_pure (jsonBoolPredicate_placeholders f) (jsonBoolPredicate_marked hf))
  · exact .throw _

theorem renderFunctionComparison_emits (hs : r.schema.Unmarked) (name : String)
    (args : List ValueExpr) (op : ComparisonOperator) (right : ValueExpr) :
    Emits (r.renderFunctionComparison name args op right) 1 r.Leaf := by
  unfold renderFunctionComparison
  refine .check fun _ => ?_
  split
  · refine .bindLift fun f hf => .check fun _ => .bindLift fun value _ => ?_
    have he := (lookupField_unmarked hs hf).jsonArrayExpr r.dialect
    refine leaf_of_arg (addArg_emits _) (fun t => ?_) fun t ht => ⟨he, ht⟩
    simp [SqlPred.placeholders, jsonArrayLengthExpr, SqlTerm.placeholders]
  · exact .throw _
  · exact .throw _

theorem renderScalarComparison_emits {f : Field} (hf : f.Unmarked) (op : ComparisonOperator)
    (right : ValueExpr) :
    Emits (r.renderScalarComparison f op right) (scalarArgs right) r.Leaf := by
  have he := hf.columnExpr r.dialect
  unfold renderScalarComparison
  refine .bindLift fun lit hlit => ?_
  obtain rfl : right = .literal lit := by
    cases right <;> simp_all [expectLiteral]
  dsimp only
  split
  · split
    · exact .pure _ rfl (leaf_pure (by simp [Sql.placeholders, SqlPred.placeholders]) he)
    · exact .pure _ rfl (leaf_pure (by simp [Sql.placeholders, SqlPred.placeholders]) he)
    · exact .throw _
  · have hn : scalarArgs (.literal lit) = 1 := by
      cases lit <;> first | rfl | simp_all
    have hleaf : ∀ a, Emits (r.addArg a >>= fun t => pure { sql := .pred (.compare
        (f.columnExpr r.dialect) op t) }) 1 r.Leaf := fun a =>
      leaf_of_arg (addArg_emits a) (fun t => by simp [SqlPred.placeholders]) fun t ht => ⟨he, ht⟩
    rw [hn]
    split
    · split
      · exact hleaf _
      · exact .throw _
    · split
      · exact hleaf _
      · exact .throw _
    · split
      · exact hleaf _
      · exact .throw _
    · exact .throw _

theorem renderBoolColumnComparison_emits {f : Field} (hf : f.Unmarked) (op : ComparisonOperator)
    (right : ValueExpr) : Emits (r.renderBoolColumnComparison f op right) 1 r.Leaf := by
  unfold renderBoolColumnComparison
  refine .bindLift fun value _ => ?_
  exact leaf_of_arg (addBoolArg_emits value)
    (fun t => by simp [SqlPred.placeholders, SqlTerm.placeholders])
    fun t ht => ⟨hf.column _, ht⟩

theorem renderJSONBoolComparison_emits {f : Field} (hf : f.Unmarked) (op : ComparisonOperator)
    (right : ValueExpr) :
    Emits (r.renderJSONBoolComparison f op right) (if r.dialect = .postgres then 1 else 0)
      r.Leaf := by
  generalize hn : (if r.dialect = .postgres then 1 else 0) = n
  have he := hf.jsonExtractExpr r.dialect
  unfold renderJSONBoolComparison
  refine .bindLift fun value _ => ?_
  dsimp only
  split
  · rename_i hd
    obtain rfl : n = 0 := by simp [← hn, hd]
    have hcompare : ∀ op b, Emits (pure { sql := .pred (.compare (jsonExtractExpr r.dialect f) op
        (.number b)) } : RenderM RenderResult) 0 r.Leaf := fun op b =>
      .pure _ rfl (leaf_pure (by simp [Sql.placeholders, SqlPred.placeholders,
        SqlTerm.placeholders]) ⟨he, trivial⟩)
    have htrue : Emits (pure { sql := .pred (.isTrue (jsonExtractExpr r.dialect f)) } :
        RenderM RenderResult) 0 r.Leaf :=
      .pure _ rfl (leaf_pure (by simp [Sql.placeholders, SqlPred.placeholders]) he)
    have hnot : Emits (pure { sql := .pred (.notIsTrue (jsonExtractExpr r.dialect f)) } :
        RenderM RenderResult) 0 r.Leaf :=
      .pure _ rfl (leaf_pure (by simp [Sql.placeholders, SqlPred.placeholders]) he)
    split
    · exact .ite (fun _ => hcompare .eq _) fun _ => .ite (fun _ => htrue) fun _ => hnot
    · exact .ite (fun _ => hcompare .neq _) fun _ => .ite (fun _ => hnot) fun _ => htrue
    · exact .throw _
  · rename_i hd
    obtain rfl : n = 0 := by simp [← hn, hd]
    exact .pure _ rfl (leaf_pure (by simp [Sql.placeholders, SqlPred.placeholders,
      SqlTerm.placeholders]) ⟨he, trivial⟩)
  · rename_i hd
    obtain rfl : n = 1 := by simp [← hn, hd]
    exact leaf_of_arg (addArg_emits _)
      (fun t => by simp [SqlPred.placeholders, SqlTerm.placeholders]) fun t ht => ⟨he, ht⟩

theorem renderComparison_emits (hs : r.schema.Unmarked) (left : ValueExpr)
    (op : ComparisonOperator) (right : ValueExpr) :
    Emits (r.renderComparison left op right) (comparisonArgs r.schema r.dialect left right)
      r.Leaf := by
  unfold renderComparison
  split
  · refine .bindLift fun f hf => ?_
    have hfield := lookupField_eq r hf
    have hf := lookupField_unmarked hs hf
    split
    · rename_i hk
      simpa [comparisonArgs, hfield, hk] using renderBoolColumnComparison_emits hf op right
    · rename_i hk
      simpa [comparisonArgs, hfield, hk] using renderJSONBoolComparison_emits hf op right
    · rename_i hk
      simpa [comparisonArgs, hfield, hk] using renderScalarComparison_emits hf op right
    · exact .throw _
  · exact renderFunctionComparison_emits hs _ _ op right
  · exact .throw _

theorem tagExactMatch_emits {f : Field} (hf : f.Unmarked) (tag : String) :
    Emits (r.tagExactMatch f tag) 1 (r.Places SqlPred.placeholders (SqlPred.Marked r.dialect)) := by
  have he := hf.jsonArrayExpr r.dialect
  unfold tagExactMatch
  dsimp only
  split
  all_goals
    exact (addArg_emits _).bindPure fun _ _ t _ h =>
      ⟨by simpa [SqlPred.placeholders] using h.1, he, h.2⟩

theorem buildJSONArrayLike_emits {arrayExpr : SqlTerm} (hp : arrayExpr.placeholders = [])
    (he : arrayExpr.Marked r.dialect) (pattern : String) :
    Emits (r.buildJSONArrayLike arrayExpr pattern) 1
      (r.Places SqlPred.placeholders (SqlPred.Marked r.dialect)) := by
  unfold buildJSONArrayLike
  split
  all_goals
    exact (addArg_emits _).bindPure fun _ _ t _ h =>
      ⟨by simpa [SqlPred.placeholders, SqlTerm.placeholders, hp] using h.1, he, h.2⟩

theorem places_two {α β γ : Type} {pa : α → List (Nat × Arg)} {pb : β → List (Nat × Arg)}
    {pc : γ → List (Nat × Arg)} {oa : α → Prop} {ob : β → Prop} {oc : γ → Prop}
    {m : RenderM α} {m' : RenderM β} {g : α → β → γ} {k l : Nat}
    (hm : Emits m k (r.Places pa oa)) (hm' : Emits m' l (r.Places pb ob))
    (hp : ∀ a b, pc (g a b) = pa a ++ pb b) (ho : ∀ a b, oa a → ob b → oc (g a b)) :
    Emits (m >>= fun a => m' >>= fun b => pure (g a b)) (k + l) (r.Places pc oc) := by
  refine .bind rfl hm fun a => hm'.bindPure fun s new b _ h s₀ new₀ hk hs h₀ => ?_
  subst hs
  refine ⟨?_, ho a b h₀.2 h.2⟩
  rw [hp, h₀.1, h.1, numbered_append]
  simp [push, Nat.add_assoc]

theorem renderTagElement_emits {f : Field} (hf : f.Unmarked) (v : ValueExpr) :
    Emits (r.renderTagElement f v) 2 (r.Places Sql.placeholders (Sql.Marked r.dialect)) := by
  unfold renderTagElement
  refine .bindLift fun lit _ => ?_
  split
  · exact places_two (tagExactMatch_emits hf _)
      (buildJSONArrayLike_emits (by simp) (hf.jsonArrayExpr _) _)
      (fun a b => rfl) fun a b ha hb => ⟨ha, hb⟩
  · exact .throw _

theorem mapM_places {α β : Type} {pb : β → List (Nat × Arg)} {ob : β → Prop}
    {m : α → RenderM β} {k : Nat} (hm : ∀ a, Emits (m a) k (r.Places pb ob)) (as : List α) :
    Emits (as.mapM m) (k * as.length)
      (r.Places (fun bs => bs.flatMap pb) fun bs => ∀ b ∈ bs, ob b) := by
  refine .mapM rfl hm (fun s => ⟨rfl, nofun⟩) fun s new b rest bs _ hb hbs => ⟨?_, ?_⟩
  · rw [numbered_append]
    simp only [List.flatMap_cons, hb.1, hbs.1]
    simp [push, Nat.add_assoc]
  · simpa using ⟨hb.2, hbs.2⟩

theorem joinOr_placeholders (ss : List Sql) :
    (joinOr ss).placeholders = ss.flatMap Sql.placeholders := by
  induction ss with
  | nil => rfl
  | cons s ss ih =>
    cases ss with
    | nil => simp [joinOr]
    | cons t ss => simp [joinOr, Sql.placeholders, ih]

theorem joinOr_marked {ss : List Sql} {d : DialectName} (h : ∀ s ∈ ss, s.Marked d) :
    (joinOr ss).Marked d := by
  induction ss with
  | nil => trivial
  | cons s ss ih =>
    cases ss with
    | nil => exact h s (by simp)
    | cons t ss => exact ⟨h s (by simp), ih fun x hx => h x (List.mem_cons_of_mem s hx)⟩

theorem renderTagInList_emits (hs : r.schema.Unmarked) (values : List ValueExpr) :
    Emits (r.renderTagInList values) (2 * values.length) r.Leaf := by
  unfold renderTagInList
  split
  · exact .throw _
  · rename_i f hf
    have hf := hs.resolveAlias hf
    refine .bind rfl (mapM_places (renderTagElement_emits hf) values) (l := 0) fun conditions => ?_
    split
    · refine .pure _ rfl fun s s₀ new₀ _ _ h => ?_
      exact ⟨by simpa using h.1, h.2 _ (by simp), rfl, rfl⟩
    · refine .pure _ rfl fun s s₀ new₀ _ _ h => ?_
      refine ⟨?_, joinOr_marked h.2, rfl, rfl⟩
      rw [List.append_nil, ← h.1]
      exact joinOr_placeholders conditions

theorem renderScalarElement_emits (f : Field) (v : ValueExpr) :
    Emits (r.renderScalarElement f v) 1
      (r.Places SqlTerm.placeholders (SqlTerm.Marked r.dialect)) := by
  unfold renderScalarElement
  refine .bindLift fun lit _ => ?_
  split
  · split
    · exact addArg_emits _
    · exact .throw _
  · exact .bindLift fun num _ => addArg_emits _
  · exact .throw _

theorem renderScalarInCondition_emits {f : Field} (hf : f.Unmarked) (values : List ValueExpr) :
    Emits (r.renderScalarInCondition f values) values.length r.Leaf := by
  unfold renderScalarInCondition
  have h := mapM_places (renderScalarElement_emits (r := r) f) values
  rw [Nat.one_mul] at h
  refine h.bindPure fun s new us _ hu => ?_
  exact ⟨by simpa [Sql.placeholders, SqlPred.placeholders] using hu.1,
    ⟨hf.columnExpr _, hu.2⟩, rfl, rfl⟩

theorem renderInCondition_emits (hs : r.schema.Unmarked) (left : ValueExpr)
    (values : List ValueExpr) :
    Emits (r.renderInCondition left values)
      (Condition.boundArgs r.schema r.dialect (.inList left values)) r.Leaf := by
  unfold renderInCondition
  split
  · rename_i name
    by_cases hname : name = "tag"
    · simp only [hname, if_true, Condition.boundArgs]
      exact renderTagInList_emits hs values
    · simp only [hname, if_false, Condition.boundArgs]
      refine .bindLift fun f hf => .check fun _ => ?_
      exact renderScalarInCondition_emits (lookupField_unmarked hs hf) values
  · exact .throw _

theorem renderElementInCondition_emits (hs : r.schema.Unmarked) (element : ValueExpr)
    (name : String) : Emits (r.renderElementInCondition element name) 1 r.Leaf := by
  unfold renderElementInCondition
  refine .bindLift fun f hf => .check fun _ => .bindLift fun lit _ => ?_
  split
  · refine (tagExactMatch_emits (lookupField_unmarked hs hf) _).bindPure fun s new p _ h => ?_
    exact ⟨h.1, h.2, rfl, rfl⟩
  · exact .throw _

theorem renderContainsCondition_emits (hs : r.schema.Unmarked) (name value : String) :
    Emits (r.renderContainsCondition name value) 1 r.Leaf := by
  unfold renderContainsCondition
  refine .bindLift fun f hf => ?_
  have he := (lookupField_unmarked hs hf).columnExpr r.dialect
  dsimp only
  split
  all_goals
    exact leaf_of_arg (addArg_emits _)
      (fun t => by simp [SqlPred.placeholders, SqlTerm.placeholders]) fun t ht => ⟨he, ht⟩

theorem wrapWithNullCheck_leaf (r : Renderer) {arrayExpr : SqlTerm} (condition : Sql)
    (hp : arrayExpr.placeholders = []) (he : arrayExpr.Marked r.dialect)
    (hc : condition.Marked r.dialect) :
    (r.wrapWithNullCheck arrayExpr condition).placeholders = condition.placeholders ∧
      (r.wrapWithNullCheck arrayExpr condition).Marked r.dialect := by
  unfold wrapWithNullCheck isNotEmptyArray
  split
  · exact ⟨by simp [Sql.placeholders, SqlPred.placeholders, SqlTerm.placeholders, hp],
      hc, he, he, trivial⟩
  · exact ⟨by simp [Sql.placeholders, SqlPred.placeholders, SqlTerm.placeholders, hp],
      hc, he, he, trivial⟩

theorem leaf_of_match {f : Field} (hf : f.Unmarked) {m : RenderM SqlPred}
    (hm : Emits m 1 (r.Places SqlPred.placeholders (SqlPred.Marked r.dialect))) :
    Emits (m >>= fun p => pure { sql := r.wrapWithNullCheck (jsonArrayExpr r.dialect f) (.pred p) })
      1 r.Leaf := by
  refine hm.bindPure fun s new p _ h => ?_
  obtain ⟨hp, hk⟩ := wrapWithNullCheck_leaf r (.pred p)
    (jsonArrayExpr_placeholders r.dialect f) (hf.jsonArrayExpr r.dialect) h.2
  exact ⟨hp.trans h.1, hk, rfl, rfl⟩

theorem renderTagStartsWith_emits {f : Field} (hf : f.Unmarked) (start : String) :
    Emits (r.renderTagStartsWith f start) 2 r.Leaf := by
  have he := hf.jsonArrayExpr r.dialect
  have hwrap : ∀ p q : SqlPred, p.Marked r.dialect → q.Marked r.dialect → _ := fun p q hp hq =>
    wrapWithNullCheck_leaf r (.paren (.or (.pred p) (.pred q)))
      (jsonArrayExpr_placeholders r.dialect f) he ⟨hp, hq⟩
  have hlike := buildJSONArrayLike_emits (r := r) (jsonArrayExpr_placeholders r.dialect f) he
  unfold renderTagStartsWith
  dsimp only
  split
  all_goals
    refine .bind (k := 1) (l := 1) rfl (by first | exact tagExactMatch_emits hf _ | exact hlike _)
      fun p => (hlike _).bindPure fun s new q _ hq s₀ new₀ hk hs hp => ?_
    subst hs
    obtain ⟨hps, hm⟩ := hwrap p q hp.2 hq.2
    refine ⟨?_, hm, rfl, rfl⟩
    rw [numbered_append, ← hp.1]
    simpa [Sql.placeholders, hq.1, push, Nat.add_assoc] using hps

theorem renderListComprehension_emits (hs : r.schema.Unmarked) (name : String)
    (predicate : PredicateExpr) :
    Emits (r.renderListComprehension name predicate) predicate.boundArgs r.Leaf := by
  unfold renderListComprehension
  refine .bindLift fun f hf => .check fun _ => ?_
  have hf := lookupField_unmarked hs hf
  have hlike := buildJSONArrayLike_emits (r := r) (jsonArrayExpr_placeholders r.dialect f)
    (hf.jsonArrayExpr r.dialect)
  cases predicate with
  | equals value =>
    simp only [renderTagEquals]
    split
    · exact leaf_of_match hf (tagExactMatch_emits hf value)
    · exact leaf_of_match hf (hlike _)
  | startsWith start => exact renderTagStartsWith_emits hf start
  | endsWith suffix => exact leaf_of_match hf (hlike _)
  | contains substring => exact leaf_of_match hf (hlike _)

end Renderer

end Memoark.Filter
