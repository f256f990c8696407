import Memoark.Filter.Emission
import Memoark.Filter.Render

/-! Rendering keeps placeholders and bound values in step, except where a combination drops
the text of a constant operand that has bound values. -/
namespace Memoark.Filter
open Memoark.Program

@[grind =] def Condition.subconditions : Condition → List Condition
  | .logical op l r => .logical op l r :: (l.subconditions ++ r.subconditions)
  | .not e => .not e :: e.subconditions
  | cond => [cond]

def Condition.ConstantsBindNothing (s : Schema) (d : DialectName) (cond : Condition) : Prop :=
  ∀ c ∈ cond.subconditions, c.constantValue.isSome → c.boundArgs s d = 0

theorem Condition.self_mem (cond : Condition) : cond ∈ cond.subconditions := by
  cases cond <;> simp [subconditions]

theorem Condition.boundArgs_le {s : Schema} {d : DialectName} {cond c : Condition}
    (h : c ∈ cond.subconditions) : c.boundArgs s d ≤ cond.boundArgs s d := by
  induction cond with
  | logical op l r hl hr =>
    simp only [subconditions, List.mem_cons, List.mem_append] at h
    rcases h with rfl | h | h
    · exact Nat.le_refl _
    · exact Nat.le_trans (hl h) (Nat.le_add_right _ _)
    · exact Nat.le_trans (hr h) (Nat.le_add_left _ _)
  | not e he =>
    simp only [subconditions, List.mem_cons] at h
    rcases h with rfl | h
    · exact Nat.le_refl _
    · exact he h
  | _ =>
    obtain rfl := List.mem_singleton.mp h
    exact Nat.le_refl _

namespace Condition.ConstantsBindNothing

variable {s : Schema} {d : DialectName} {cond l r : Condition} {op : LogicalOperator}

theorem of_boundArgs (h : cond.boundArgs s d = 0) : cond.ConstantsBindNothing s d := by
  intro c hc _
  exact Nat.eq_zero_of_le_zero (h ▸ boundArgs_le hc)

theorem boundArgs_eq (h : cond.ConstantsBindNothing s d) (hc : cond.constantValue.isSome) :
    cond.boundArgs s d = 0 := h cond cond.self_mem hc

theorem logical_iff (hc : (Condition.logical op l r).constantValue = none) :
    (Condition.logical op l r).ConstantsBindNothing s d ↔
      l.ConstantsBindNothing s d ∧ r.ConstantsBindNothing s d := by
  constructor
  · intro h
    exact ⟨fun c hl => h c (by simp [subconditions, hl]), fun c hr => h c (by simp [subconditions, hr])⟩
  · rintro ⟨hl, hr⟩ c hmem hsome
    simp only [subconditions, List.mem_cons, List.mem_append] at hmem
    rcases hmem with rfl | h | h
    · simp [hc] at hsome
    · exact hl c h hsome
    · exact hr c h hsome

theorem not_iff : (Condition.not l).ConstantsBindNothing s d ↔ l.ConstantsBindNothing s d := by
  constructor
  · intro h c hc
    exact h c (by simp [subconditions, hc])
  · intro h c hmem hsome
    simp only [subconditions, List.mem_cons] at hmem
    rcases hmem with rfl | hmem
    · exact h.boundArgs_eq (by simpa [constantValue] using hsome)
    · exact h c hmem hsome

end Condition.ConstantsBindNothing

/-- How a combination uses its operands: their placeholders are all kept, or those of a
constant operand are dropped, or the whole is a constant. -/
inductive Combined (cond l r : Condition) (a b res : RenderResult) : Prop
  | constant (hc : cond.constantValue.isSome) (hp : res.sql.placeholders = [])
  | right (hc : cond.constantValue = none) (hl : l.constantValue.isSome) (hres : res = b)
  | left (hc : cond.constantValue = none) (hr : r.constantValue.isSome) (hres : res = a)
  | both (hc : cond.constantValue = none)
      (hp : res.sql.placeholders = a.sql.placeholders ++ b.sql.placeholders)

section combine

variable (op : LogicalOperator) {l r : Condition} {a b : RenderResult} {d : DialectName}

theorem placeholders_decided : op.decided.sql.placeholders = [] := by
  cases op <;> rfl

theorem placeholders_join (s t : Sql) :
    (op.join s t).placeholders = s.placeholders ++ t.placeholders := by
  cases op <;> rfl

theorem marked_decided : op.decided.sql.Marked d := by
  cases op with
  | and => exact ⟨trivial, trivial⟩
  | or => trivial

theorem marked_join {s t : Sql} (hs : s.Marked d) (ht : t.Marked d) :
    (op.join s t).Marked d := by
  cases op with
  | and => exact ⟨hs, ht⟩
  | or => exact ⟨hs, ht⟩

theorem combine_combined (hl : Outcome l a) (hr : Outcome r b)
    (ha : l.constantValue.isSome → a.sql.placeholders = [])
    (hb : r.constantValue.isSome → b.sql.placeholders = []) :
    Combined (.logical op l r) l r a b (Renderer.combine op a b) := by
  rcases combine_cases op hl hr with
    ⟨hc, hres⟩ | ⟨hneutral, hc, hres⟩ | ⟨hneutral, hc, hres⟩ | ⟨-, -, hc, hres⟩
  · exact .constant (by rw [hc]; rfl) (by rw [hres, placeholders_decided])
  · cases hv : r.constantValue with
    | none => exact .right (hc.trans hv) (by rw [hneutral]; rfl) hres
    | some v => exact .constant (by rw [hc, hv]; rfl) (by rw [hres, hb (by rw [hv]; rfl)])
  · cases hv : l.constantValue with
    | none => exact .left (hc.trans hv) (by rw [hneutral]; rfl) hres
    | some v => exact .constant (by rw [hc, hv]; rfl) (by rw [hres, ha (by rw [hv]; rfl)])
  · exact .both hc (by rw [hres]; exact placeholders_join op a.sql b.sql)

theorem combine_marked (hl : Outcome l a) (hr : Outcome r b) (ha : a.sql.Marked d)
    (hb : b.sql.Marked d) : (Renderer.combine op a b).sql.Marked d := by
  rcases combine_cases op hl hr with
    ⟨-, hres⟩ | ⟨-, -, hres⟩ | ⟨-, -, hres⟩ | ⟨-, -, -, hres⟩ <;> rw [hres]
  · exact marked_decided op
  · exact hb
  · exact ha
  · exact marked_join op ha hb

end combine

/-- All placeholders of the condition are kept exactly if its constants bind nothing. -/
structure Rendered (r : Renderer) (cond : Condition) (st : RenderState) (new : List Arg)
    (res : RenderResult) : Prop where
  outcome : Outcome cond res
  marked : res.sql.Marked r.dialect
  constant : cond.constantValue.isSome → res.sql.placeholders = []
  kept : cond.ConstantsBindNothing r.schema r.dialect →
    res.sql.placeholders = numbered (r.placeholderOffset + st.placeholderCounter) new
  lost : ¬cond.ConstantsBindNothing r.schema r.dialect →
    res.sql.placeholders.length < cond.boundArgs r.schema r.dialect

namespace Rendered

variable {r : Renderer} {cond left right : Condition} {st : RenderState} {new new' : List Arg}
  {res a b : RenderResult}

theorem length_le (h : Rendered r cond st new res)
    (hn : new.length = cond.boundArgs r.schema r.dialect) :
    res.sql.placeholders.length ≤ cond.boundArgs r.schema r.dialect := by
  by_cases hc : cond.ConstantsBindNothing r.schema r.dialect
  · have hkept : res.sql.placeholders.length = new.length := by rw [h.kept hc, length_numbered]
    omega
  · exact Nat.le_of_lt (h.lost hc)

theorem of_leaf (h : r.Leaf st new res) (hn : cond.constantValue = none)
    (hs : cond.subconditions = [cond]) : Rendered r cond st new res := by
  obtain ⟨hp, hm, ht, hu⟩ := h
  have hc : cond.ConstantsBindNothing r.schema r.dialect := by
    intro c hc hsome
    obtain rfl : c = cond := by simpa [hs] using hc
    simp [hn] at hsome
  exact ⟨⟨by simp [ht, hn], by simp [hu, hn]⟩, hm, by simp [hn], fun _ => hp, fun h => absurd hc h⟩

theorem of_constant (ho : Outcome cond res) (hm : res.sql.Marked r.dialect)
    (hc : cond.constantValue.isSome) (hp : res.sql.placeholders = [])
    (hn : new.length = cond.boundArgs r.schema r.dialect) : Rendered r cond st new res := by
  refine ⟨ho, hm, fun _ => hp, fun h => ?_, fun h => ?_⟩
  · have hnew : new = [] := List.length_eq_zero_iff.mp (hn.trans (h.boundArgs_eq hc))
    rw [hp, hnew]
    rfl
  · rw [hp]
    exact Nat.pos_of_ne_zero fun h₀ => h (.of_boundArgs h₀)

theorem logical (op : LogicalOperator) (hl : Rendered r left st new a)
    (hr : Rendered r right (Program.push st new) new' b)
    (hnl : new.length = left.boundArgs r.schema r.dialect)
    (hnr : new'.length = right.boundArgs r.schema r.dialect) :
    Rendered r (.logical op left right) st (new ++ new') (Renderer.combine op a b) := by
  have ho := combine_outcome op hl.outcome hr.outcome
  have hm := combine_marked op hl.outcome hr.outcome hl.marked hr.marked
  have hn : (new ++ new').length =
      (Condition.logical op left right).boundArgs r.schema r.dialect := by
    rw [List.length_append, hnl, hnr]
    rfl
  have hshift : numbered (r.placeholderOffset + st.placeholderCounter) (new ++ new') =
      numbered (r.placeholderOffset + st.placeholderCounter) new ++
        numbered (r.placeholderOffset + (Program.push st new).placeholderCounter) new' := by
    simp [numbered_append, push, Nat.add_assoc]
  have hle := hl.length_le hnl
  have hre := hr.length_le hnr
  have hsum : (Condition.logical op left right).boundArgs r.schema r.dialect =
      left.boundArgs r.schema r.dialect + right.boundArgs r.schema r.dialect := rfl
  have hlost : ∀ c : Condition, ¬c.ConstantsBindNothing r.schema r.dialect →
      0 < c.boundArgs r.schema r.dialect := fun c h =>
    Nat.pos_of_ne_zero fun h₀ => h (.of_boundArgs h₀)
  cases combine_combined op hl.outcome hr.outcome hl.constant hr.constant with
  | constant hc hp => exact .of_constant ho hm hc hp hn
  | right hc hlc hres =>
    refine ⟨ho, hm, by simp [hc], fun h => ?_, fun h => ?_⟩
    · rw [Condition.ConstantsBindNothing.logical_iff hc] at h
      have hnew : new = [] := List.length_eq_zero_iff.mp (hnl.trans (h.1.boundArgs_eq hlc))
      rw [hshift, hres, hr.kept h.2, hnew]
      rfl
    · rw [Condition.ConstantsBindNothing.logical_iff hc, Classical.not_and_iff_not_or_not] at h
      rw [hres, hsum]
      rcases h with h | h
      · have := hlost left h
        omega
      · have := hr.lost h
        omega
  | left hc hrc hres =>
    refine ⟨ho, hm, by simp [hc], fun h => ?_, fun h => ?_⟩
    · rw [Condition.ConstantsBindNothing.logical_iff hc] at h
      have hnew : new' = [] := List.length_eq_zero_iff.mp (hnr.trans (h.2.boundArgs_eq hrc))
      rw [hshift, hres, hl.kept h.1, hnew]
      simp [numbered]
    · rw [Condition.ConstantsBindNothing.logical_iff hc, Classical.not_and_iff_not_or_not] at h
      rw [hres, hsum]
      rcases h with h | h
      · have := hl.lost h
        omega
      · have := hlost right h
        omega
  | both hc hp =>
    refine ⟨ho, hm, by simp [hc], fun h => ?_, fun h => ?_⟩
    · rw [Condition.ConstantsBindNothing.logical_iff hc] at h
      rw [hshift, hp, hl.kept h.1, hr.kept h.2]
    · rw [Condition.ConstantsBindNothing.logical_iff hc, Classical.not_and_iff_not_or_not] at h
      rw [hp, hsum, List.length_append]
      rcases h with h | h
      · have := hl.lost h
        omega
      · have := hr.lost h
        omega

theorem not (h : Rendered r cond st new res)
    (hn : new.length = cond.boundArgs r.schema r.dialect) :
    Rendered r (.not cond) st new (Renderer.renderNot res) := by
  have ho := renderNot_outcome h.outcome
  obtain ⟨⟨ht, hu⟩, hm, hc, hk, hl⟩ := h
  cases hv : cond.constantValue with
  | some v =>
    refine .of_constant ho ?_ (by simp [Condition.constantValue, hv]) ?_ hn
    · cases v <;> simp_all [Renderer.renderNot, Sql.never, Sql.Marked, SqlPred.Marked,
        SqlTerm.Marked]
    · cases v <;> simp_all [Renderer.renderNot, Sql.never, Sql.placeholders,
        SqlPred.placeholders, SqlTerm.placeholders]
  | none =>
    have hres : Renderer.renderNot res = { sql := .not res.sql } := by
      simp_all [Renderer.renderNot]
    refine ⟨ho, hres ▸ hm, by simp [Condition.constantValue, hv], fun h => ?_, fun h => ?_⟩
    · rw [hres]
      exact hk (Condition.ConstantsBindNothing.not_iff.mp h)
    · rw [hres]
      exact hl fun h' => h (Condition.ConstantsBindNothing.not_iff.mpr h')

end Rendered

theorem Renderer.renderCondition_emits {r : Renderer} (hs : r.schema.Unmarked)
    (cond : Condition) :
    Emits (r.renderCondition cond) (cond.boundArgs r.schema r.dialect) (Rendered r cond) := by
  induction cond with
  | logical op left right hl hr =>
    refine .bind rfl (hl.mono fun _ _ _ hn h => And.intro hn h) fun a =>
      (hr.mono fun _ _ _ hn h => And.intro hn h).bindPure fun s new b _ hb s₀ new₀ hk hs' ha => ?_
    subst hs'
    exact ha.2.logical op hb.2 ha.1 hb.1
  | not cond ih =>
    exact ih.bindPure fun st new res hn h => h.not hn
  | fieldPredicate field =>
    exact (renderFieldPredicate_emits hs field).mono fun _ _ _ _ h => .of_leaf h rfl rfl
  | comparison left op right =>
    exact (renderComparison_emits hs left op right).mono fun _ _ _ _ h => .of_leaf h rfl rfl
  | inList left values =>
    exact (renderInCondition_emits hs left values).mono fun _ _ _ _ h => .of_leaf h rfl rfl
  | elementIn element field =>
    exact (renderElementInCondition_emits hs element field).mono fun _ _ _ _ h =>
      .of_leaf h rfl rfl
  | contains field value =>
    exact (renderContainsCondition_emits hs field value).mono fun _ _ _ _ h => .of_leaf h rfl rfl
  | listComprehension kind field iterVar predicate =>
    exact (renderListComprehension_emits hs field predicate).mono fun _ _ _ _ h =>
      .of_leaf h rfl rfl
  | constant value =>
    cases value with
    | true => exact .pure _ rfl fun st => .of_constant ⟨rfl, rfl⟩ trivial rfl rfl rfl
    | false => exact .pure _ rfl fun st => .of_constant ⟨rfl, rfl⟩ ⟨trivial, trivial⟩ rfl rfl rfl

/-- The placeholders in the text are those of the bound values, each once and in order. -/
def PlaceholdersMatch (opts : RenderOptions) (st : Statement) : Prop :=
  match opts.dialect with
  | .postgres => placeholdersIn .postgres st.text.toList =
      (List.range' (opts.placeholderOffset + 1) st.args.length).map fun k => "$" ++ toString k
  | _ => st.text.toList.count '?' = st.args.length

theorem texts_numbered (d : DialectName) (n : Nat) (args : List Arg) :
    texts d (numbered n args) = (List.range' (n + 1) args.length).map (placeholderText d) := by
  induction args generalizing n with
  | nil => rfl
  | cons a args ih =>
    rw [numbered, List.length_cons, List.range'_succ, List.map_cons, ← ih (n + 1)]
    rfl

theorem placeholdersMatch_of_kept {opts : RenderOptions} {st : Statement}
    (hm : st.sql.Marked opts.dialect)
    (hp : st.sql.placeholders = numbered opts.placeholderOffset st.args) :
    PlaceholdersMatch opts st := by
  have htext := placeholdersIn_text hm
  rw [hp, texts_numbered] at htext
  obtain ⟨d, n⟩ := opts
  cases d with
  | postgres => exact htext
  | _ =>
    have hlen := congrArg List.length htext
    rw [length_placeholdersIn (by simp), List.length_map, List.length_range'] at hlen
    exact hlen

theorem not_placeholdersMatch_of_lost {opts : RenderOptions} {st : Statement}
    (hm : st.sql.Marked opts.dialect) (hp : st.sql.placeholders.length < st.args.length) :
    ¬PlaceholdersMatch opts st := by
  intro h
  have hlen := congrArg List.length (placeholdersIn_text hm)
  rw [texts, List.length_map] at hlen
  obtain ⟨d, n⟩ := opts
  cases d with
  | postgres =>
    have hargs := congrArg List.length h
    rw [List.length_map, List.length_range'] at hargs
    exact absurd (hlen.symm.trans hargs) (Nat.ne_of_lt hp)
  | _ =>
    rw [length_placeholdersIn (by simp)] at hlen
    exact absurd (hlen.symm.trans h) (Nat.ne_of_lt hp)

theorem Renderer.render_spec {r : Renderer} (hs : r.schema.Unmarked) {cond : Condition}
    {st : Statement} (h : r.render cond = .ok st) :
    ∃ res, Rendered r cond {} st.args res ∧
      st.args.length = cond.boundArgs r.schema r.dialect ∧
      st.sql.Marked r.dialect ∧ st.sql.placeholders = res.sql.placeholders := by
  unfold render at h
  cases hrun : r.renderCondition cond {} with
  | error e => exact absurd h (by simp [StateT.run, hrun, Bind.bind, Except.bind])
  | ok out =>
    obtain ⟨res, st'⟩ := out
    obtain ⟨new, hn, rfl, hr⟩ := renderCondition_emits hs cond _ res st' hrun
    have hargs : (Program.push ({} : RenderState) new).args = new := List.nil_append new
    simp only [StateT.run, hrun, Bind.bind, Except.bind, hargs] at h
    have hflags := hr.outcome
    by_cases hu : res.unsatisfiable
    · obtain rfl : ⟨.never, new⟩ = st := by simpa [hu, Pure.pure, Except.pure] using h
      refine ⟨res, hr, hn, ⟨trivial, trivial⟩, ?_⟩
      rw [hr.constant (by
        have := hflags.unsatisfiable.symm.trans hu
        simp_all)]
      rfl
    · by_cases ht : res.isTrivial
      · obtain rfl : ⟨.empty, new⟩ = st := by simpa [hu, ht, Pure.pure, Except.pure] using h
        refine ⟨res, hr, hn, trivial, ?_⟩
        rw [hr.constant (by
          have := hflags.isTrivial.symm.trans ht
          simp_all)]
        rfl
      · obtain rfl : ⟨res.sql, new⟩ = st := by simpa [hu, ht, Pure.pure, Except.pure] using h
        exact ⟨res, hr, hn, hr.marked, rfl⟩

/-- The placeholders of a rendered statement match its bound values exactly if no part of the
condition that is a constant has bound any. -/
theorem render_placeholdersMatch_iff {schema : Schema}
    (hs : schema = newSchema ∨ schema = newAttachmentSchema) (opts : RenderOptions)
    (cond : Condition) {st : Statement} (h : (newRenderer schema opts).render cond = .ok st) :
    PlaceholdersMatch opts st ↔ cond.ConstantsBindNothing schema opts.dialect := by
  have hu : (newRenderer schema opts).schema.Unmarked := by
    rcases hs with rfl | rfl
    · exact newSchema_unmarked
    · exact newAttachmentSchema_unmarked
  obtain ⟨res, hr, hn, hm, hp⟩ := Renderer.render_spec hu h
  constructor
  · intro hmatch
    refine Classical.byContradiction fun hc => ?_
    have hlost := hr.lost hc
    rw [← hp, ← hn] at hlost
    exact not_placeholdersMatch_of_lost hm hlost hmatch
  · intro hc
    exact placeholdersMatch_of_kept hm (hp.trans (hr.kept hc))

/-- `size(tags) > 1 && pinned`, whose constant-free tree keeps its placeholder. -/
theorem render_placeholdersMatch_size :
    ∃ st, (newRenderer newSchema ⟨.postgres, 2⟩).render
        (.logical .and (.comparison (.function "size" [.fieldRef "tags"]) .gt (.literal (.int64 1)))
          (.fieldPredicate "pinned")) = .ok st ∧
      (PlaceholdersMatch ⟨.postgres, 2⟩ st ↔ Condition.ConstantsBindNothing newSchema .postgres
        (.logical .and (.comparison (.function "size" [.fieldRef "tags"]) .gt (.literal (.int64 1)))
          (.fieldPredicate "pinned"))) :=
  ⟨_, rfl, render_placeholdersMatch_iff (.inl rfl) ⟨.postgres, 2⟩ _ rfl⟩

/-- `content.contains("x") && false` becomes `1 = 0` with one value bound. -/
theorem conjunction_with_false_keeps_args :
    ∃ st, (newRenderer newSchema ⟨.postgres, 0⟩).render
        (.logical .and (.contains "content" "x") (.constant false)) = .ok st ∧
      st.text = "1 = 0" ∧ st.args = [.string "%x%"] ∧ ¬PlaceholdersMatch ⟨.postgres, 0⟩ st :=
  ⟨_, rfl, by decide, by decide, fun h => absurd (congrArg List.length h) (by decide)⟩

end Memoark.Filter
