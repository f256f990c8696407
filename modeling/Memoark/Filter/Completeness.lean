import Memoark.Filter.Dialects
import Memoark.Filter.Reading
import Memoark.Filter.Shape

/-! Which filters render to a well-formed SQL expression: those without an empty `in` list in
the SQL that the constants leave. -/
namespace Memoark.Filter

open Program (Alike Returns Total)
open Syntax (wellFormed)

@[grind =] def Expr.constantValue : Expr → Option Bool
  | .const (.bool value) => some value
  | .call _ "_&&_" [l, r] =>
    match l.constantValue, r.constantValue with
    | some false, _ => some false
    | _, some false => some false
    | some true, some true => some true
    | _, _ => none
  | .call _ "_||_" [l, r] =>
    match l.constantValue, r.constantValue with
    | some true, _ => some true
    | _, some true => some true
    | some false, some false => some false
    | _, _ => none
  | .call _ "!_" [e] => e.constantValue.map (!·)
  | _ => none

/-- Every `in` list of the filter has an element, but in an operation that its other operand
reduces to a constant. -/
@[grind =] def Expr.complete : Expr → Bool
  | .call t "_&&_" [l, r] =>
    (Expr.call t "_&&_" [l, r]).constantValue.isSome || (l.complete && r.complete)
  | .call t "_||_" [l, r] =>
    (Expr.call t "_||_" [l, r]).constantValue.isSome || (l.complete && r.complete)
  | .call _ "!_" [e] => e.complete
  | .call _ "@in" [.ident _, .list elements] => !elements.isEmpty
  | _ => true

theorem Condition.complete_of_constant {cond : Condition} (h : cond.constantValue.isSome = true) :
    cond.complete = true := by
  induction cond with
  | logical op l r => simp [Condition.complete, h]
  | not e ih => exact ih (by simpa [Condition.constantValue] using h)
  | inList left values => simp [Condition.constantValue] at h
  | _ => rfl

/-- What a condition renders to, unless the constants decide it: an operand, complete when the
condition is, with the names of the schema. -/
structure Fragment (s : Schema) (cond : Condition) (res : RenderResult) : Prop extends
    Outcome cond res where
  operand : cond.constantValue = none → res.sql.fits .operand = true
  complete : cond.constantValue = none → res.sql.complete = cond.complete
  plain : cond.constantValue = none → s.Plain → cond.Checked s → res.sql.Plain

theorem LeafShape.fragment {s : Schema} {cond : Condition} {res : RenderResult}
    (h : LeafShape s cond res) (hc : cond.constantValue = none) : Fragment s cond res where
  isTrivial := by simp [h.isTrivial, hc]
  unsatisfiable := by simp [h.unsatisfiable, hc]
  operand _ := h.operand
  complete _ := h.complete
  plain _ := h.plain

namespace Fragment

variable {s : Schema} {l r cond : Condition} {a b res : RenderResult}

theorem join_operand (op : LogicalOperator) {x y : Sql} (hx : x.fits .operand = true)
    (hy : y.fits .operand = true) : (Sql.paren (op.join x y)).fits .operand = true := by
  have hfx := Sql.fits_of_operand hx
  have hfy := Sql.fits_of_operand hy
  cases op with
  | and => exact Sql.fits_paren (by simp [LogicalOperator.join, Sql.fits, hfx, hfy]) _
  | or => exact Sql.fits_paren (by simp [LogicalOperator.join, Sql.fits, hfx, hfy]) _

theorem join_complete (op : LogicalOperator) (x y : Sql) :
    (Sql.paren (op.join x y)).complete = (x.complete && y.complete) := by
  cases op <;> rfl

theorem join_plain (op : LogicalOperator) {x y : Sql} (hx : x.Plain) (hy : y.Plain) :
    (Sql.paren (op.join x y)).Plain := by
  cases op with
  | and => exact ⟨hx, hy⟩
  | or => exact ⟨hx, hy⟩

theorem complete_logical {op : LogicalOperator}
    (h : (Condition.logical op l r).constantValue = none) :
    (Condition.logical op l r).complete = (l.complete && r.complete) := by
  rw [Condition.complete, h]
  rfl

theorem of_constant (ho : Outcome cond res) {value : Bool}
    (hc : cond.constantValue = some value) : Fragment s cond res := by
  have hne : cond.constantValue ≠ none := by simp [hc]
  exact ⟨ho, fun h => absurd h hne, fun h => absurd h hne, fun h => absurd h hne⟩

theorem logical (op : LogicalOperator) (hl : Fragment s l a) (hr : Fragment s r b) :
    Fragment s (.logical op l r) (Renderer.combine op a b) := by
  have ho := combine_outcome op hl.toOutcome hr.toOutcome
  rcases combine_cases op hl.toOutcome hr.toOutcome with
    ⟨hc, -⟩ | ⟨hlc, hc, hres⟩ | ⟨hrc, hc, hres⟩ | ⟨hlc, hrc, -, hres⟩
  · exact .of_constant ho hc
  · rw [hres] at ho ⊢
    refine ⟨ho, fun h => hr.operand (hc ▸ h), fun h => ?_,
      fun h hs hchecked => hr.plain (hc ▸ h) hs hchecked.2⟩
    have hcl : l.complete = true := Condition.complete_of_constant (by rw [hlc]; rfl)
    rw [complete_logical h, hr.complete (hc ▸ h), hcl, Bool.true_and]
  · rw [hres] at ho ⊢
    refine ⟨ho, fun h => hl.operand (hc ▸ h), fun h => ?_,
      fun h hs hchecked => hl.plain (hc ▸ h) hs hchecked.1⟩
    have hcr : r.complete = true := Condition.complete_of_constant (by rw [hrc]; rfl)
    rw [complete_logical h, hl.complete (hc ▸ h), hcr, Bool.and_true]
  · rw [hres] at ho ⊢
    refine ⟨ho, fun _ => join_operand op (hl.operand hlc) (hr.operand hrc), fun h => ?_,
      fun _ hs hchecked => join_plain op (hl.plain hlc hs hchecked.1) (hr.plain hrc hs hchecked.2)⟩
    rw [join_complete, complete_logical h, hl.complete hlc, hr.complete hrc]

theorem not (h : Fragment s cond res) : Fragment s (.not cond) (Renderer.renderNot res) := by
  have hout := renderNot_outcome h.toOutcome
  have hkept (hc : (Condition.not cond).constantValue = none) :
      cond.constantValue = none ∧ (Renderer.renderNot res).sql = .not res.sql := by
    have hcond : cond.constantValue = none := by simpa [Condition.constantValue] using hc
    refine ⟨hcond, ?_⟩
    simp [Renderer.renderNot, h.isTrivial, h.unsatisfiable, hcond]
  refine ⟨hout, fun hc => ?_, fun hc => ?_, fun hc => ?_⟩
  all_goals obtain ⟨hcond, hsql⟩ := hkept hc
  · rw [hsql]
    exact Sql.fits_of_operand (h.operand hcond) .disjunct
  · rw [hsql]
    exact h.complete hcond
  · rw [hsql]
    exact h.plain hcond

end Fragment

theorem Renderer.renderCondition_fragment {r : Renderer} (cond : Condition) :
    Returns (r.renderCondition cond) (Fragment r.schema cond) := by
  induction cond with
  | logical op left right hl hr =>
    exact hl.bind fun a ha => hr.bind fun b hb => .pure (ha.logical op hb)
  | not expr ih => exact ih.bind fun a ha => .pure ha.not
  | constant value =>
    have hvalue : (Condition.constant value).constantValue ≠ none := Option.some_ne_none value
    cases value with
    | true =>
      exact .pure ⟨⟨rfl, rfl⟩, (absurd · hvalue), (absurd · hvalue), (absurd · hvalue)⟩
    | false =>
      exact .pure ⟨⟨rfl, rfl⟩, (absurd · hvalue), (absurd · hvalue), (absurd · hvalue)⟩
  | fieldPredicate field =>
    exact (renderFieldPredicate_shape field).mono fun _ h => h.fragment rfl
  | comparison left op right =>
    exact (renderComparison_shape left op right).mono fun _ h => h.fragment rfl
  | inList left values =>
    exact (renderInCondition_shape left values).mono fun _ h => h.fragment rfl
  | elementIn element field =>
    exact (renderElementInCondition_shape element field).mono fun _ h => h.fragment rfl
  | contains field value =>
    exact (renderContainsCondition_shape field value).mono fun _ h => h.fragment rfl
  | listComprehension kind field iterVar predicate =>
    exact (renderListComprehension_shape kind field iterVar predicate).mono fun _ h =>
      h.fragment rfl

theorem Renderer.render_wellFormed_iff {r : Renderer} {cond : Condition} {stmt : Statement}
    (hs : r.schema.Plain) (hchecked : cond.Checked r.schema) (h : r.render cond = .ok stmt) :
    (stmt.text = "" ∨ wellFormed stmt.text = true) ↔ cond.complete = true := by
  unfold render at h
  obtain ⟨⟨res, st⟩, hres, h⟩ := Program.bind_ok h
  have hfrag := renderCondition_fragment cond _ res st hres
  dsimp only at h
  split at h
  · rename_i hu
    cases h
    have hc : cond.constantValue = some false := by simpa [hfrag.unsatisfiable] using hu
    have hnever : wellFormed Sql.never.text = true :=
      Sql.wellFormed_text (s := .never) (p := .operand) rfl ⟨trivial, trivial⟩
    exact ⟨fun _ => Condition.complete_of_constant (by simp [hc]), fun _ => .inr hnever⟩
  · rename_i hu
    split at h
    · rename_i ht
      cases h
      have hc : cond.constantValue = some true := by simpa [hfrag.isTrivial] using ht
      exact ⟨fun _ => Condition.complete_of_constant (by simp [hc]), fun _ => .inl rfl⟩
    · rename_i ht
      cases h
      have hc : cond.constantValue = none := by
        rcases hv : cond.constantValue with _ | _ | _ <;>
          simp_all [hfrag.isTrivial, hfrag.unsatisfiable]
      have hfits := hfrag.operand hc
      have hne := Sql.text_ne_empty hfits
      have htext := Sql.wellFormed_text hfits (hfrag.plain hc hs hchecked)
      rw [hfrag.complete hc] at htext
      simp only [Statement.text, hne, htext, false_or]

structure Built (e : Expr) (cond : Condition) : Prop where
  constantValue : cond.constantValue = e.constantValue
  complete : cond.complete = e.complete

namespace Built

variable {t : Option Expr} {l r : Expr} {a b : Condition}

theorem and (hl : Built l a) (hr : Built r b) :
    Built (.call t "_&&_" [l, r]) (.logical .and a b) := by
  have hvalue : (Condition.logical .and a b).constantValue =
      (Expr.call t "_&&_" [l, r]).constantValue := by
    rcases hlv : l.constantValue with _ | _ | _ <;> rcases hrv : r.constantValue with _ | _ | _ <;>
      simp [Condition.constantValue, Expr.constantValue, hl.constantValue, hr.constantValue, hlv, hrv]
  exact ⟨hvalue, by rw [Condition.complete, Expr.complete, hvalue, hl.complete, hr.complete]⟩

theorem or (hl : Built l a) (hr : Built r b) :
    Built (.call t "_||_" [l, r]) (.logical .or a b) := by
  have hvalue : (Condition.logical .or a b).constantValue =
      (Expr.call t "_||_" [l, r]).constantValue := by
    rcases hlv : l.constantValue with _ | _ | _ <;> rcases hrv : r.constantValue with _ | _ | _ <;>
      simp [Condition.constantValue, Expr.constantValue, hl.constantValue, hr.constantValue, hlv, hrv]
  exact ⟨hvalue, by rw [Condition.complete, Expr.complete, hvalue, hl.complete, hr.complete]⟩

theorem not (h : Built l a) : Built (.call t "!_" [l]) (.not a) where
  constantValue := by rw [Condition.constantValue, Expr.constantValue, h.constantValue]
  complete := by rw [Condition.complete, Expr.complete, h.complete]

end Built

variable {now : Int} {s : Schema}

theorem comparison_built {e : Expr} {function : String} {args : List Expr} {cond : Condition}
    (hv : e.constantValue = none) (hc : e.complete = true)
    (h : buildComparisonCondition now s function args = .ok cond) : Built e cond := by
  unfold buildComparisonCondition at h
  split at h
  · split at h
    · cases h
    · obtain ⟨left, -, h⟩ := Program.bind_ok h
      obtain ⟨right, -, h⟩ := Program.bind_ok h
      obtain ⟨⟨⟩, -, h⟩ := Program.bind_ok h
      cases h
      exact ⟨hv.symm, hc.symm⟩
  · cases h

theorem elementIn_built {e left right : Expr} {cond : Condition} (hv : e.constantValue = none)
    (hc : e.complete = true) (h : buildElementIn now s left right = .ok cond) : Built e cond := by
  unfold buildElementIn at h
  split at h
  · split at h
    · cases h
    · obtain ⟨element, -, h⟩ := Program.bind_ok h
      cases h
      exact ⟨hv.symm, hc.symm⟩
  · cases h

theorem isEmpty_of_mapM {α β ε : Type} {f : α → Except ε β} {l : List α} {bs : List β}
    (h : l.mapM f = .ok bs) : bs.isEmpty = l.isEmpty := by
  cases l with
  | nil =>
    cases h
    rfl
  | cons a l =>
    rw [List.mapM_cons] at h
    obtain ⟨b, -, h⟩ := Program.bind_ok h
    obtain ⟨bs', -, h⟩ := Program.bind_ok h
    cases h
    rfl

theorem in_complete {target : Option Expr} {left right : Expr}
    (h : ∀ name elements, left = .ident name → right ≠ .list elements) :
    (Expr.call target "@in" [left, right]).complete = true := by
  cases left with
  | ident name =>
    cases right with
    | list elements => exact absurd rfl (h name elements rfl)
    | _ => rfl
  | _ => rfl

theorem in_built {target : Option Expr} {args : List Expr} {cond : Condition}
    (h : buildInCondition now s args = .ok cond) : Built (.call target "@in" args) cond := by
  unfold buildInCondition at h
  split at h
  · split at h
    · obtain ⟨-, -, h⟩ := Program.bind_ok h
      obtain ⟨values, hvalues, h⟩ := Program.bind_ok h
      have hempty := isEmpty_of_mapM hvalues
      cases h
      exact ⟨rfl, by simp [Condition.complete, Expr.complete, hempty]⟩
    · rename_i hright
      obtain ⟨-, -, h⟩ := Program.bind_ok h
      exact elementIn_built rfl (in_complete fun name elements _ => hright elements) h
    · rename_i hident _
      exact elementIn_built rfl (in_complete fun name _ hl => absurd hl (hident name)) h
  · cases h

theorem contains_built {e : Expr} {target : Option Expr} {args : List Expr} {cond : Condition}
    (hv : e.constantValue = none) (hc : e.complete = true)
    (h : buildContainsCondition s target args = .ok cond) : Built e cond := by
  unfold buildContainsCondition at h
  split at h
  · cases h
  · obtain ⟨name, -, h⟩ := Program.bind_ok h
    split at h
    · cases h
    · split at h
      · cases h
      · split at h
        · split at h
          · cases h
          · cases h
            exact ⟨hv.symm, hc.symm⟩
          · cases h
        · cases h

theorem buildConstantCall_ne_ok {target : Option Expr} {function : String} {args : List Expr}
    (hn : function ≠ "!_") {cond : Condition} :
    buildConstantCall (.call target function args) function ≠ .ok cond := by
  have heval : evaluateBoolExpr (.call target function args) = .ok none := by
    unfold evaluateBoolExpr
    split
    · rename_i heq
      cases heq
    · rename_i heq
      cases heq
      exact absurd rfl hn
    · rename_i heq
      cases heq
      exact absurd rfl hn
    · rfl
  simp [buildConstantCall, heval, Bind.bind, Except.bind]

theorem leafCall_built {target : Option Expr} {function : String} {args : List Expr}
    {cond : Condition} (hn : function ≠ "!_")
    (h : buildLeafCall now s target function args = .ok cond) :
    Built (.call target function args) cond := by
  unfold buildLeafCall at h
  split at h
  case h_7 => exact in_built h
  case h_8 => exact contains_built rfl rfl h
  case h_9 => exact absurd h (buildConstantCall_ne_ok hn)
  all_goals exact comparison_built rfl rfl h

theorem comprehension_built {iterVar : String} {iterRange accuInit loopStep : Expr}
    {cond : Condition}
    (h : buildComprehensionCondition s iterVar iterRange accuInit loopStep = .ok cond) :
    Built (.comprehension iterVar iterRange accuInit loopStep) cond := by
  unfold buildComprehensionCondition at h
  obtain ⟨kind, -, h⟩ := Program.bind_ok h
  split at h
  · split at h
    · cases h
    · split at h
      · cases h
      · obtain ⟨predicate, -, h⟩ := Program.bind_ok h
        cases h
        exact ⟨rfl, rfl⟩
  · cases h

theorem buildCondition_built {e : Expr} {cond : Condition}
    (h : buildCondition now s e = .ok cond) : Built e cond := by
  induction e using (buildCondition.induct s) generalizing cond with
  | case1 t l r hl hr =>
    rw [buildCondition] at h
    obtain ⟨a, ha, h⟩ := Program.bind_ok h
    obtain ⟨b, hb, h⟩ := Program.bind_ok h
    cases h
    exact (hl ha).and (hr hb)
  | case3 t l r hl hr =>
    rw [buildCondition] at h
    obtain ⟨a, ha, h⟩ := Program.bind_ok h
    obtain ⟨b, hb, h⟩ := Program.bind_ok h
    cases h
    exact (hl ha).or (hr hb)
  | case5 t arg ih =>
    rw [buildCondition] at h
    obtain ⟨a, ha, h⟩ := Program.bind_ok h
    cases h
    exact (ih ha).not
  | case2 t args hargs | case4 t args hargs | case6 t args hargs =>
    rw [buildCondition] at h
    · cases h
    · exact hargs
  | case7 t function args =>
    rw [buildCondition] at h
    · exact leafCall_built ‹_› h
    all_goals assumption
  | case8 value =>
    rw [buildCondition] at h
    obtain ⟨lit, hlit, h⟩ := Program.bind_ok h
    split at h
    · cases h
      cases value <;> cases hlit
      exact ⟨rfl, rfl⟩
    · cases h
  | case9 name hf =>
    simp [buildCondition, hf] at h
  | case10 name f hf ht =>
    simp only [buildCondition, hf, ht, if_true] at h
    cases h
    exact ⟨rfl, rfl⟩
  | case11 name f hf ht =>
    simp [buildCondition, hf, ht] at h
  | case12 =>
    rw [buildCondition] at h
    exact comprehension_built h
  | case13 =>
    rw [buildCondition] at h
    · cases h
    all_goals assumption

def Accepted (now : Int) (opts : RenderOptions) (filter : Expr) : Prop :=
  ∃ stmt, compileToStatement now opts filter = .ok stmt

def CompilesWellFormed (now : Int) (opts : RenderOptions) (filter : Expr) : Prop :=
  ∃ stmt, compileToStatement now opts filter = .ok stmt ∧
    (stmt.text = "" ∨ wellFormed stmt.text = true)

def Renders (opts : RenderOptions) (cond : Condition) : Prop :=
  Total ((newRenderer newSchema opts).renderCondition cond)

theorem renders_of_ok {opts opts' : RenderOptions} {cond : Condition} {st : RenderState}
    {r : RenderResult × RenderState} (h : cond.Checked newSchema)
    (hr : (newRenderer newSchema opts).renderCondition cond st = .ok r) : Renders opts' cond := by
  intro st'
  have halike : Alike ((newRenderer newSchema opts).renderCondition cond)
      ((newRenderer newSchema opts').renderCondition cond) :=
    Renderer.renderCondition_alike newSchema_flagsEquated h
  exact (halike st st').ok hr

theorem Renders.render_ok {opts : RenderOptions} {cond : Condition} (h : Renders opts cond) :
    ∃ stmt, (newRenderer newSchema opts).render cond = .ok stmt := by
  obtain ⟨⟨res, st⟩, hres⟩ := h {}
  unfold Renderer.render
  simp only [StateT.run, hres, Bind.bind, Except.bind]
  split
  · exact ⟨_, rfl⟩
  · split
    · exact ⟨_, rfl⟩
    · exact ⟨_, rfl⟩

theorem accepted_iff {now : Int} {opts : RenderOptions} {filter : Expr} :
    Accepted now opts filter ↔
      ∃ cond, buildCondition now newSchema filter = .ok cond ∧ ∀ opts', Renders opts' cond := by
  constructor
  · rintro ⟨stmt, h⟩
    obtain ⟨cond, hcond, h⟩ := Program.bind_ok h
    obtain ⟨⟨res, st⟩, hres, -⟩ := Program.bind_ok h
    exact ⟨cond, hcond, fun _ => renders_of_ok (buildCondition_checked hcond) hres⟩
  · rintro ⟨cond, hcond, hrenders⟩
    obtain ⟨stmt, hstmt⟩ := (hrenders opts).render_ok
    exact ⟨stmt, by simp [compileToStatement, hcond, hstmt, Bind.bind, Except.bind]⟩

theorem Accepted.compiles {now : Int} {opts : RenderOptions} {filter : Expr}
    (h : Accepted now opts filter) (opts' : RenderOptions) : Accepted now opts' filter :=
  accepted_iff.mpr (accepted_iff.mp h)

/-- An accepted filter renders, in each dialect, to nothing or to a well-formed expression
exactly when every `in` list in it that no constant decides has an element. -/
theorem compilesWellFormed_iff (now : Int) (opts : RenderOptions) (filter : Expr)
    (h : Accepted now opts filter) (opts' : RenderOptions) :
    CompilesWellFormed now opts' filter ↔ filter.complete = true := by
  obtain ⟨stmt, hstmt⟩ := h.compiles opts'
  obtain ⟨cond, hcond, hrender⟩ := Program.bind_ok hstmt
  have hiff := Renderer.render_wellFormed_iff newSchema_plain (buildCondition_checked hcond) hrender
  rw [(buildCondition_built hcond).complete] at hiff
  constructor
  · rintro ⟨stmt', hstmt', htext⟩
    obtain rfl : stmt = stmt' := Except.ok.inj (hstmt.symm.trans hstmt')
    exact hiff.mp htext
  · intro hcomplete
    exact ⟨stmt, hstmt, hiff.mpr hcomplete⟩

/-- `tag in ["work"]` -/
theorem compilesWellFormed_tagWork :
    CompilesWellFormed 0 ⟨.postgres, 2⟩
      (.call none "@in" [.ident "tag", .list [.const (.string "work")]]) :=
  (compilesWellFormed_iff 0 ⟨.sqlite, 0⟩ _ ⟨_, rfl⟩ ⟨.postgres, 2⟩).mpr rfl

/-- `tag in []` is accepted and renders to `()` in every dialect, and `visibility in []` to a
column `IN ()`. -/
theorem empty_list_is_accepted_and_malformed :
    (∀ d, ∃ stmt, compileToStatement 0 ⟨d, 0⟩ (.call none "@in" [.ident "tag", .list []]) = .ok stmt ∧
        stmt.text = "()" ∧ ¬(stmt.text = "" ∨ wellFormed stmt.text = true)) ∧
      ∃ stmt, compileToStatement 0 ⟨.sqlite, 0⟩
          (.call none "@in" [.ident "visibility", .list []]) = .ok stmt ∧
        stmt.text = "`memo`.`visibility` IN ()" ∧
        ¬(stmt.text = "" ∨ wellFormed stmt.text = true) := by
  constructor
  · intro d
    exact ⟨_, rfl, rfl, by decide⟩
  · exact ⟨_, rfl, by decide, by decide⟩

end Memoark.Filter
