import Mathlib.Algebra.Field.Rat
import Mathlib.Data.Rat.Cast.Defs
import Memoark.Filter.PartArgs

/-! The numbers of a filter: what folding its arithmetic in wrapping 64-bit integers binds, beside
the exact values. -/
namespace Memoark.Filter
open Memoark.Program

def Double.value (v : Double) : ℚ := v.mantissa * 2 ^ v.exponent

def Int64Range (n : Int) : Prop := -2 ^ 63 ≤ n ∧ n < 2 ^ 63

section exact

variable {α : Type} [Ring α]

def ringOperator : String → Option (α → α → α)
  | "_+_" => some fun a b => a + b
  | "_-_" => some fun a b => a - b
  | "_*_" => some fun a b => a * b
  | _ => none

def Expr.valueIn (double : Double → α) (now : Int) : Expr → Option α
  | .const (.int64 v) => some v
  | .const (.uint64 v) => some v
  | .const (.double v) => some (double v)
  | .call _ "now" _ => some now
  | .call _ function [a, b] =>
    (ringOperator function).bind fun op =>
      (a.valueIn double now).bind fun x => (b.valueIn double now).map fun y => op x y
  | _ => none

end exact

def Expr.exact (now : Int) (e : Expr) : Option ℚ := e.valueIn Double.value now

/-- The value in exact arithmetic when the doubles are converted to `int64` first. -/
def Expr.truncated (now : Int) (e : Expr) : Option Int := e.valueIn Double.toInt64 now

/-- The exact value is an `int64`, and converting the doubles first changes it by a multiple of
2 ^ 64. -/
def Expr.FoldsExactly (now : Int) (e : Expr) : Prop :=
  ∃ n t : Int, e.exact now = some (n : ℚ) ∧ Int64Range n ∧ e.truncated now = some t ∧
    (2 ^ 64 : Int) ∣ n - t

def Schema.comparesNumbers (s : Schema) (name : String) : Bool :=
  match s.field name with
  | some f => f.kind = .scalar ∧ (f.type = .int ∨ f.type = .timestamp)
  | none => false

def Expr.operand : Expr → List Expr
  | .const .null => []
  | e => [e]

def Expr.numbers (s : Schema) : Expr → List Expr
  | .call _ "@in" [.ident name, .list elements] => if s.comparesNumbers name then elements else []
  | .call _ function [left, right] =>
    match toComparisonOperator function, left with
    | some _, .ident name => if s.comparesNumbers name then right.operand else []
    | some _, .call _ "size" _ => right.operand
    | _, _ => []
  | _ => []

/-- Each number of the part is bound as the `int64` that is its exact value. -/
def Expr.BindsExactly (s : Schema) (now : Int) (opts : RenderOptions) (part : Expr) : Prop :=
  part.numbers s ≠ [] → ∃ ns : List Int, part.args s now opts = ns.map .int ∧
    (∀ n ∈ ns, Int64Range n) ∧
      (part.numbers s).map (Expr.exact now) = ns.map fun n : Int => some (n : ℚ)

section folding

variable {now n : Int} {e a b : Expr}

theorem int64Range_wrapInt64 (n : Int) : Int64Range (wrapInt64 n) := by
  unfold Int64Range wrapInt64
  have hlow := Int.le_bmod (x := n) (m := 2 ^ 64) (by decide)
  have hhigh := Int.bmod_lt (x := n) (m := 2 ^ 64) (by decide)
  omega

theorem dvd_wrapInt64_sub (n : Int) : (2 ^ 64 : Int) ∣ wrapInt64 n - n := by
  exact Int.dvd_bmod_sub_self (m := 2 ^ 64)

theorem int64Range_toInt64 (v : Double) : Int64Range v.toInt64 := by
  have hclamp : ∀ m : Int, Int64Range (if -2 ^ 63 ≤ m ∧ m < 2 ^ 63 then m else -2 ^ 63) := by
    intro m
    unfold Int64Range
    split_ifs with hm
    · exact hm
    · decide
  exact hclamp _

theorem wrapped_operation {z : Int → Int → Int} {m k t u : Int}
    (h : (2 ^ 64 : Int) ∣ z m k - z t u) :
    (2 ^ 64 : Int) ∣ wrapInt64 (z m k) - z t u ∧ Int64Range (wrapInt64 (z m k)) := by
  have hwrap := dvd_wrapInt64_sub (z m k)
  refine ⟨?_, int64Range_wrapInt64 _⟩
  have hsum := Int.dvd_add hwrap h
  rwa [sub_add_sub_cancel] at hsum

theorem arithmetic_folds {function : String} {op : Int → Int → Int}
    (h : arithmetic function = some op) :
    ∃ (z : Int → Int → Int) (q : ℚ → ℚ → ℚ), ringOperator function = some z ∧
      ringOperator function = some q ∧ ∀ m k t u : Int, (2 ^ 64 : Int) ∣ m - t →
        (2 ^ 64 : Int) ∣ k - u → (2 ^ 64 : Int) ∣ op m k - z t u ∧ Int64Range (op m k) := by
  unfold arithmetic at h
  split at h
  · obtain rfl := Option.some.inj h
    refine ⟨_, _, rfl, rfl, fun m k t u hm hk => wrapped_operation ?_⟩
    have hsum := Int.dvd_add hm hk
    rwa [show m - t + (k - u) = m + k - (t + u) by omega] at hsum
  · obtain rfl := Option.some.inj h
    refine ⟨_, _, rfl, rfl, fun m k t u hm hk => wrapped_operation ?_⟩
    have hdiff := Int.dvd_sub hm hk
    rwa [show m - t - (k - u) = m - k - (t - u) by omega] at hdiff
  · obtain rfl := Option.some.inj h
    refine ⟨_, _, rfl, rfl, fun m k t u hm hk => wrapped_operation ?_⟩
    have hprod := Int.dvd_add (hm.mul_right k) (hk.mul_left t)
    rwa [Int.sub_mul, Int.mul_sub, sub_add_sub_cancel] at hprod
  · cases h

theorem valueIn_call {α : Type} [Ring α] (double : Double → α) {target : Option Expr}
    {function : String} {op : α → α → α} {x y : α} (hop : ringOperator function = some op)
    (ha : a.valueIn double now = some x) (hb : b.valueIn double now = some y) :
    (Expr.call target function [a, b]).valueIn double now = some (op x y) := by
  have hnow : function ≠ "now" := by
    rintro rfl
    cases hop
  rw [Expr.valueIn, hop, ha, hb]
  · rfl
  · exact hnow

theorem evaluateNumeric_value (h : evaluateNumeric now e = .ok (some n)) :
    ∃ t x, e.truncated now = some t ∧ e.exact now = some x ∧ (2 ^ 64 : Int) ∣ n - t ∧
      (Int64Range n ∨ x = n) := by
  induction e using evaluateNumeric.induct generalizing n with
  | case1 value v hv =>
    obtain rfl : v = n := by simpa [evaluateNumeric, hv] using h
    cases value with
    | int64 m =>
      obtain rfl : m = v := by simpa [getConstValue] using hv
      exact ⟨m, m, rfl, rfl, by simp, .inr rfl⟩
    | uint64 m =>
      obtain rfl : wrapInt64 m = v := by simpa [getConstValue] using hv
      exact ⟨m, m, rfl, rfl, dvd_wrapInt64_sub m, .inl (int64Range_wrapInt64 m)⟩
    | _ => simp [getConstValue] at hv
  | case2 value v hv =>
    obtain rfl : v.toInt64 = n := by simpa [evaluateNumeric, hv] using h
    cases value with
    | double w =>
      obtain rfl : w = v := by simpa [getConstValue] using hv
      exact ⟨w.toInt64, w.value, rfl, rfl, by simp, .inl (int64Range_toInt64 w)⟩
    | _ => simp [getConstValue] at hv
  | case3 value hint hfloat =>
    rw [evaluateNumeric] at h
    split at h
    · rename_i v hv
      exact (hint v hv).elim
    · rename_i v hv
      exact (hfloat v hv).elim
    · cases h
  | case4 target args =>
    obtain rfl : now = n := by simpa [evaluateNumeric] using h
    exact ⟨now, now, by simp [Expr.truncated, Expr.valueIn], by simp [Expr.exact, Expr.valueIn],
      by simp, .inr rfl⟩
  | case5 target function a b hnow harith => simp [evaluateNumeric, harith] at h
  | case6 target function a b hnow op harith iha ihb =>
    simp only [evaluateNumeric, harith] at h
    obtain ⟨left, hleft, h⟩ := bind_ok h
    split at h
    · cases h
    · rename_i m
      obtain ⟨right, hright, h⟩ := bind_ok h
      split at h
      · cases h
      · rename_i k
        obtain rfl : op m k = n := by simpa using h
        obtain ⟨t, x, ht, hx, hdvd, -⟩ := iha hleft
        obtain ⟨u, y, hu, hy, hdvd', -⟩ := ihb hright
        obtain ⟨z, q, hz, hq, hfolds⟩ := arithmetic_folds harith
        obtain ⟨hcongr, hrange⟩ := hfolds m k t u hdvd hdvd'
        exact ⟨z t u, q x y, valueIn_call _ hz ht hu, valueIn_call _ hq hx hy, hcongr,
          .inl hrange⟩
  | case7 target function args hnow hargs harith => simp [evaluateNumeric, harith] at h
  | case8 target function args hnow hargs op harith => simp [evaluateNumeric, harith] at h
  | case9 e hconst hnow hcall hany => simp [evaluateNumeric] at h

theorem exact_iff_foldsExactly (h : evaluateNumeric now e = .ok (some n)) :
    (Int64Range n ∧ e.exact now = some (n : ℚ)) ↔ e.FoldsExactly now := by
  obtain ⟨t, x, ht, hx, hdvd, hor⟩ := evaluateNumeric_value h
  constructor
  · rintro ⟨hrange, hexact⟩
    exact ⟨n, t, hexact, hrange, ht, hdvd⟩
  · rintro ⟨m, u, hm, hrange, hu, hdvd'⟩
    obtain rfl : t = u := Option.some.inj (ht.symm.trans hu)
    have hxm : x = m := Option.some.inj (hx.symm.trans hm)
    have hnm : n = m := by
      rcases hor with hn | hn
      · have hsub := Int.dvd_sub hdvd hdvd'
        rw [sub_sub_sub_cancel_right] at hsub
        unfold Int64Range at hn hrange
        omega
      · exact Int.cast_injective (α := ℚ) (hn.symm.trans hxm)
    rw [hnm]
    exact ⟨hrange, hm⟩

theorem numbers_exact_iff_all {es : List Expr} {ns : List Int}
    (h : es.map (evaluateNumeric now) = ns.map fun n => .ok (some n)) :
    ((∀ n ∈ ns, Int64Range n) ∧
        es.map (Expr.exact now) = ns.map fun n : Int => some (n : ℚ)) ↔
      ∀ e ∈ es, e.FoldsExactly now := by
  induction es generalizing ns with
  | nil =>
    obtain rfl : ns = [] := List.map_eq_nil_iff.mp h.symm
    simp
  | cons e es ih =>
    cases ns with
    | nil => cases h
    | cons n ns =>
      obtain ⟨he, hes⟩ := List.cons.inj h
      rw [List.forall_mem_cons, List.forall_mem_cons, ← ih hes, ← exact_iff_foldsExactly he,
        List.map_cons, List.map_cons, List.cons_eq_cons]
      constructor
      · rintro ⟨⟨hn, hns⟩, hexact, hrest⟩
        exact ⟨⟨hn, hexact⟩, hns, hrest⟩
      · rintro ⟨⟨hn, hexact⟩, hns, hrest⟩
        exact ⟨⟨hn, hns⟩, hexact, hrest⟩

theorem evaluateNumeric_of_literal {s : Schema} {v : ValueExpr} (h : buildValueExpr now s e = .ok v)
    (hn : expectNumericLiteral v = .ok n) : evaluateNumeric now e = .ok (some n) := by
  unfold buildValueExpr at h
  split at h
  · split at h <;> cases h
    cases hn
  · split at h
    · rename_i hident lit hlit
      obtain rfl := Except.ok.inj h
      cases e with
      | const value =>
        cases lit <;> cases hn
        all_goals simp [evaluateNumeric, hlit]
      | _ => cases hlit
    · obtain ⟨value, hvalue, h⟩ := bind_ok h
      split at h
      · obtain rfl := Except.ok.inj h
        rw [hvalue, ← Except.ok.inj hn]
      · obtain ⟨b, -, h⟩ := bind_ok h
        split at h
        · obtain rfl := Except.ok.inj h
          cases hn
        · split at h
          · obtain ⟨w, -, h⟩ := bind_ok h
            obtain rfl := Except.ok.inj h
            cases hn
          · cases h
          · cases h

theorem evaluateNumeric_of_literals {s : Schema} {es : List Expr} {vs : List ValueExpr}
    {ns : List Int} (h : es.mapM (buildValueExpr now s) = .ok vs)
    (hn : vs.map expectNumericLiteral = ns.map .ok) :
    es.map (evaluateNumeric now) = ns.map fun n => .ok (some n) := by
  induction es generalizing vs ns with
  | nil =>
    cases h
    obtain rfl : ns = [] := List.map_eq_nil_iff.mp hn.symm
    rfl
  | cons e es ih =>
    rw [List.mapM_cons] at h
    obtain ⟨v, hv, h⟩ := bind_ok h
    obtain ⟨rest, hrest, h⟩ := bind_ok h
    cases h
    cases ns with
    | nil => cases hn
    | cons n ns =>
      obtain ⟨hvn, hns⟩ := List.cons.inj hn
      rw [List.map_cons, List.map_cons, evaluateNumeric_of_literal hv hvn, ih hrest hns]

end folding

section binding

variable {r : Renderer} {f : Field} {vs : List ValueExpr}

def BoundNumbers (vs : List ValueExpr) (new : List Arg) : Prop :=
  ∃ ns : List Int, new = ns.map .int ∧ vs.map expectNumericLiteral = ns.map .ok

theorem addInt_emits {v : ValueExpr} {n : Int} (h : expectNumericLiteral v = .ok n) :
    Emits (r.addArg (.int n)) 1 fun _ new _ => BoundNumbers [v] new := by
  intro st t st' hrun
  cases hrun
  exact ⟨[.int n], rfl, rfl, [n], rfl, by rw [List.map_singleton, h, List.map_singleton]⟩

theorem renderScalarComparison_numbers (hf : f.type = .int ∨ f.type = .timestamp)
    (op : ComparisonOperator) {v : ValueExpr} (hnull : v ≠ .literal .null) :
    Emits (r.renderScalarComparison f op v) 1 fun _ new _ => BoundNumbers [v] new := by
  unfold Renderer.renderScalarComparison
  refine .bindLift fun lit hlit => ?_
  obtain rfl : v = .literal lit := by cases v <;> simp_all [expectLiteral]
  dsimp only
  split
  · exact absurd rfl hnull
  · split
    · rename_i ht
      rcases hf with hf | hf <;> cases ht.symm.trans hf
    · split
      · rename_i n hn
        exact (addInt_emits (v := .literal lit) hn).bindPure fun _ _ _ _ h => h
      · exact .throw _
    · split
      · rename_i n hn
        exact (addInt_emits (v := .literal lit) hn).bindPure fun _ _ _ _ h => h
      · exact .throw _
    · exact .throw _

theorem renderFunctionComparison_numbers (name : String) (args : List ValueExpr)
    (op : ComparisonOperator) (v : ValueExpr) :
    Emits (r.renderFunctionComparison name args op v) 1 fun _ new _ => BoundNumbers [v] new := by
  unfold Renderer.renderFunctionComparison
  refine .check fun _ => ?_
  split
  · refine .bindLift fun g _ => .check fun _ => .bindLift fun n hn => ?_
    exact (addInt_emits hn).bindPure fun _ _ _ _ h => h
  · exact .throw _
  · exact .throw _

theorem renderScalarElement_numbers (hf : f.type = .int ∨ f.type = .timestamp) (v : ValueExpr) :
    Emits (r.renderScalarElement f v) 1 fun _ new _ => BoundNumbers [v] new := by
  unfold Renderer.renderScalarElement
  refine .bindLift fun lit hlit => ?_
  obtain rfl : v = .literal lit := by cases v <;> simp_all [expectLiteral]
  split
  · rename_i ht
    rcases hf with hf | hf <;> cases ht.symm.trans hf
  · exact .bindLift fun n hn => addInt_emits (v := .literal lit) hn
  · exact .throw _

theorem renderScalarElements_numbers (hf : f.type = .int ∨ f.type = .timestamp)
    (vs : List ValueExpr) : Emits (vs.mapM (r.renderScalarElement f)) vs.length
      fun _ new _ => BoundNumbers vs new := by
  induction vs with
  | nil => exact .pure [] rfl fun _ => ⟨[], rfl, rfl⟩
  | cons v vs ih =>
    rw [List.mapM_cons]
    refine .bind (Nat.add_comm _ _) (renderScalarElement_numbers hf v) fun t => ?_
    refine ih.bindPure fun s more ts _ hmore s₀ new _ _ hnew => ?_
    obtain ⟨ms, rfl, hms⟩ := hnew
    obtain ⟨ns, rfl, hns⟩ := hmore
    refine ⟨ms ++ ns, (List.map_append ..).symm, ?_⟩
    rw [List.map_append, ← hms, ← hns]
    rfl

theorem bound_of_render {cond : Condition} {k : Nat} {P : List Arg → Prop} {stmt : Statement}
    (hemits : Emits (r.renderCondition cond) k fun _ new _ => P new)
    (h : r.render cond = .ok stmt) : P stmt.args := by
  obtain ⟨⟨res, st⟩, hrun, h⟩ := bind_ok h
  obtain ⟨new, -, rfl, hp⟩ := hemits {} res st hrun
  have hargs : (push ({} : RenderState) new).args = new := List.nil_append new
  simp only [hargs] at h
  split at h
  · cases h
    exact hp
  · split at h <;> cases h <;> exact hp

end binding

section parts

variable {s : Schema} {now : Int} {opts : RenderOptions} {part : Expr}

theorem comparesNumbers_iff {name : String} :
    s.comparesNumbers name = true ↔
      ∃ f, s.field name = some f ∧ f.kind = .scalar ∧ (f.type = .int ∨ f.type = .timestamp) := by
  unfold Schema.comparesNumbers
  cases s.field name with
  | none => simp
  | some f => simp

theorem buildCondition_comparison {target : Option Expr} {function : String} {l r : Expr}
    {op : ComparisonOperator} (hop : toComparisonOperator function = some op) :
    buildCondition now s (.call target function [l, r]) =
      buildComparisonCondition now s function [l, r] := by
  unfold toComparisonOperator at hop
  split at hop
  case h_7 => cases hop
  all_goals
    rw [buildCondition]
    · rfl
    all_goals intros; contradiction

theorem operand_eq {e : Expr} {v : ValueExpr} (h : buildValueExpr now s e = .ok v)
    (hne : e.operand ≠ []) : e.operand = [e] ∧ v ≠ .literal .null := by
  have hoperand : e.operand = [e] ∧ e ≠ .const .null := by
    unfold Expr.operand at hne ⊢
    split
    · exact absurd rfl hne
    · rename_i hnull
      exact ⟨rfl, hnull⟩
  refine ⟨hoperand.1, ?_⟩
  rintro rfl
  unfold buildValueExpr at h
  split at h
  · split at h <;> cases h
  · split at h
    · rename_i hident lit hlit
      cases h
      unfold getConstValue at hlit
      split at hlit <;> cases hlit
      exact hoperand.2 rfl
    · obtain ⟨value, -, h⟩ := bind_ok h
      split at h
      · cases h
      · obtain ⟨b, -, h⟩ := bind_ok h
        split at h
        · cases h
        · split at h
          · obtain ⟨w, -, h⟩ := bind_ok h
            cases h
          · cases h
          · cases h

theorem buildValueExpr_ident {name : String} {v : ValueExpr}
    (h : buildValueExpr now s (.ident name) = .ok v) : v = .fieldRef name := by
  simp only [buildValueExpr] at h
  split at h <;> cases h
  rfl

theorem buildValueExpr_size {target : Option Expr} {args : List Expr} {v : ValueExpr}
    (h : buildValueExpr now s (.call target "size" args) = .ok v) :
    ∃ name vs, v = .function name vs := by
  have hnumeric : evaluateNumeric now (.call target "size" args) = .ok none := by
    rcases args with _ | ⟨a, _ | ⟨b, _ | ⟨c, args⟩⟩⟩ <;> simp [evaluateNumeric, arithmetic]
  have hbool : evaluateBoolExpr (.call target "size" args) = .ok none := by
    rcases args with _ | ⟨a, _ | ⟨b, args⟩⟩ <;> simp [evaluateBoolExpr]
  unfold buildValueExpr at h
  simp only [getConstValue, hnumeric, hbool, Bind.bind, Except.bind] at h
  split at h
  · obtain ⟨w, -, h⟩ := bind_ok h
    exact ⟨_, _, (Except.ok.inj h).symm⟩
  · cases h
  · cases h

theorem args_comparison {left : ValueExpr} {op : ComparisonOperator} {right : Expr}
    {stmt : Statement} {v : ValueExpr} (hv : buildValueExpr now s right = .ok v)
    (hrender : (newRenderer s opts).render (.comparison left op v) = .ok stmt)
    (hleft : (∃ name, left = .fieldRef name ∧ s.comparesNumbers name = true) ∨
      ∃ name args, left = .function name args)
    (hne : right.operand ≠ []) :
    ∃ ns : List Int, stmt.args = ns.map .int ∧
      right.operand.map (evaluateNumeric now) = ns.map fun n => .ok (some n) := by
  obtain ⟨hoperand, hnull⟩ := operand_eq hv hne
  have hemits : Emits ((newRenderer s opts).renderCondition (.comparison left op v)) 1
      fun _ new _ => BoundNumbers [v] new := by
    rcases hleft with ⟨name, rfl, hname⟩ | ⟨name, args, rfl⟩
    · obtain ⟨f, hf, hkind, htype⟩ := comparesNumbers_iff.mp hname
      refine .bindLift fun g hg => ?_
      obtain rfl : f = g := Option.some.inj (hf.symm.trans (Renderer.lookupField_eq _ hg))
      simp only [hkind]
      exact renderScalarComparison_numbers htype op hnull
    · exact renderFunctionComparison_numbers name args op v
  obtain ⟨ns, hargs, hns⟩ := bound_of_render hemits hrender
  refine ⟨ns, hargs, ?_⟩
  have hmapM : [right].mapM (buildValueExpr now s) = .ok [v] := by
    rw [List.mapM_cons, hv]
    rfl
  rw [hoperand]
  exact evaluateNumeric_of_literals hmapM hns

theorem args_numbers (hs : s.comparesNumbers "tag" = false) {stmt : Statement}
    (h : s.compileToStatement now opts part = .ok stmt) (hne : part.numbers s ≠ []) :
    ∃ ns : List Int, stmt.args = ns.map .int ∧
      (part.numbers s).map (evaluateNumeric now) = ns.map fun n => .ok (some n) := by
  obtain ⟨cond, hcond, hrender⟩ := bind_ok h
  generalize hnumbers : part.numbers s = es at hne ⊢
  unfold Expr.numbers at hnumbers
  split at hnumbers
  · rename_i target name elements
    by_cases hname : s.comparesNumbers name = true
    · rw [if_pos hname] at hnumbers
      obtain rfl := hnumbers
      have hbuilt : buildInCondition now s [.ident name, .list elements] = .ok cond := by
        rw [buildCondition] at hcond
        · exact hcond
        all_goals intros; contradiction
      obtain ⟨-, -, hbuilt⟩ := bind_ok hbuilt
      obtain ⟨vs, hvs, hbuilt⟩ := bind_ok hbuilt
      obtain rfl := Except.ok.inj hbuilt
      obtain ⟨f, hf, hkind, htype⟩ := comparesNumbers_iff.mp hname
      have htag : name ≠ "tag" := by
        rintro rfl
        rw [hs] at hname
        cases hname
      have hemits : Emits ((newRenderer s opts).renderCondition (.inList (.fieldRef name) vs))
          vs.length fun _ new _ => BoundNumbers vs new := by
        refine .ite (fun h => absurd h htag) fun _ => .bindLift fun g hg => .check fun _ => ?_
        obtain rfl : f = g := Option.some.inj (hf.symm.trans (Renderer.lookupField_eq _ hg))
        exact (renderScalarElements_numbers htype vs).bindPure fun _ _ _ _ h => h
      obtain ⟨ns, hargs, hns⟩ := bound_of_render hemits hrender
      exact ⟨ns, hargs, evaluateNumeric_of_literals hvs hns⟩
    · rw [if_neg hname] at hnumbers
      exact absurd hnumbers.symm hne
  · rename_i target function left right hin
    cases hop : toComparisonOperator function with
    | none =>
      simp only [hop] at hnumbers
      exact absurd hnumbers.symm hne
    | some op =>
      rw [buildCondition_comparison hop] at hcond
      simp only [buildComparisonCondition, hop] at hcond
      obtain ⟨l, hl, hcond⟩ := bind_ok hcond
      obtain ⟨v, hv, hcond⟩ := bind_ok hcond
      obtain ⟨-, -, hcond⟩ := bind_ok hcond
      obtain rfl := Except.ok.inj hcond
      simp only [hop] at hnumbers
      split at hnumbers
      · rename_i name _
        obtain rfl := buildValueExpr_ident hl
        by_cases hname : s.comparesNumbers name = true
        · rw [if_pos hname] at hnumbers
          obtain rfl := hnumbers
          exact args_comparison hv hrender (.inl ⟨name, rfl, hname⟩) hne
        · rw [if_neg hname] at hnumbers
          exact absurd hnumbers.symm hne
      · obtain rfl := hnumbers
        exact args_comparison hv hrender (.inr (buildValueExpr_size hl)) hne
      · exact absurd hnumbers.symm hne
  · exact absurd hnumbers.symm hne

theorem tag_not_numeric (hs : s = newSchema ∨ s = newAttachmentSchema) :
    s.comparesNumbers "tag" = false := by
  rcases hs with rfl | rfl <;> rfl

/-- A filter binds its numbers exactly if and only if each of them folds exactly. -/
theorem numbers_exact_iff (hs : s = newSchema ∨ s = newAttachmentSchema) {filter : Expr}
    {stmt : Statement} (h : s.compileToStatement now opts filter = .ok stmt) :
    stmt.args = filter.parts.flatMap (Expr.args s now opts) ∧
      ((∀ part ∈ filter.parts, part.BindsExactly s now opts) ↔
        ∀ part ∈ filter.parts, ∀ e ∈ part.numbers s, e.FoldsExactly now) := by
  obtain ⟨hparts, hargs⟩ := compile_parts h
  refine ⟨hargs, forall_congr' fun part => forall_congr' fun hpart => ?_⟩
  obtain ⟨st, hst⟩ := hparts part hpart
  by_cases hne : part.numbers s = []
  · exact iff_of_true (fun h => absurd hne h) (by simp [hne])
  · obtain ⟨ns, hns, hfolded⟩ := args_numbers (tag_not_numeric hs) hst hne
    have hpartArgs : part.args s now opts = ns.map .int := by
      rw [Expr.args, hst]
      exact hns
    rw [← numbers_exact_iff_all hfolded]
    constructor
    · intro hexact
      obtain ⟨ms, hms, hrange, hvalues⟩ := hexact hne
      obtain rfl : ms = ns := List.map_injective_iff.mpr (fun _ _ h => Arg.int.inj h)
        (hms.symm.trans hpartArgs)
      exact ⟨hrange, hvalues⟩
    · rintro ⟨hrange, hvalues⟩ -
      exact ⟨ns, hpartArgs, hrange, hvalues⟩

end parts

def sinceYesterday : Expr :=
  .call none "_>_" [.ident "created_ts",
    .call none "_-_" [.call none "now" [], .const (.int64 86400)]]

theorem numbers_exact_sinceYesterday :
    ∃ stmt, newSchema.compileToStatement 1700000000 ⟨.sqlite, 0⟩ sinceYesterday = .ok stmt ∧
      stmt.args = sinceYesterday.parts.flatMap (Expr.args newSchema 1700000000 ⟨.sqlite, 0⟩) ∧
      sinceYesterday.BindsExactly newSchema 1700000000 ⟨.sqlite, 0⟩ := by
  have hargs : sinceYesterday.args newSchema 1700000000 ⟨.sqlite, 0⟩ = [.int 1699913600] := by
    decide +kernel
  cases hstmt : newSchema.compileToStatement 1700000000 ⟨.sqlite, 0⟩ sinceYesterday with
  | error e =>
    rw [Expr.args, hstmt] at hargs
    cases hargs
  | ok stmt =>
    obtain ⟨hparts, hexact⟩ := numbers_exact_iff (.inl rfl) hstmt
    refine ⟨stmt, rfl, hparts, hexact.mpr ?_ sinceYesterday (List.mem_singleton.mpr rfl)⟩
    intro part hpart e he
    obtain rfl := List.mem_singleton.mp hpart
    obtain rfl := List.mem_singleton.mp he
    exact ⟨1699913600, 1699913600, congrArg some (Int.cast_sub 1700000000 86400).symm,
      ⟨by decide, by decide⟩, rfl, by simp⟩

def pastLargest : Expr :=
  .call none "_+_" [.const (.int64 9223372036854775807), .const (.int64 1)]

/-- `created_ts < 9223372036854775807 + 1` binds the least `int64`, and `memo_id == 1.5` on
attachments binds 1. -/
theorem numbers_altered :
    (pastLargest.exact 0 = some ((9223372036854775808 : Int) : ℚ) ∧
      Expr.args newSchema 0 ⟨.sqlite, 0⟩ (.call none "_<_" [.ident "created_ts", pastLargest]) =
        [.int (-9223372036854775808)]) ∧
    (Expr.const (.double ⟨3, -1⟩)).exact 0 = some (((3 : Int) : ℚ) * 2 ^ (-1 : Int)) ∧
      Expr.args newAttachmentSchema 0 ⟨.sqlite, 0⟩
        (.call none "_==_" [.ident "memo_id", .const (.double ⟨3, -1⟩)]) = [.int 1] := by
  refine ⟨⟨?_, ?_⟩, rfl, ?_⟩
  · exact congrArg some (Int.cast_add 9223372036854775807 1).symm
  · decide +kernel
  · decide +kernel

end Memoark.Filter
