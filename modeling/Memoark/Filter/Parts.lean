import Memoark.Filter.Agreement

/-! The parts of a filter between its logical operators: the databases of the three dialects
select a memo alike by every filter of some parts exactly when each part is uniform on the memo. -/
namespace Memoark.Filter

open Logic (Truth)
open Program (Total)

/-- The conditions that the logical operators of a filter connect. -/
@[grind =] def Expr.parts : Expr → List Expr
  | .call _ "_&&_" [l, r] => l.parts ++ r.parts
  | .call _ "_||_" [l, r] => l.parts ++ r.parts
  | .call _ "!_" [e] => e.parts
  | e => [e]

@[grind =] def Condition.leaves : Condition → List Condition
  | .logical _ l r => l.leaves ++ r.leaves
  | .not e => e.leaves
  | leaf => [leaf]

def Expr.Uniform (now : Int) (C : Collations) (row : Row) (e : Expr) : Prop :=
  ∀ cond, buildCondition now newSchema e = .ok cond → cond.Uniform C row

/-- The filter compiles in every dialect, and the databases select the memo alike. -/
def SelectedAlike (now : Int) (C : Collations) (row : Row) (e : Expr) : Prop :=
  ∃ selected, ∀ opts : RenderOptions, ∃ stmt, compileToStatement now opts e = .ok stmt ∧
    stmt.selects opts.dialect (C.database opts.dialect) row = selected

variable {now : Int} {opts : RenderOptions} {C : Collations} {row : Row}

section leaves

variable {cond : Condition}

theorem Condition.IsLeaf.leaves (h : cond.IsLeaf) : cond.leaves = [cond] := by
  cases cond with
  | logical op l r => exact h.elim
  | not e => exact h.elim
  | _ => rfl

theorem isLeaf_of_mem {leaf : Condition} (h : leaf ∈ cond.leaves) : leaf.IsLeaf := by
  induction cond with
  | logical op l r hl hr =>
    rcases List.mem_append.mp h with h | h
    · exact hl h
    · exact hr h
  | not e ih => exact ih h
  | _ =>
    obtain rfl := List.mem_singleton.mp h
    trivial

theorem parts_call {target : Option Expr} {function : String} {args : List Expr}
    (hand : function ≠ "_&&_") (hor : function ≠ "_||_") (hnot : function ≠ "!_") :
    (Expr.call target function args).parts = [.call target function args] := by
  unfold Expr.parts
  split
  · rename_i heq
    cases heq
    exact absurd rfl hand
  · rename_i heq
    cases heq
    exact absurd rfl hor
  · rename_i heq
    cases heq
    exact absurd rfl hnot
  · rfl

theorem parts_of_leaf {s : Schema} {e : Expr} (h : buildCondition now s e = .ok cond)
    (hparts : e.parts = [e]) (hleaf : cond.IsLeaf) :
    e.parts.map (buildCondition now s) = cond.leaves.map .ok := by
  rw [hparts, hleaf.leaves, List.map_singleton, List.map_singleton, h]

theorem buildCondition_parts {s : Schema} {e : Expr} (h : buildCondition now s e = .ok cond) :
    e.parts.map (buildCondition now s) = cond.leaves.map .ok := by
  induction e using (buildCondition.induct s) generalizing cond with
  | case1 t l r hl hr | case3 t l r hl hr =>
    rw [buildCondition] at h
    obtain ⟨x, hx, h⟩ := Program.bind_ok h
    obtain ⟨y, hy, h⟩ := Program.bind_ok h
    cases h
    rw [Expr.parts, Condition.leaves, List.map_append, List.map_append, hl hx, hr hy]
  | case5 t arg ih =>
    rw [buildCondition] at h
    obtain ⟨x, hx, h⟩ := Program.bind_ok h
    cases h
    rw [Expr.parts, Condition.leaves, ih hx]
  | case2 t args hargs | case4 t args hargs | case6 t args hargs =>
    rw [buildCondition] at h
    · cases h
    · exact hargs
  | case7 t function args =>
    have hparts : (Expr.call t function args).parts = [.call t function args] := by
      apply parts_call
      all_goals assumption
    refine parts_of_leaf h hparts ?_
    rw [buildCondition] at h
    · exact (leafCall_leaf h).1
    all_goals assumption
  | case8 value =>
    refine parts_of_leaf h rfl ?_
    rw [buildCondition] at h
    obtain ⟨lit, -, h⟩ := Program.bind_ok h
    split at h <;> cases h
    trivial
  | case9 name hf =>
    simp [buildCondition, hf] at h
  | case10 name f hf ht =>
    refine parts_of_leaf h rfl ?_
    simp only [buildCondition, hf, ht, if_true] at h
    cases h
    trivial
  | case11 name f hf ht =>
    simp [buildCondition, hf, ht] at h
  | case12 =>
    refine parts_of_leaf h rfl ?_
    rw [buildCondition] at h
    exact (comprehension_leaf h).1
  | case13 =>
    rw [buildCondition] at h
    · cases h
    all_goals assumption

theorem leaf_of_part {e a : Expr} (h : buildCondition now newSchema e = .ok cond)
    (ha : a ∈ e.parts) : ∃ leaf ∈ cond.leaves, buildCondition now newSchema a = .ok leaf := by
  have hmem := List.mem_map_of_mem (f := buildCondition now newSchema) ha
  rw [buildCondition_parts h] at hmem
  obtain ⟨leaf, hleaf, heq⟩ := List.mem_map.mp hmem
  exact ⟨leaf, hleaf, heq.symm⟩

theorem part_of_leaf {e : Expr} {leaf : Condition} (h : buildCondition now newSchema e = .ok cond)
    (hleaf : leaf ∈ cond.leaves) : ∃ a ∈ e.parts, buildCondition now newSchema a = .ok leaf := by
  have hmem := List.mem_map_of_mem (f := Except.ok (ε := String)) hleaf
  rw [← buildCondition_parts h] at hmem
  exact List.mem_map.mp hmem

theorem alike_of_leaves (h : ∀ leaf ∈ cond.leaves, leaf.Alike C row) : cond.Alike C row := by
  induction cond with
  | logical op l r hl hr =>
    obtain ⟨hleft, hright⟩ := List.forall_mem_append.mp h
    intro d
    cases hc : (Condition.logical op l r).constantValue with
    | none => rw [truth_logical hc, truth_logical hc, hl hleft d, hr hright d]
    | some value => rw [truth_constant hc, truth_constant hc]
  | not e ih =>
    intro d
    rw [truth_not, truth_not, ih h d]
  | _ => exact h _ List.mem_cons_self

end leaves

section rendering

theorem renders_logical {op : LogicalOperator} {l r : Condition} (hl : Renders opts l)
    (hr : Renders opts r) : Renders opts (.logical op l r) :=
  Total.bind hl fun _ => Total.bind hr fun _ => .pure _

theorem renders_not {cond : Condition} (h : Renders opts cond) : Renders opts (.not cond) :=
  Total.bind h fun _ => .pure _

theorem renders_leaves {cond : Condition} (hchecked : cond.Checked newSchema)
    (h : Renders opts cond) : ∀ leaf ∈ cond.leaves, Renders opts leaf := by
  induction cond with
  | logical op l r hl hr =>
    obtain ⟨res, h⟩ := h {}
    obtain ⟨⟨a, st⟩, ha, h⟩ := Program.bind_ok h
    obtain ⟨⟨b, st'⟩, hb, -⟩ := Program.bind_ok h
    exact List.forall_mem_append.mpr ⟨hl hchecked.1 (renders_of_ok hchecked.1 ha),
      hr hchecked.2 (renders_of_ok hchecked.2 hb)⟩
  | not e ih =>
    obtain ⟨res, h⟩ := h {}
    obtain ⟨⟨a, st⟩, ha, -⟩ := Program.bind_ok h
    exact ih hchecked (renders_of_ok hchecked ha)
  | _ => exact List.forall_mem_singleton.mpr h

theorem selectedAlike_iff {e : Expr} {cond : Condition}
    (hcond : buildCondition now newSchema e = .ok cond) (hrenders : ∀ opts, Renders opts cond) :
    SelectedAlike now C row e ↔ ∀ d, (cond.truth d (C.database d) row == some .true) =
      (cond.truth .sqlite (C.database .sqlite) row == some .true) := by
  have hselects : ∀ opts, ∃ stmt, compileToStatement now opts e = .ok stmt ∧
      stmt.selects opts.dialect (C.database opts.dialect) row =
        (cond.truth opts.dialect (C.database opts.dialect) row == some .true) := by
    intro opts
    obtain ⟨stmt, hstmt⟩ := (hrenders opts).render_ok
    refine ⟨stmt, by simp [compileToStatement, hcond, hstmt, Bind.bind, Except.bind], ?_⟩
    exact render_selects (buildCondition_checked hcond) hstmt _ row
  constructor
  · rintro ⟨selected, h⟩
    have heq : ∀ d, (cond.truth d (C.database d) row == some .true) = selected := by
      intro d
      obtain ⟨stmt, hstmt, hselected⟩ := h ⟨d, 0⟩
      obtain ⟨stmt', hstmt', htruth⟩ := hselects ⟨d, 0⟩
      obtain rfl : stmt = stmt' := Except.ok.inj (hstmt.symm.trans hstmt')
      exact htruth.symm.trans hselected
    intro d
    rw [heq d, heq .sqlite]
  · intro h
    refine ⟨cond.truth .sqlite (C.database .sqlite) row == some .true, fun opts => ?_⟩
    obtain ⟨stmt, hstmt, htruth⟩ := hselects opts
    exact ⟨stmt, hstmt, htruth.trans (h opts.dialect)⟩

end rendering

section combinations

/-- The filter combines some parts, and the condition `pinned`, by logical operators. -/
def Expr.Combines (parts : List Expr) (e : Expr) : Prop :=
  ∀ a ∈ e.parts, a ∈ parts ∨ a = .ident "pinned"

def Expr.negated (e : Expr) : Expr := .call none "!_" [e]

/-- A filter that selects every memo on which the SQL of the operand has no error. -/
def Expr.orPinned (e : Expr) : Expr :=
  .call none "_||_" [.call none "_||_" [.ident "pinned", (Expr.ident "pinned").negated], e]

def Condition.orPinned (cond : Condition) : Condition :=
  .logical .or (.logical .or (.fieldPredicate "pinned") (.not (.fieldPredicate "pinned"))) cond

theorem parts_of_part {e a : Expr} (h : a ∈ e.parts) : a.parts = [a] := by
  induction e using Expr.parts.induct with
  | case1 t l r hl hr | case2 t l r hl hr =>
    rw [Expr.parts] at h
    rcases List.mem_append.mp h with h | h
    · exact hl h
    · exact hr h
  | case3 t e ih =>
    rw [Expr.parts] at h
    exact ih h
  | case4 e hand hor hnot =>
    have hparts : e.parts = [e] := Expr.parts.eq_4 e hand hor hnot
    rw [hparts] at h
    obtain rfl := List.mem_singleton.mp h
    exact hparts

variable {cond : Condition}

theorem build_negated {e : Expr} (h : buildCondition now newSchema e = .ok cond) :
    buildCondition now newSchema e.negated = .ok (.not cond) := by
  rw [Expr.negated, buildCondition, h]
  rfl

theorem build_or {l r : Expr} {a b : Condition} (hl : buildCondition now newSchema l = .ok a)
    (hr : buildCondition now newSchema r = .ok b) :
    buildCondition now newSchema (.call none "_||_" [l, r]) = .ok (.logical .or a b) := by
  rw [buildCondition, hl, hr]
  rfl

theorem build_orPinned {e : Expr} (h : buildCondition now newSchema e = .ok cond) :
    buildCondition now newSchema e.orPinned = .ok cond.orPinned := by
  have hpinned : buildCondition now newSchema (.ident "pinned") = .ok (.fieldPredicate "pinned") :=
    rfl
  exact build_or (build_or hpinned (build_negated hpinned)) h

theorem renders_orPinned (h : Renders opts cond) : Renders opts cond.orPinned := by
  have hpinned : Renders opts (.fieldPredicate "pinned") := fun _ => ⟨_, rfl⟩
  exact renders_logical (renders_logical hpinned (renders_not hpinned)) h

theorem truth_orPinned (d : DialectName) (db : Database) (hc : cond.constantValue = none) :
    (cond.orPinned.truth d db row == some .true) = (cond.truth d db row).isSome := by
  have hpinned : (Condition.logical .or (.fieldPredicate "pinned")
      (.not (.fieldPredicate "pinned"))).truth d db row = some .true := by
    rw [truth_logical rfl, truth_not]
    cases hrow : row.pinned <;>
      simp [Condition.truth, Condition.faulty, Condition.blocked, Condition.readsMissing,
        Condition.holds, Row.flagValue, Row.flag, hrow, LogicalOperator.apply, Truth.ofBool,
        Truth.or, Truth.not]
  have hnone : cond.orPinned.constantValue = none := by
    simp [Condition.orPinned, Condition.constantValue, hc]
  unfold Condition.orPinned at hnone ⊢
  rw [truth_logical hnone, hpinned]
  cases cond.truth d db row <;> rfl

/-- The truth of a condition shows in what it, its negation and a sure disjunction select. -/
theorem eq_of_selections {x y : Option Truth} (htrue : (x == some .true) = (y == some .true))
    (hfalse : (x.map Truth.not == some .true) = (y.map Truth.not == some .true))
    (hsome : x.isSome = y.isSome) : x = y := by
  rcases x with _ | _ | _ | _ <;> rcases y with _ | _ | _ | _ <;>
    first | rfl | exact absurd htrue (by decide) | exact absurd hfalse (by decide) |
      exact absurd hsome (by decide)

theorem selectedAlike_of_uniform {e : Expr} (h : Accepted now opts e)
    (huniform : ∀ a ∈ e.parts, a.Uniform now C row) : SelectedAlike now C row e := by
  obtain ⟨cond, hcond, hrenders⟩ := accepted_iff.mp h
  have halike : cond.Alike C row := by
    apply alike_of_leaves
    intro leaf hleaf
    obtain ⟨a, ha, hbuild⟩ := part_of_leaf hcond hleaf
    exact (leaf_alike (isLeaf_of_mem hleaf)).mpr (huniform a ha leaf hbuild)
  rw [selectedAlike_iff hcond hrenders]
  intro d
  rw [halike d]

theorem uniform_of_selectedAlike {a : Expr} (hcond : buildCondition now newSchema a = .ok cond)
    (hleaf : cond.IsLeaf) (hrenders : ∀ opts, Renders opts cond)
    (hself : SelectedAlike now C row a) (hnegated : SelectedAlike now C row a.negated)
    (hsure : SelectedAlike now C row a.orPinned) : cond.Uniform C row := by
  rw [← leaf_alike hleaf]
  intro d
  cases hc : cond.constantValue with
  | some value => rw [truth_constant hc, truth_constant hc]
  | none =>
    have hnot := (selectedAlike_iff (build_negated hcond) fun opts =>
      renders_not (hrenders opts)).mp hnegated d
    have hor := (selectedAlike_iff (build_orPinned hcond) fun opts =>
      renders_orPinned (hrenders opts)).mp hsure d
    rw [truth_not, truth_not] at hnot
    rw [truth_orPinned _ _ hc, truth_orPinned _ _ hc] at hor
    exact eq_of_selections ((selectedAlike_iff hcond hrenders).mp hself d) hnot hor

/-- The three databases select a memo alike by every filter that combines the parts of an accepted
filter exactly if each part is uniform on the memo. -/
theorem selectedAlike_combinations_iff (now : Int) (opts : RenderOptions) (e : Expr)
    (h : Accepted now opts e) (C : Collations) (row : Row) :
    (∀ g, Accepted now opts g → g.Combines e.parts → SelectedAlike now C row g) ↔
      ∀ a ∈ e.parts, a.Uniform now C row := by
  obtain ⟨whole, hwhole, hwholeRenders⟩ := accepted_iff.mp h
  constructor
  · intro hall a ha cond hcond
    obtain ⟨leaf, hleaf, hbuild⟩ := leaf_of_part hwhole ha
    obtain rfl : leaf = cond := Except.ok.inj (hbuild.symm.trans hcond)
    have hrenders : ∀ opts, Renders opts leaf := fun opts =>
      renders_leaves (buildCondition_checked hwhole) (hwholeRenders opts) leaf hleaf
    have hparts := parts_of_part ha
    apply uniform_of_selectedAlike hcond (isLeaf_of_mem hleaf) hrenders
    · exact hall a (accepted_iff.mpr ⟨leaf, hcond, hrenders⟩) (by simp [Expr.Combines, hparts, ha])
    · refine hall a.negated (accepted_iff.mpr ⟨_, build_negated hcond, fun opts => ?_⟩) ?_
      · exact renders_not (hrenders opts)
      · simp [Expr.Combines, Expr.negated, Expr.parts, hparts, ha]
    · refine hall a.orPinned (accepted_iff.mpr ⟨_, build_orPinned hcond, fun opts => ?_⟩) ?_
      · exact renders_orPinned (hrenders opts)
      · simp [Expr.Combines, Expr.orPinned, Expr.negated, Expr.parts, hparts, ha]
  · intro huniform g hg hcombines
    apply selectedAlike_of_uniform hg
    intro a ha
    rcases hcombines a ha with ha | rfl
    · exact huniform a ha
    · intro cond hcond
      obtain rfl : .fieldPredicate "pinned" = cond := Except.ok.inj hcond
      trivial

end combinations

section texts

def binaryCollations : Collations where
  unicodeFold text := String.ofList (text.toList.map Char.toLower)
  mysqlCompare a b := if a = b then .eq else if a < b then .lt else .gt
  mysql_refl a := if_pos rfl
  mysqlSame a b := a = b
  mysql_emptyArray tags := by
    rw [← arrayText_eq_empty ", " tags]
    unfold spacedText
    split_ifs <;> simp_all
  postgresCompare a b := if a = b then .eq else if a < b then .lt else .gt
  postgres_eq a b := by split_ifs <;> simp_all
  postgresLower text := String.ofList (text.toList.map Char.toLower)

def taggedMemo (tag : String) : Row := { bareMemo with tags := some [tag] }

def workInTags : Expr := .call none "@in" [.const (.string "work"), .ident "tags"]

/-- The memo that has the tag is selected alike. -/
theorem selectedAlike_work :
    (∀ g, Accepted 0 ⟨.sqlite, 0⟩ g → g.Combines workInTags.parts →
        SelectedAlike 0 binaryCollations (taggedMemo "work") g) ∧
      SelectedAlike 0 binaryCollations (taggedMemo "work") workInTags := by
  have huniform : ∀ a ∈ workInTags.parts, a.Uniform 0 binaryCollations (taggedMemo "work") := by
    intro a ha cond hcond
    obtain rfl := List.mem_singleton.mp ha
    obtain rfl : .elementIn (.literal (.string "work")) "tags" = cond := Except.ok.inj hcond
    refine ⟨"work", by decide, fun tags htags => ?_⟩
    obtain rfl := Option.some.inj htags
    decide
  have hall := (selectedAlike_combinations_iff 0 ⟨.sqlite, 0⟩ workInTags ⟨_, rfl⟩ binaryCollations
    (taggedMemo "work")).mpr huniform
  exact ⟨hall, hall workInTags ⟨_, rfl⟩ fun a ha => .inl ha⟩

/-- SQLite finds the tag `Work` too, and the others do not. -/
theorem work_not_selectedAlike : Accepted 0 ⟨.sqlite, 0⟩ workInTags ∧
    ¬SelectedAlike 0 binaryCollations (taggedMemo "Work") workInTags := by
  refine ⟨⟨_, rfl⟩, ?_⟩
  rintro ⟨selected, h⟩
  obtain ⟨stmt, hstmt, hsqlite⟩ := h ⟨.sqlite, 0⟩
  obtain ⟨stmt', hstmt', hmysql⟩ := h ⟨.mysql, 0⟩
  cases hstmt
  cases hstmt'
  have htrue : selected = true := hsqlite.symm.trans (by decide)
  have hfalse : selected = false := hmysql.symm.trans (by decide)
  exact Bool.noConfusion (htrue.symm.trans hfalse)

end texts

end Memoark.Filter
