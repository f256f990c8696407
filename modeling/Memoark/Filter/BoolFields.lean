import Memoark.Filter.Completeness
import Memoark.Filter.Negation

/-! The six ways to ask for a boolean of the payload, and what they make of a missing key. -/
namespace Memoark.Filter
open Memoark.Logic Renderer

/-- `f`, `f == true` and `f != false`, which ask for true, and `!f`, `f == false` and `f != true`,
which ask for the rest. -/
def spellings (name : String) : List (Expr × Bool) :=
  [(.ident name, true),
    (.call none "_==_" [.ident name, .const (.bool true)], true),
    (.call none "_!=_" [.ident name, .const (.bool false)], true),
    (.call none "!_" [.ident name], false),
    (.call none "_==_" [.ident name, .const (.bool false)], false),
    (.call none "_!=_" [.ident name, .const (.bool true)], false)]

/-- The filter compiles, and selects the memo exactly when its value, with a missing key as false,
is the one that it asks for. -/
def AsksFor (now : Int) (opts : RenderOptions) (db : Database) (row : Row) (name : String)
    (filter : Expr) (value : Bool) : Prop :=
  ∃ stmt, compileToStatement now opts filter = .ok stmt ∧
    (stmt.selects opts.dialect db row = true ↔
      (value = true ↔ row.flag name = some (some true)))

section spelling

variable {now : Int} {opts : RenderOptions} {db : Database} {row : Row} {name : String} {f : Field}

theorem asksFor_iff {filter : Expr} {cond : Condition} {value : Bool}
    (hcond : buildCondition now newSchema filter = .ok cond)
    (haccepted : Accepted now ⟨.sqlite, 0⟩ filter) :
    AsksFor now opts db row name filter value ↔
      (cond.truth opts.dialect db row = some .true ↔
        (value = true ↔ row.flag name = some (some true))) := by
  obtain ⟨stmt, hstmt⟩ := haccepted.compiles opts
  obtain ⟨cond', hcond', hrender⟩ := Program.bind_ok hstmt
  obtain rfl : cond = cond' := Except.ok.inj (hcond.symm.trans hcond')
  have hselects := render_selects (buildCondition_checked hcond) hrender db row
  have htruth : stmt.selects opts.dialect db row = true ↔
      cond.truth opts.dialect db row = some .true := by
    rw [hselects, beq_iff_eq]
  rw [← htruth]
  constructor
  · rintro ⟨stmt', hstmt', hiff⟩
    rw [← Except.ok.inj (hstmt.symm.trans hstmt')] at hiff
    exact hiff
  · exact fun hiff => ⟨stmt, hstmt, hiff⟩

theorem jsonBool_name (hf : newSchema.field name = some f) (hk : f.kind = .jsonBool) :
    name ∈ ["has_link", "has_task_list", "has_code", "has_incomplete_tasks"] := by
  have hmem : (name, f) ∈ newSchema.fields.filter (·.2.kind = .jsonBool) :=
    List.mem_filter.mpr ⟨Schema.mem_of_field hf, decide_eq_true hk⟩
  exact (List.Perm.swap _ _ _).mem_iff.mp (List.mem_map_of_mem (f := Prod.fst) hmem)

theorem fieldPredicate_truth {d : DialectName} {flag : Option Bool}
    (hflag : row.flag name = some flag) :
    (Condition.fieldPredicate name).truth d db row = some (.ofBool (flag.getD false)) := by
  cases flag with
  | none => simp [Condition.truth, Condition.faulty, Condition.blocked, Condition.readsMissing,
      Condition.holds, Row.flagValue, hflag]
  | some b => cases b <;> simp [Condition.truth, Condition.faulty, Condition.blocked,
      Condition.readsMissing, Condition.holds, Row.flagValue, hflag]

theorem ofBool_eq_true_iff {b : Bool} : some (Truth.ofBool b) = some .true ↔ b = true := by
  cases b <;> decide

theorem mask_eq_true_iff {blocked b : Bool} :
    some (Truth.mask blocked b) = some .true ↔ blocked = false ∧ b = true := by
  cases blocked <;> cases b <;> decide

theorem asksFor_predicate
    (hname : name ∈ ["has_link", "has_task_list", "has_code", "has_incomplete_tasks"])
    {flag : Option Bool} (hflag : row.flag name = some flag) :
    AsksFor now opts db row name (.ident name) true ∧
      AsksFor now opts db row name (.call none "!_" [.ident name]) false := by
  have hident : buildCondition now newSchema (.ident name) = .ok (.fieldPredicate name) ∧
      Accepted now ⟨.sqlite, 0⟩ (.ident name) := by
    simp only [List.mem_cons, List.not_mem_nil, or_false] at hname
    rcases hname with rfl | rfl | rfl | rfl <;> exact ⟨rfl, _, rfl⟩
  have hnot : buildCondition now newSchema (.call none "!_" [.ident name]) =
        .ok (.not (.fieldPredicate name)) ∧
      Accepted now ⟨.sqlite, 0⟩ (.call none "!_" [.ident name]) := by
    simp only [List.mem_cons, List.not_mem_nil, or_false] at hname
    rcases hname with rfl | rfl | rfl | rfl <;> exact ⟨rfl, _, rfl⟩
  constructor
  · rw [asksFor_iff hident.1 hident.2, fieldPredicate_truth hflag, ofBool_eq_true_iff, hflag]
    cases flag with
    | none => decide
    | some b => cases b <;> decide
  · rw [asksFor_iff hnot.1 hnot.2, truth_not, fieldPredicate_truth hflag, hflag]
    cases flag with
    | none => decide
    | some b => cases b <;> decide

theorem asksFor_comparison
    (hname : name ∈ ["has_link", "has_task_list", "has_code", "has_incomplete_tasks"])
    {flag : Option Bool} (hflag : row.flag name = some flag) (value literal : Bool) :
    AsksFor now opts db row name
        (.call none (if value = literal then "_==_" else "_!=_")
          [.ident name, .const (.bool literal)])
        value ↔
      (flag = none → value = false → unguarded opts.dialect name = false) := by
  have hbuilt : ∃ op, op = (if value = literal then .eq else .neq) ∧
      buildCondition now newSchema (.call none (if value = literal then "_==_" else "_!=_")
        [.ident name, .const (.bool literal)]) =
          .ok (.comparison (.fieldRef name) op (.literal (.bool literal))) ∧
      Accepted now ⟨.sqlite, 0⟩ (.call none (if value = literal then "_==_" else "_!=_")
        [.ident name, .const (.bool literal)]) := by
    simp only [List.mem_cons, List.not_mem_nil, or_false] at hname
    rcases hname with rfl | rfl | rfl | rfl <;> cases value <;> cases literal <;>
      exact ⟨_, rfl, rfl, _, rfl⟩
  obtain ⟨op, hop, hcond, haccepted⟩ := hbuilt
  rw [asksFor_iff hcond haccepted, jsonBool_truth db hflag, mask_eq_true_iff, hflag, hop]
  cases flag with
  | none => cases value <;> cases literal <;> simp [compareBool, compareInt]
  | some b => cases b <;> cases value <;> cases literal <;> simp [compareBool, compareInt]

theorem unguarded_eq_false {d : DialectName} :
    unguarded d name = false ↔ d = .sqlite ∧ name ≠ "has_task_list" := by
  cases d with
  | sqlite => simp [unguarded_sqlite]
  | mysql => simp [unguarded_mysql]
  | postgres => simp [unguarded_postgres]

/-- A spelling selects the memo as it should exactly when the payload has the key, when it asks
for true or is the negation, or in SQLite for another field than `has_task_list`. -/
theorem asksFor_spelling_iff (hf : newSchema.field name = some f) (hk : f.kind = .jsonBool)
    {s : Expr × Bool} (hs : s ∈ spellings name) (now : Int) (opts : RenderOptions)
    (db : Database) (row : Row) :
    AsksFor now opts db row name s.1 s.2 ↔
      (∃ b, row.flag name = some (some b)) ∨ s.2 = true ∨ s.1 = .call none "!_" [.ident name] ∨
        opts.dialect = .sqlite ∧ name ≠ "has_task_list" := by
  have hname := jsonBool_name hf hk
  have hflag : ∃ flag, row.flag name = some flag := by
    simp only [List.mem_cons, List.not_mem_nil, or_false] at hname
    rcases hname with rfl | rfl | rfl | rfl <;> exact ⟨_, rfl⟩
  obtain ⟨flag, hflag⟩ := hflag
  have hpredicate := @asksFor_predicate now opts db row name hname flag hflag
  have hcomparison := @asksFor_comparison now opts db row name hname flag hflag
  have hpresent : (∃ b, row.flag name = some (some b)) ↔ flag ≠ none := by
    rw [hflag, Option.ne_none_iff_exists']
    simp
  rw [hpresent]
  simp only [spellings, List.mem_cons, List.not_mem_nil, or_false] at hs
  rcases hs with rfl | rfl | rfl | rfl | rfl | rfl
  · exact iff_of_true hpredicate.1 (.inr (.inl rfl))
  · exact iff_of_true ((hcomparison true true).mpr fun _ h => absurd h (by decide))
      (.inr (.inl rfl))
  · exact iff_of_true ((hcomparison true false).mpr fun _ h => absurd h (by decide))
      (.inr (.inl rfl))
  · exact iff_of_true hpredicate.2 (.inr (.inr (.inl rfl)))
  · have hguard := hcomparison false false
    rw [if_pos rfl] at hguard
    rw [hguard, unguarded_eq_false]
    cases flag <;> simp
  · have hguard := hcomparison false true
    rw [if_neg (by decide)] at hguard
    rw [hguard, unguarded_eq_false]
    cases flag <;> simp

end spelling

/-- SQLite guards `has_link == false`. -/
theorem asksFor_hasLink :
    AsksFor 0 ⟨.sqlite, 0⟩ plainDatabase bareMemo "has_link"
        (.call none "_==_" [.ident "has_link", .const (.bool false)]) false ↔
      (∃ b, bareMemo.flag "has_link" = some (some b)) ∨ false = true ∨
        Expr.call none "_==_" [.ident "has_link", .const (.bool false)] =
          .call none "!_" [.ident "has_link"] ∨
        DialectName.sqlite = .sqlite ∧ "has_link" ≠ "has_task_list" :=
  @asksFor_spelling_iff "has_link" _ rfl rfl
    (.call none "_==_" [.ident "has_link", .const (.bool false)], false) (by simp [spellings])
    0 ⟨.sqlite, 0⟩ plainDatabase bareMemo

/-- PostgreSQL and MySQL do not guard `has_link == false`, nor SQLite `has_task_list != true`:
a memo without the key is not selected. -/
theorem missing_key_unselected :
    (∃ stmt, compileToStatement 0 ⟨.postgres, 0⟩
        (.call none "_==_" [.ident "has_link", .const (.bool false)]) = .ok stmt ∧
      stmt.selects .postgres plainDatabase bareMemo = false) ∧
    (∃ stmt, compileToStatement 0 ⟨.mysql, 0⟩
        (.call none "_==_" [.ident "has_link", .const (.bool false)]) = .ok stmt ∧
      stmt.selects .mysql plainDatabase bareMemo = false) ∧
    (∃ stmt, compileToStatement 0 ⟨.sqlite, 0⟩
        (.call none "_!=_" [.ident "has_task_list", .const (.bool true)]) = .ok stmt ∧
      stmt.selects .sqlite plainDatabase bareMemo = false) ∧
    bareMemo.flag "has_link" = some none ∧ bareMemo.flag "has_task_list" = some none :=
  ⟨⟨_, rfl, by decide⟩, ⟨_, rfl, by decide⟩, ⟨_, rfl, by decide⟩, rfl, rfl⟩

end Memoark.Filter
