import Memoark.Cel.Join
import Memoark.Web.MemoFilters

/-! Each condition that the hook adds by itself is read as the condition it is meant to be. -/
namespace Memoark.Web

open Cel (Library Token brackets Lexis Identifier Numeral Operand stringList)
open Memoark.Filter (Expr)
open Js (stringify)

def NumberText (text : String) : Prop :=
  text = "NaN" ∨ Numeral text ∨ ∃ t, Numeral t ∧ text = "-" ++ t

def creatorExpr (name : String) : Expr :=
  .call none "_==_" [.ident "creator", .const (.string (normalizedName name))]

def visibilityExpr (visibilities : List Visibility) : Expr :=
  .call none "@in" [.ident "visibility",
    .list (visibilities.map fun v => .const (.string (getVisibilityName v)))]

def MemoFilter.expr (filter : MemoFilter) : Option Expr :=
  match filter.factor with
  | .contentSearch =>
    some (.call (some (.ident "content")) "contains" [.const (.string filter.value)])
  | .tagSearch => some (.call none "@in" [.ident "tag", .list [.const (.string filter.value)]])
  | .pinned => some (.ident "pinned")
  | .propertyHasLink => some (.ident "has_link")
  | .propertyHasTaskList => some (.ident "has_task_list")
  | .propertyHasCode => some (.ident "has_code")
  | .displayTime | .visibility => none

variable {C : Library}

theorem tree_leaf {operator : String} {es : List Expr} {e' : Expr} (h : Cel.Tree operator es e') :
    es ≠ [] ∧ ∀ e, es = [e] → e' = e := by
  induction h with
  | leaf e => exact ⟨List.cons_ne_nil e [], fun f hf => by simpa using hf⟩
  | call ha hb iha ihb =>
    refine ⟨by simp [iha.1], fun f hf => ?_⟩
    rcases List.append_eq_singleton_iff.mp hf with ⟨hnil, -⟩ | ⟨-, hnil⟩
    · exact absurd hnil iha.1
    · exact absurd hnil ihb.1

theorem tree_single (hC : Cel.Productions C) (e : Expr) : C.tree [[e]] = e := by
  have hand := (tree_leaf (hC.chain "_&&_" (List.cons_ne_nil e []))).2 e rfl
  have hor := (tree_leaf (hC.chain "_||_" (List.cons_ne_nil (C.chain "_&&_" [e]) []))).2 _ rfl
  exact hor.trans hand

theorem tree_pair (hC : Cel.Productions C) (e f : Expr) :
    C.tree [[e, f]] = .call none "_&&_" [e, f] := by
  have hpair : ∀ {es : List Expr} {e' : Expr}, Cel.Tree "_&&_" es e' → es = [e, f] →
      e' = .call none "_&&_" [e, f] := by
    intro es e' h hes
    cases h with
    | leaf g => cases hes
    | @call es fs a b ha hb =>
      obtain ⟨hane, haleaf⟩ := tree_leaf ha
      obtain ⟨hbne, hbleaf⟩ := tree_leaf hb
      cases es with
      | nil => exact absurd rfl hane
      | cons g es =>
        cases es with
        | cons g' es =>
          have hlength := congrArg List.length hes
          have hpos := List.length_pos_iff.mpr hbne
          simp only [List.length_append, List.length_cons, List.length_nil] at hlength
          omega
        | nil =>
          obtain ⟨rfl, rfl⟩ : g = e ∧ fs = [f] := by simpa using hes
          rw [haleaf g rfl, hbleaf f rfl]
  have hand := hpair (hC.chain "_&&_" (List.cons_ne_nil e [f])) rfl
  have hor := (tree_leaf (hC.chain "_||_" (List.cons_ne_nil (C.chain "_&&_" [e, f]) []))).2 _ rfl
  exact hor.trans hand

theorem reads_relation {text : String} {ts : List Token} {e : Expr}
    (hlex : C.lex text = some (ts, false)) (hrelation : C.relation ts = some e)
    (hand : .and ∉ ts) (hor : .or ∉ ts) (hquestion : .question ∉ ts) :
    C.Reads text false [[e]] := by
  refine ⟨ts, hlex, ⟨ts, brackets.cut_of_not_mem hquestion 0⟩, ?_⟩
  simp [Library.alternatives, brackets.cut_of_not_mem hor, brackets.cut_of_not_mem hand, hrelation]

theorem lex_stringify (hC : Lexis C.lex) (s : String) :
    C.lex (stringify s) = some ([.string s], false) := by
  have hliteral := hC.literal (Js.literal_quote s.toList)
  rwa [String.ofList_toList] at hliteral

theorem lex_creator (hC : Lexis C.lex) (name : String) :
    C.lex ("creator == " ++ stringify (normalizedName name)) =
      some ([.word "creator", .symbol "==", .string (normalizedName name)], false) := by
  have hword := hC.word (w := "creator") (by decide)
  have hsymbol := hC.symbol (s := "==") (by decide)
  have hliteral := lex_stringify hC (normalizedName name)
  have hlex := hC.blank (hC.blank hword hsymbol) hliteral
  have htext : "creator" ++ " " ++ "==" ++ " " = "creator == " := by decide
  rw [htext] at hlex
  exact hlex

theorem single_creator (hC : C.Documented) (name : String) :
    C.Single ("creator == " ++ stringify (normalizedName name)) [creatorExpr name] where
  reads := by
    have hrelation := hC.productions.equality (x := "creator") (by decide) (normalizedName name)
    exact reads_relation (lex_creator hC.lexis name) hrelation (by simp) (by simp) (by simp)
  newline := by
    have hstart : '\n' ∉ "creator == ".toList := by decide
    simp only [String.toList_append, List.mem_append, not_or]
    exact ⟨hstart, Js.newline_stringify _⟩

theorem single_content (hC : C.Documented) (value : String) :
    C.Single ("content.contains(" ++ escapeFilterValue value ++ ")")
      [.call (some (.ident "content")) "contains" [.const (.string value)]] where
  reads := by
    have hopen : ("(", Token.opening '(') ∈ Cel.punctuation := by decide
    have hclose : (")", Token.closing ')') ∈ Cel.punctuation := by decide
    have hmember := hC.lexis.selection (w := "content") (m := "contains") (by decide) (by decide)
    have hliteral := lex_stringify hC.lexis value
    have hlex := hC.lexis.punctuation hclose (hC.lexis.punctuation hopen hmember hliteral)
      hC.lexis.empty
    have hrelation := hC.productions.contains (x := "content") (by decide) value
    have htext : "content" ++ "." ++ "contains" ++ "(" = "content.contains(" := by decide
    rw [String.append_empty, htext] at hlex
    exact reads_relation hlex hrelation (by simp) (by simp) (by simp)
  newline := by
    have hstart : '\n' ∉ "content.contains(".toList := by decide
    have hend : '\n' ∉ ")".toList := by decide
    simp only [String.toList_append, List.mem_append, not_or]
    exact ⟨⟨hstart, Js.newline_stringify _⟩, hend⟩

theorem reads_membership (hC : C.Documented) {name list : String} {ss : List String}
    (hname : Identifier name) (hlist : C.lex list = some (stringList ss, false)) :
    C.Reads (name ++ " in [" ++ list ++ "]") false
      [[.call none "@in" [.ident name, .list (ss.map fun s => .const (.string s))]]] := by
  have hopen : ("[", Token.opening '[') ∈ Cel.punctuation := by decide
  have hclose : ("]", Token.closing ']') ∈ Cel.punctuation := by decide
  have hin := hC.lexis.symbol (s := "in") (by decide)
  have hhead := hC.lexis.blank (hC.lexis.blank (hC.lexis.word hname) hin) hC.lexis.empty
  have hlex := hC.lexis.punctuation hclose (hC.lexis.punctuation hopen hhead hlist) hC.lexis.empty
  have htext : name ++ " " ++ "in" ++ " " ++ "" ++ "[" ++ list ++ "]" ++ "" =
      name ++ " in [" ++ list ++ "]" := by
    have hin : " in [" = " " ++ "in" ++ " " ++ "" ++ "[" := by decide
    rw [hin]
    simp [String.append_assoc]
  rw [htext] at hlex
  have hflat : ∀ t : Token, (∀ s, t ≠ .string s) → t ≠ .symbol "," → t ∉ stringList ss := by
    intro t hstring hcomma ht
    rcases Cel.mem_stringList ht with ⟨s, hs⟩ | hs
    · exact hstring s hs
    · exact hcomma hs
  have hand := hflat .and (by simp) (by simp)
  have hor := hflat .or (by simp) (by simp)
  have hquestion := hflat .question (by simp) (by simp)
  have hrelation := hC.productions.membership hname ss
  exact reads_relation hlex (by simpa using hrelation) (by simp [hand]) (by simp [hor])
    (by simp [hquestion])

theorem newline_membership {name list : String} (hname : Identifier name)
    (hlist : '\n' ∉ list.toList) : '\n' ∉ (name ++ " in [" ++ list ++ "]").toList := by
  have hword : '\n' ∉ name.toList := fun h =>
    absurd (List.all_eq_true.mp hname.1.1 _ h) (by decide)
  have hin : '\n' ∉ " in [".toList := by decide
  have hclose : '\n' ∉ "]".toList := by decide
  simp only [String.toList_append, List.mem_append, not_or]
  exact ⟨⟨⟨hword, hin⟩, hlist⟩, hclose⟩

theorem tag_in : "tag" ++ " in [" = "tag in [" := by decide

theorem single_tag (hC : C.Documented) (value : String) :
    C.Single ("tag in [" ++ escapeFilterValue value ++ "]")
      [.call none "@in" [.ident "tag", .list [.const (.string value)]]] where
  reads := by
    have hname : Identifier "tag" := by decide
    have hlist : C.lex (escapeFilterValue value) = some (stringList [value], false) :=
      lex_stringify hC.lexis value
    have hreads := reads_membership hC hname hlist
    rw [tag_in] at hreads
    exact hreads
  newline := by
    have hname : Identifier "tag" := by decide
    have hline := newline_membership hname (Js.newline_stringify value)
    rw [tag_in] at hline
    exact hline

theorem single_word (hC : C.Documented) {x : String} (hx : Identifier x) :
    C.Single x [.ident x] where
  reads := reads_relation (hC.lexis.word hx) (hC.productions.identifier hx) (by simp) (by simp)
    (by simp)
  newline h := absurd (List.all_eq_true.mp hx.1.1 _ h) (by decide)

theorem literal_plain {cs : List Char} (h : ∀ c ∈ cs, c ∉ ['"', '\\', '\n', '\r']) :
    Cel.Literal cs cs := by
  induction cs with
  | nil => exact .nil
  | cons c cs ih =>
    exact .cons (.plain (h c (by simp))) (ih fun d hd => h d (List.mem_cons_of_mem c hd))

theorem lex_visibilityName (hC : Lexis C.lex) (v : Visibility) :
    C.lex ("\"" ++ getVisibilityName v ++ "\"") = some ([.string (getVisibilityName v)], false) := by
  have hplain : ((getVisibilityName v).toList.all fun c =>
      decide (c ∉ ['"', '\\', '\n', '\r'])) = true := by
    cases v <;> decide
  have hliteral := hC.literal (literal_plain fun c hc =>
    of_decide_eq_true (List.all_eq_true.mp hplain c hc))
  rwa [String.ofList_toList] at hliteral

theorem visibilityNames_cons (v w : Visibility) (vs : List Visibility) :
    ", ".intercalate ((v :: w :: vs).map fun v => "\"" ++ getVisibilityName v ++ "\"") =
      "\"" ++ getVisibilityName v ++ "\"" ++ ", " ++
        ", ".intercalate ((w :: vs).map fun v => "\"" ++ getVisibilityName v ++ "\"") :=
  String.intercalate_cons_cons

theorem lex_visibilityNames (hC : Lexis C.lex) (vs : List Visibility) :
    C.lex (", ".intercalate (vs.map fun v => "\"" ++ getVisibilityName v ++ "\"")) =
      some (stringList (vs.map getVisibilityName), false) := by
  induction vs with
  | nil => exact hC.empty
  | cons v vs ih =>
    cases vs with
    | nil => simpa [stringList] using lex_visibilityName hC v
    | cons w vs =>
      have hcomma : (",", Token.symbol ",") ∈ Cel.punctuation := by decide
      have hfirst := hC.punctuation hcomma (lex_visibilityName hC v) hC.empty
      have hlex := hC.blank hfirst ih
      have hjoin : ∀ s t : String, s ++ "," ++ "" ++ " " ++ t = s ++ ", " ++ t := by
        intro s t
        have hsep : ", " = "," ++ "" ++ " " := by decide
        rw [hsep]
        simp [String.append_assoc]
      rw [hjoin] at hlex
      rw [visibilityNames_cons]
      exact hlex

theorem newline_visibilityNames (vs : List Visibility) :
    '\n' ∉ (", ".intercalate (vs.map fun v => "\"" ++ getVisibilityName v ++ "\"")).toList := by
  have hname : ∀ v, '\n' ∉ ("\"" ++ getVisibilityName v ++ "\"").toList := by
    intro v
    cases v <;> decide
  have hsep : '\n' ∉ ", ".toList := by decide
  induction vs with
  | nil => simp
  | cons v vs ih =>
    cases vs with
    | nil => simpa using hname v
    | cons w vs =>
      rw [visibilityNames_cons]
      simp only [String.toList_append, List.mem_append, not_or] at hname ih ⊢
      exact ⟨⟨hname v, hsep⟩, ih⟩

theorem visibility_in : "visibility" ++ " in [" = "visibility in [" := by decide

theorem single_visibility (hC : C.Documented) (vs : List Visibility) :
    C.Single ("visibility in [" ++
        ", ".intercalate (vs.map fun v => "\"" ++ getVisibilityName v ++ "\"") ++ "]")
      [visibilityExpr vs] where
  reads := by
    have hnames := lex_visibilityNames hC.lexis vs
    have hname : Identifier "visibility" := by decide
    have hreads := reads_membership hC hname hnames
    rw [List.map_map, visibility_in] at hreads
    exact hreads
  newline := by
    have hname : Identifier "visibility" := by decide
    have hline := newline_membership hname (newline_visibilityNames vs)
    rw [visibility_in] at hline
    exact hline

theorem lex_number (hC : Lexis C.lex) {text : String} (h : NumberText text) :
    ∃ ts, C.lex text = some (ts, false) ∧ Operand ts := by
  rcases h with rfl | h | ⟨t, h, rfl⟩
  · exact ⟨_, hC.word (by decide), .variable (by decide)⟩
  · exact ⟨_, hC.numeral h, .number h⟩
  · exact ⟨_, hC.negative h, .negative h⟩

theorem newline_number {text : String} (h : NumberText text) : '\n' ∉ text.toList := by
  have hdigits : ∀ {t : String}, Syntax.Digits t → '\n' ∉ t.toList := fun ht hmem =>
    absurd (ht.2 _ hmem) (by decide)
  have hnumeral : ∀ {t : String}, Numeral t → '\n' ∉ t.toList := by
    intro t ht
    rcases ht with ⟨ht, -⟩ | ⟨whole, fraction, hw, hf, rfl⟩
    · exact hdigits ht
    · have hdot : '\n' ∉ ".".toList := by decide
      simp only [String.toList_append, List.mem_append, not_or]
      exact ⟨⟨hdigits hw, hdot⟩, hdigits hf⟩
  rcases h with rfl | h | ⟨t, h, rfl⟩
  · decide
  · exact hnumeral h
  · have hminus : '\n' ∉ "-".toList := by decide
    simp only [String.toList_append, List.mem_append, not_or]
    exact ⟨hminus, hnumeral h⟩

theorem single_comparison (hC : C.Documented) {operator text : String}
    (hoperator : operator ∈ [">=", "<"]) (h : NumberText text) :
    ∃ e, C.Single ("created_ts " ++ operator ++ " " ++ text) [e] := by
  obtain ⟨ts, hlex, hoperand⟩ := lex_number hC.lexis h
  have hword := hC.lexis.word (w := "created_ts") (by decide)
  have hsymbols : operator ∈ Cel.symbols := by
    simp only [List.mem_cons, List.not_mem_nil, or_false] at hoperator
    rcases hoperator with rfl | rfl <;> decide
  have hall := hC.lexis.blank (hC.lexis.blank hword (hC.lexis.symbol hsymbols)) hlex
  obtain ⟨e, he⟩ := hC.productions.comparison (x := "created_ts") (by decide) hoperator hoperand
  have htext : "created_ts" ++ " " ++ operator ++ " " ++ text =
      "created_ts " ++ operator ++ " " ++ text := by
    have hstart : "created_ts " = "created_ts" ++ " " := by decide
    rw [hstart]
  rw [htext] at hall
  refine ⟨e, reads_relation hall he ?_ ?_ ?_, ?_⟩
  · cases hoperand <;> simp
  · cases hoperand <;> simp
  · cases hoperand <;> simp
  · have hstart : '\n' ∉ "created_ts ".toList := by decide
    have hspace : '\n' ∉ " ".toList := by decide
    have hline : '\n' ∉ operator.toList := by
      simp only [List.mem_cons, List.not_mem_nil, or_false] at hoperator
      rcases hoperator with rfl | rfl <;> decide
    simp only [String.toList_append, List.mem_append, not_or]
    exact ⟨⟨⟨hstart, hline⟩, hspace⟩, newline_number h⟩

theorem single_displayTime (hC : C.Documented) {after before : String} (hafter : NumberText after)
    (hbefore : NumberText before) :
    ∃ es, C.Single ("created_ts >= " ++ after ++ " && " ++ "created_ts < " ++ before) es := by
  have hfrom : ">=" ∈ [">=", "<"] := by decide
  have hto : "<" ∈ [">=", "<"] := by decide
  obtain ⟨e, he⟩ := single_comparison hC hfrom hafter
  obtain ⟨f, hf⟩ := single_comparison hC hto hbefore
  have hge : "created_ts " ++ ">=" ++ " " = "created_ts >= " := by decide
  have hlt : "created_ts " ++ "<" ++ " " = "created_ts < " := by decide
  rw [hge] at he
  rw [hlt] at hf
  have hboth := he.and hC hf
  rw [← String.append_assoc] at hboth
  exact ⟨[e] ++ [f], hboth⟩

theorem parse_single (hC : C.Documented) {text : String} {e : Expr} (h : C.Single text [e])
    (hsize : text.length ≤ C.sizeLimit) : C.parse text = some e := by
  rw [h.reads.parse hsize, tree_single hC.productions]

variable {dayBounds : DayBounds} {options : UseMemoFiltersOptions} {context : FilterContext}

theorem single_of_expr (hC : C.Documented) {filter : MemoFilter} {includePinned : Bool}
    {condition : String} {e : Expr} (hc : filter.condition dayBounds includePinned = some condition)
    (he : filter.expr = some e) : C.Single condition [e] := by
  unfold MemoFilter.condition at hc
  unfold MemoFilter.expr at he
  cases hf : filter.factor with
  | contentSearch =>
    simp only [hf, Option.some.injEq] at hc he
    rw [← hc, ← he]
    exact single_content hC filter.value
  | tagSearch =>
    simp only [hf, Option.some.injEq] at hc he
    rw [← hc, ← he]
    exact single_tag hC filter.value
  | pinned =>
    simp only [hf, Option.some.injEq] at hc he
    split at hc
    · rw [← Option.some.inj hc, ← he]
      exact single_word hC (by decide)
    · cases hc
  | propertyHasLink | propertyHasTaskList | propertyHasCode =>
    simp only [hf, Option.some.injEq] at hc he
    rw [← hc, ← he]
    exact single_word hC (by decide)
  | displayTime | visibility => simp [hf] at he

def DayBounds.Numbers (dayBounds : DayBounds) : Prop :=
  ∀ value, NumberText (dayBounds value).1 ∧ NumberText (dayBounds value).2

theorem single_condition (hC : C.Documented) (hdays : dayBounds.Numbers) {filter : MemoFilter}
    {includePinned : Bool} {condition : String}
    (hc : filter.condition dayBounds includePinned = some condition) :
    ∃ es, C.Single condition es := by
  cases he : filter.expr with
  | some e => exact ⟨[e], single_of_expr hC hc he⟩
  | none =>
    unfold MemoFilter.condition at hc
    unfold MemoFilter.expr at he
    cases hf : filter.factor with
    | displayTime =>
      simp only [hf, Option.some.injEq] at hc
      rw [← hc]
      exact single_displayTime hC (hdays filter.value).1 (hdays filter.value).2
    | visibility => simp [hf] at hc
    | _ => simp [hf] at he

end Memoark.Web
