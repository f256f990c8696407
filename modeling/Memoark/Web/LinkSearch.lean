import Memoark.Web.Combination

/-! The search of the dialog that links memos (`useLinkMemo.ts`), whose filter has the text as it was
typed. -/
namespace Memoark.Web

open Cel (Library Token Mentions Plain Quoting Productions brackets)
open Memoark.Filter (Expr Accepted RenderOptions)
open Logic (Truth)

def contentCondition (searchText : String) : String := "content.contains(\"" ++ searchText ++ "\")"

def linkFilter (userName searchText : String) : String :=
  " && ".intercalate ((buildMemoCreatorFilter userName).toList ++
    if searchText = "" then [] else [contentCondition searchText])

def contentExpr (searchText : String) : Expr :=
  .call (some (.ident "content")) "contains" [.const (.string searchText)]

/-- The server takes the filter, and for all values of the conditions on a memo it selects the memo
exactly if the memo is the user's and contains the text. An empty filter selects every memo. -/
def LinkMeans (C : Library) (now : Int) (opts : RenderOptions) (userName searchText : String) : Prop :=
  (linkFilter userName searchText = "" ∨
    ∃ e, C.parse (linkFilter userName searchText) = some e ∧ Accepted now opts e) ∧
  ∀ v : Expr → Truth,
    (linkFilter userName searchText = "" ∨ C.Selects v (linkFilter userName searchText)) ↔
      (userName ≠ "" → (creatorExpr userName).Selects v) ∧
        (searchText ≠ "" → (contentExpr searchText).Selects v)

variable {C : Library} {now : Int} {opts : RenderOptions} {userName searchText : String}

section plain

theorem single_contentCondition (hC : C.Documented) (hplain : Plain searchText) :
    C.Single (contentCondition searchText) [contentExpr searchText] where
  reads := by
    have hopen : ("(", Token.opening '(') ∈ Cel.punctuation := by decide
    have hclose : (")", Token.closing ')') ∈ Cel.punctuation := by decide
    have hmember := hC.lexis.selection (w := "content") (m := "contains") (by decide) (by decide)
    have hliteral := hC.lexis.literal (literal_plain hplain)
    rw [String.ofList_toList] at hliteral
    have hlex := hC.lexis.punctuation hclose (hC.lexis.punctuation hopen hmember hliteral)
      hC.lexis.empty
    have hrelation := hC.productions.contains (x := "content") (by decide) searchText
    have hstart : "content" ++ "." ++ "contains" ++ "(" ++ "\"" = "content.contains(\"" := by simp
    have hend : "\"" ++ ")" = "\")" := by simp
    rw [String.append_empty, ← String.append_assoc, ← String.append_assoc, hstart,
      String.append_assoc, hend] at hlex
    exact reads_relation hlex hrelation (by simp) (by simp) (by simp)
  newline := by
    have hstart : '\n' ∉ "content.contains(\"".toList := by decide
    have hend : '\n' ∉ "\")".toList := by decide
    unfold contentCondition
    simp only [String.toList_append, List.mem_append, not_or]
    exact ⟨⟨hstart, fun h => absurd (hplain '\n' h) (by decide)⟩, hend⟩

theorem single_creatorFilter (hC : C.Documented) {condition : String}
    (h : buildMemoCreatorFilter userName = some condition) :
    C.Single condition [creatorExpr userName] := by
  obtain ⟨-, h⟩ := Option.ite_none_left_eq_some.mp h
  obtain rfl := Option.some.inj h
  exact single_creator hC userName

theorem accepted_creator : Accepted now opts (creatorExpr userName) := by
  cases opts with
  | mk dialect offset => cases dialect <;> exact ⟨_, rfl⟩

theorem accepted_content : Accepted now opts (contentExpr searchText) := by
  cases opts with
  | mk dialect offset => cases dialect <;> exact ⟨_, rfl⟩

theorem accepted_both :
    Accepted now opts (.call none "_&&_" [creatorExpr userName, contentExpr searchText]) := by
  cases opts with
  | mk dialect offset => cases dialect <;> exact ⟨_, rfl⟩

end plain

section typed

theorem tokens_of_typed (hQ : Quoting C) (hplain : ¬Plain searchText) {s : String}
    {us ts : List Token} {b : Bool} (hopen : C.lex (s ++ "(") = some (us, false))
    (h : C.lex (s ++ "(\"" ++ (searchText ++ "\")")) = some (ts, b)) :
    ∃ vs, ts = us ++ vs ∧ .string searchText ∉ vs := by
  obtain ⟨body, value, rest, vs, hu, hle, hexact, hrest, rfl⟩ := hQ.literal hopen h
  refine ⟨.string value :: vs, rfl, fun hmem => ?_⟩
  have hend : "\")".toList = ['"', ')'] := rfl
  have hquote : "\"".toList = ['"'] := rfl
  have hlist : searchText.toList ++ ['"', ')'] = body.toList ++ '"' :: rest.toList := by
    have hlist := congrArg String.toList hu
    rw [String.toList_append, String.toList_append, String.toList_append, hend, hquote,
      List.append_assoc] at hlist
    exact hlist
  have hlength : searchText.length + 2 = body.length + rest.length + 1 := by
    have hlength := congrArg List.length hlist
    simp only [List.length_append, List.length_cons, List.length_nil, String.length_toList] at hlength
    omega
  rcases List.mem_cons.mp hmem with hvalue | hvs
  · obtain rfl : searchText = value := by simpa using hvalue
    by_cases hrestEmpty : rest = ""
    · -- the text cannot end with the quote of the literal
      have hlast := congrArg List.getLast? hlist
      rw [hrestEmpty] at hlast
      simp at hlast
    · have hpos : 0 < rest.length := by
        rw [← String.length_toList]
        exact List.length_pos_of_ne_nil fun hnil => hrestEmpty (String.toList_eq_nil_iff.mp hnil)
      have heq : searchText.length = body.length := by omega
      have hlen : searchText.toList.length = body.toList.length := by
        rw [String.length_toList, String.length_toList]
        exact heq
      obtain ⟨hbody, -⟩ := List.append_inj hlist hlen
      rw [String.toList_inj] at hbody
      exact hplain (hbody ▸ hexact heq)
  · have hbound := hQ.bound hrest hvs
    omega

theorem lex_open (hC : Cel.Lexis C.lex) : C.lex ("content.contains" ++ "(") =
    some ([.word "content", .symbol ".", .word "contains", .opening '('], false) := by
  have hopen : ("(", Token.opening '(') ∈ Cel.punctuation := by decide
  have hmember := hC.selection (w := "content") (m := "contains") (by decide) (by decide)
  have hlex := hC.punctuation hopen hmember hC.empty
  have hname : "content" ++ "." ++ "contains" = "content.contains" := by simp
  rw [String.append_empty, hname] at hlex
  exact hlex

theorem not_mentions_typed (hC : C.Documented) (hQ : Quoting C) (hplain : ¬Plain searchText)
    {b : Bool} {alts : List (List Expr)} (h : C.Reads (linkFilter userName searchText) b alts)
    {alt : List Expr} (halt : alt ∈ alts) {e : Expr} (he : e ∈ alt) :
    e = creatorExpr userName ∨ ¬Mentions searchText e := by
  have hne : searchText ≠ "" := by
    rintro rfl
    exact hplain fun c hc => absurd hc List.not_mem_nil
  have hstart : "content.contains(\"" = "content.contains" ++ "(\"" := by simp
  obtain ⟨ts, hlex, -, halts⟩ := h
  unfold linkFilter contentCondition at hlex
  rw [if_neg hne, hstart] at hlex
  have hnone : ∀ {us vs : List Token}, .string searchText ∉ us → (∀ t ∈ vs, t ∈ us) →
      C.relation vs = some e → ¬Mentions searchText e :=
    fun hus hsub hrelation hmentions => hus (hsub _ (hQ.constants hrelation hmentions))
  cases hcreator : buildMemoCreatorFilter userName with
  | none =>
    rw [hcreator] at hlex
    change C.lex ("content.contains" ++ "(\"" ++ searchText ++ "\")") = _ at hlex
    rw [String.append_assoc] at hlex
    obtain ⟨vs, rfl, hvs⟩ := tokens_of_typed hQ hplain (lex_open hC.lexis) hlex
    obtain ⟨us, hsub, hrelation⟩ := Library.relation_of_alternatives halts halt he
    right
    exact hnone (by simpa using hvs) hsub hrelation
  | some condition =>
    rw [hcreator] at hlex
    change C.lex (condition ++ " && " ++ ("content.contains" ++ "(\"" ++ searchText ++ "\")")) = _
      at hlex
    have htext : condition ++ " && " ++ ("content.contains" ++ "(\"" ++ searchText ++ "\")") =
        condition ++ " && " ++ "content.contains" ++ "(\"" ++ (searchText ++ "\")") := by
      simp only [String.append_assoc]
    rw [htext] at hlex
    obtain ⟨-, hcondition⟩ := Option.ite_none_left_eq_some.mp hcreator
    obtain rfl := Option.some.inj hcondition
    have hname := lex_creator hC.lexis userName
    have hopen := Library.lex_and hC.lexis hname (lex_open hC.lexis)
    rw [← String.append_assoc] at hopen
    obtain ⟨vs, rfl, hvs⟩ := tokens_of_typed hQ hplain hopen hlex
    have hrelation := hC.productions.equality (x := "creator") (by decide) (normalizedName userName)
    rw [List.append_assoc, List.cons_append] at halts
    rcases Library.relation_of_alternatives_and hC.productions hrelation (by simp) (by simp) halts
      halt he with hcreator | ⟨us, hsub, hrelation⟩
    · exact .inl hcreator
    · exact .inr (hnone (by simpa using hvs) hsub hrelation)

theorem not_linkMeans (hC : C.Documented) (hQ : Quoting C) (hplain : ¬Plain searchText) :
    ¬LinkMeans C now opts userName searchText := by
  classical
  have hne : searchText ≠ "" := by
    rintro rfl
    exact hplain fun c hc => absurd hc List.not_mem_nil
  rintro ⟨haccepted, hmeans⟩
  have hcontent : ∀ v : Expr → Truth,
      (contentExpr searchText).value v = v (contentExpr searchText) := fun v =>
    Filter.value_call (by decide) (by decide) (by decide)
  have hfilter : linkFilter userName searchText ≠ "" := by
    intro hempty
    have hselects := ((hmeans fun _ => .false).mp (.inl hempty)).2 hne
    have hfalse := (hcontent fun _ => .false).symm.trans hselects
    cases hfalse
  obtain ⟨e, hparse, haccepted⟩ := haccepted.resolve_left hfilter
  have hform : ∀ args, e ≠ .call none "_?_:_" args := by
    rintro args rfl
    exact not_accepted_conditional haccepted
  obtain ⟨hsize, b, alts, hreads, rfl⟩ := Library.reads_of_parse hC.productions hparse hform
  -- two memos that differ in the condition on the text alone
  let v : Expr → Truth := fun _ => .true
  let v' : Expr → Truth := fun e => if e = contentExpr searchText then .false else .true
  have hcreator : ∀ v : Expr → Truth,
      (creatorExpr userName).value v = v (creatorExpr userName) := fun v =>
    Filter.value_call (by decide) (by decide) (by decide)
  have hsame : ∀ alt ∈ alts, ∀ e ∈ alt, e.value v = e.value v' := by
    intro alt halt e he
    rcases not_mentions_typed hC hQ hplain hreads halt he with rfl | hmentions
    · rw [hcreator, hcreator]
      exact (if_neg (by unfold creatorExpr contentExpr; simp)).symm
    · refine Cel.value_congr (fun e hno => (if_neg ?_).symm) hmentions
      rintro rfl
      exact hno (.arg List.mem_cons_self .const)
  have hselects : C.Selects v (linkFilter userName searchText) →
      C.Selects v' (linkFilter userName searchText) := by
    rw [hreads.selects_iff hC.productions hsize, hreads.selects_iff hC.productions hsize]
    rintro ⟨alt, halt, hall⟩
    refine ⟨alt, halt, fun e he => ?_⟩
    exact (hsame alt halt e he).symm.trans (hall e he)
  have hv := (hmeans v).mpr ⟨fun _ => hcreator v, fun _ => hcontent v⟩
  have hv' := (hmeans v').mp (.inr (hselects (hv.resolve_left hfilter)))
  have hfalse := (hcontent v').symm.trans (hv'.2 hne)
  have hvalue : v' (contentExpr searchText) = .false := if_pos rfl
  rw [hvalue] at hfalse
  cases hfalse

end typed

section meaning

theorem contentCondition_ne (searchText : String) : contentCondition searchText ≠ "" := by
  intro h
  have hstart : "content.contains(\"" ≠ "" := by simp
  exact hstart (String.append_eq_empty_iff.mp (String.append_eq_empty_iff.mp h).1).1

theorem creatorFilter_ne {condition : String}
    (h : buildMemoCreatorFilter userName = some condition) : condition ≠ "" ∧ userName ≠ "" := by
  obtain ⟨hname, h⟩ := Option.ite_none_left_eq_some.mp h
  obtain rfl := Option.some.inj h
  have hstart : "creator == " ≠ "" := by simp
  exact ⟨fun hempty => hstart (String.append_eq_empty_iff.mp hempty).1, hname⟩

theorem linkMeans_of_plain (hC : C.Documented) (hplain : Plain searchText)
    (hsize : (linkFilter userName searchText).length ≤ C.sizeLimit) :
    LinkMeans C now opts userName searchText := by
  have hmeans : ∀ {es : List Expr} {e : Expr}, linkFilter userName searchText ≠ "" →
      C.Single (linkFilter userName searchText) es → C.tree [es] = e → Accepted now opts e →
      (∀ v : Expr → Truth, Cel.AllSelect v es ↔ (userName ≠ "" → (creatorExpr userName).Selects v) ∧
        (searchText ≠ "" → (contentExpr searchText).Selects v)) →
      LinkMeans C now opts userName searchText := by
    intro es e hne hsingle htree haccepted hall
    refine ⟨.inr ⟨e, htree ▸ hsingle.reads.parse hsize, haccepted⟩, fun v => ?_⟩
    rw [or_iff_right hne, hsingle.selects_iff hC.productions hsize]
    exact hall v
  have hcontent := single_contentCondition hC hplain
  by_cases htext : searchText = ""
  · cases hcreator : buildMemoCreatorFilter userName with
    | none =>
      have hname : userName = "" := by
        by_contra hname
        rw [buildMemoCreatorFilter, if_neg hname] at hcreator
        cases hcreator
      have hempty : linkFilter userName searchText = "" := by
        rw [linkFilter, hcreator, if_pos htext]
        rfl
      refine ⟨.inl hempty, fun v => iff_of_true (.inl hempty) ?_⟩
      exact ⟨fun hne => absurd hname hne, fun hne => absurd htext hne⟩
    | some condition =>
      obtain ⟨hne, hname⟩ := creatorFilter_ne hcreator
      have hfilter : linkFilter userName searchText = condition := by
        rw [linkFilter, hcreator, if_pos htext]
        rfl
      apply hmeans (hfilter ▸ hne) (hfilter ▸ single_creatorFilter hC hcreator)
        (tree_single hC.productions _) accepted_creator
      intro v
      simp [Cel.AllSelect, hname, htext]
  · cases hcreator : buildMemoCreatorFilter userName with
    | none =>
      have hname : userName = "" := by
        by_contra hname
        rw [buildMemoCreatorFilter, if_neg hname] at hcreator
        cases hcreator
      have hfilter : linkFilter userName searchText = contentCondition searchText := by
        rw [linkFilter, hcreator, if_neg htext]
        rfl
      apply hmeans (hfilter ▸ contentCondition_ne searchText) (hfilter ▸ hcontent)
        (tree_single hC.productions _) accepted_content
      intro v
      simp [Cel.AllSelect, hname, htext]
    | some condition =>
      obtain ⟨hne, hname⟩ := creatorFilter_ne hcreator
      have hfilter : linkFilter userName searchText =
          condition ++ " && " ++ contentCondition searchText := by
        rw [linkFilter, hcreator, if_neg htext]
        rfl
      have hsingle := (single_creatorFilter hC hcreator).and hC hcontent
      have hboth : condition ++ " && " ++ contentCondition searchText ≠ "" := fun hempty =>
        contentCondition_ne searchText (String.append_eq_empty_iff.mp hempty).2
      apply hmeans (hfilter ▸ hboth) (hfilter ▸ hsingle) (tree_pair hC.productions _ _) accepted_both
      intro v
      simp [Cel.AllSelect, hname, htext]

/-- For every text and user, the server takes the filter and it means the user's memos with the text
exactly if the text has no quotes, backslashes or line ends and the filter is not too long. -/
theorem linkMeans_iff (hC : C.Documented) (hQ : Quoting C) (now : Int) (opts : RenderOptions)
    (userName searchText : String) : LinkMeans C now opts userName searchText ↔
      Plain searchText ∧ (linkFilter userName searchText).length ≤ C.sizeLimit := by
  constructor
  · intro h
    refine ⟨by_contra fun hplain => not_linkMeans hC hQ hplain h, ?_⟩
    rcases h.1 with hempty | ⟨e, he, -⟩
    · rw [hempty]
      exact Nat.zero_le _
    · by_contra hsize
      rw [Library.parse, if_neg hsize] at he
      cases he
  · rintro ⟨hplain, hsize⟩
    exact linkMeans_of_plain hC hplain hsize

theorem linkMeans_groceries :
    LinkMeans Cel.Reference.library 0 ⟨.sqlite, 0⟩ "users/ann" "milk & 100% 'rye'" :=
  (linkMeans_iff Cel.Reference.documented Cel.Reference.quoting 0 ⟨.sqlite, 0⟩ "users/ann"
    "milk & 100% 'rye'").mpr ⟨by decide +kernel, by decide +kernel⟩

/-- The text breaks out of the literal: a memo of another user is selected by its link. A lone quote
makes a filter that is refused. -/
theorem linkFilter_breaks_out :
    linkFilter "users/ann" "x\") || has_link || content.contains(\"y" = "creator == \"users/ann\" " ++
        "&& content.contains(\"x\") || has_link || content.contains(\"y\")" ∧
      (∃ e, Cel.Reference.library.parse
          (linkFilter "users/ann" "x\") || has_link || content.contains(\"y") = some e ∧
        Accepted 0 ⟨.sqlite, 0⟩ e) ∧
      Cel.Reference.library.Selects onLinkedMemo
        (linkFilter "users/ann" "x\") || has_link || content.contains(\"y") ∧
      ¬Cel.Reference.library.Selects onLinkedMemo (linkFilter "users/ann" "") ∧
      Cel.Reference.library.parse (linkFilter "users/ann" "\"") = none ∧
      ¬LinkMeans Cel.Reference.library 0 ⟨.sqlite, 0⟩ "users/ann" "\"" := by
  have hcompiles : (Cel.Reference.library.parse
      (linkFilter "users/ann" "x\") || has_link || content.contains(\"y")).any
        fun e => (Filter.compileToStatement 0 ⟨.sqlite, 0⟩ e).isOk := by decide +kernel
  obtain ⟨e, hparse, hok⟩ := (Option.any_eq_true ..).mp hcompiles
  refine ⟨by decide +kernel, ⟨e, hparse, ?_⟩, by decide +kernel, by decide +kernel, by rfl, ?_⟩
  · cases hcompile : Filter.compileToStatement 0 ⟨.sqlite, 0⟩ e with
    | ok stmt => exact ⟨stmt, hcompile⟩
    | error message =>
      rw [hcompile] at hok
      cases hok
  · exact not_linkMeans Cel.Reference.documented Cel.Reference.quoting (by decide)

end meaning

end Memoark.Web
