import Memoark.Cel.Reference
import Memoark.Filter.Agreement
import Memoark.Web.Conditions

/-! The combined filter of the memo views against the conditions it is made of. -/
namespace Memoark.Web

open Cel (Library)
open Memoark.Filter (Expr Accepted RenderOptions Row)
open Logic (Truth)

variable {C : Library} {dayBounds : DayBounds} {options : UseMemoFiltersOptions}
  {context : FilterContext}

/-- The conditions other than the shortcut are read as what they are meant to select by. -/
structure Intended (C : Library) (dayBounds : DayBounds) (options : UseMemoFiltersOptions)
    (context : FilterContext) : Prop where
  creator : ∀ name, options.creatorName = some name → ∀ condition,
    buildMemoCreatorFilter name = some condition → condition.length ≤ C.sizeLimit →
      C.parse condition = some (creatorExpr name)
  filters : ∀ filter ∈ context.filters, ∀ condition,
    filter.condition dayBounds options.includePinned = some condition →
      ∀ e, filter.expr = some e → condition.length ≤ C.sizeLimit → C.parse condition = some e
  visibility : ∀ visibilities, options.visibilities = some visibilities → visibilities ≠ [] →
    ∀ condition ∈ visibilityConditions options, condition.length ≤ C.sizeLimit →
      C.parse condition = some (visibilityExpr visibilities)

theorem intended (hC : C.Documented) : Intended C dayBounds options context where
  creator := by
    intro name _ condition hc hsize
    unfold buildMemoCreatorFilter at hc
    split at hc
    · cases hc
    · cases hc
      exact parse_single hC (single_creator hC name) hsize
  filters := by
    intro filter _ condition hc e he hsize
    exact parse_single hC (single_of_expr hC hc he) hsize
  visibility := by
    intro vs hvs hne condition hc hsize
    unfold visibilityConditions at hc
    rw [hvs] at hc
    cases vs with
    | nil => exact absurd rfl hne
    | cons v vs =>
      obtain rfl := List.mem_singleton.mp hc
      exact parse_single hC (single_visibility hC (v :: vs)) hsize

theorem single_creatorConditions (hC : C.Documented) :
    ∀ c ∈ creatorConditions options, ∃ es, C.Single c es := by
  intro c hc
  unfold creatorConditions at hc
  split at hc
  · rename_i name hname
    have hbuild : buildMemoCreatorFilter name = some c := by simpa using hc
    unfold buildMemoCreatorFilter at hbuild
    split at hbuild
    · cases hbuild
    · cases hbuild
      exact ⟨_, single_creator hC name⟩
  · cases hc

theorem single_laterConditions (hC : C.Documented) (hdays : dayBounds.Numbers) :
    ∀ c ∈ laterConditions dayBounds options context, ∃ es, C.Single c es := by
  intro c hc
  rcases List.mem_append.mp hc with hfilter | hvisibility
  · obtain ⟨filter, -, hcondition⟩ := List.mem_filterMap.mp hfilter
    exact single_condition hC hdays hcondition
  · unfold visibilityConditions at hvisibility
    split at hvisibility
    · cases hvisibility
    · cases hvisibility
    · rename_i vs _ _
      obtain rfl := List.mem_singleton.mp hvisibility
      exact ⟨_, single_visibility hC vs⟩

theorem not_accepted_conditional {now : Int} {opts : RenderOptions} {args : List Expr} :
    ¬Accepted now opts (.call none "_?_:_" args) := by
  rintro ⟨stmt, h⟩
  obtain ⟨cond, hcond, -⟩ := Program.bind_ok h
  rw [Filter.buildCondition] at hcond
  · exact Filter.buildConstantCall_ne_ok (by decide) hcond
  all_goals simp

/-- For every input, each condition but the shortcut is read as it is meant, and the text means
the conjunction of the conditions exactly when it is not longer than the library allows and no
alternative of the shortcut selects a memo, with the conditions joined to it, that another
condition rejects. -/
theorem useMemoFilters_means_iff (hC : C.Documented) (hdays : dayBounds.Numbers) (now : Int)
    (opts : RenderOptions)
    (hshortcut : ∀ shortcut, selectedShortcut options context = some shortcut →
      shortcut.filter ≠ "" → ∃ e, C.parse shortcut.filter = some e ∧ Accepted now opts e)
    {text : String} (h : useMemoFilters dayBounds options context = some text)
    (v : Expr → Truth) :
    Intended C dayBounds options context ∧
      (C.MeansConjunction v (conditions dayBounds options context) text ↔
        text.length ≤ C.sizeLimit ∧
          ∀ shortcut, selectedShortcut options context = some shortcut → shortcut.filter ≠ "" →
            C.Contained v (creatorConditions options) shortcut.filter
              (laterConditions dayBounds options context)) := by
  refine ⟨intended hC, ?_⟩
  have hcreator : ∀ c ∈ creatorConditions options, ∃ es, C.Single c es :=
    single_creatorConditions hC
  have hlater : ∀ c ∈ laterConditions dayBounds options context, ∃ es, C.Single c es :=
    single_laterConditions hC hdays
  have htext : conditions dayBounds options context ≠ [] ∧
      text = " && ".intercalate (conditions dayBounds options context) := by
    unfold useMemoFilters at h
    split at h
    · cases h
    · rename_i hne
      exact ⟨hne, (Option.some.inj h).symm⟩
  obtain ⟨hne, rfl⟩ := htext
  by_cases hselected : ∃ shortcut, selectedShortcut options context = some shortcut ∧
      shortcut.filter ≠ ""
  · obtain ⟨shortcut, hsome, hfilter⟩ := hselected
    obtain ⟨e, hparse, haccepted⟩ := hshortcut shortcut hsome hfilter
    have hform : ∀ args, e ≠ .call none "_?_:_" args := by
      rintro args rfl
      exact not_accepted_conditional haccepted
    obtain ⟨-, b, alts, hreads, -⟩ := Library.reads_of_parse hC.productions hparse hform
    have hconditions : conditions dayBounds options context =
        creatorConditions options ++ shortcut.filter :: laterConditions dayBounds options context := by
      simp [conditions, shortcutConditions, hsome, hfilter]
    rw [hconditions, Library.joined_iff hC hreads hcreator hlater]
    constructor
    · rintro ⟨hsize, hcontained⟩
      refine ⟨hsize, fun s hs _ => ?_⟩
      obtain rfl : shortcut = s := Option.some.inj (hsome.symm.trans hs)
      exact hcontained
    · rintro ⟨hsize, hcontained⟩
      exact ⟨hsize, hcontained shortcut hsome hfilter⟩
  · have hnone : shortcutConditions options context = [] := by
      unfold shortcutConditions
      split
      · rename_i shortcut hsome
        have hempty : shortcut.filter = "" :=
          Decidable.byContradiction fun hfilter => hselected ⟨shortcut, hsome, hfilter⟩
        rw [if_pos hempty]
      · rfl
    have hsingle : ∀ c ∈ conditions dayBounds options context, ∃ es, C.Single c es := by
      intro c hc
      rw [conditions, hnone, List.append_nil] at hc
      rcases List.mem_append.mp hc with hc | hc
      · exact hcreator c hc
      · exact hlater c hc
    rw [Library.joined_single_iff hC hne hsingle]
    constructor
    · intro hsize
      exact ⟨hsize, fun shortcut hsome hfilter => absurd ⟨shortcut, hsome, hfilter⟩ hselected⟩
    · exact And.left

def annsView : UseMemoFiltersOptions where
  creatorName := some "users/ann"
  includeShortcuts := true
  visibilities := some [.Public, .Protected]

def searchWith (shortcutFilter : String) : FilterContext where
  shortcuts := [⟨"users/ann/shortcuts/s1", shortcutFilter⟩]
  filters := [⟨.contentSearch, "say \"hi\""⟩, ⟨.displayTime, "2024-01-01"⟩]
  shortcut := some "s1"

def newYear : DayBounds := fun _ => ("1704067200", "1704153600")

def linkedMemo : Row :=
  { Filter.bareMemo with
    creatorUsername := some "bob"
    pinned := false
    hasLink := some true }

def onLinkedMemo : Expr → Truth := Expr.truth 0 .sqlite Filter.plainDatabase linkedMemo

theorem newYear_numbers : newYear.Numbers := by
  have hdigits : ∀ t : String, t.toList.all Char.isDigit = true → t ≠ "" → t.length ≤ 18 →
      NumberText t := fun t hall hne hlength =>
    .inr (.inl (.inl ⟨⟨hne, List.all_eq_true.mp hall⟩, hlength⟩))
  intro value
  exact ⟨hdigits "1704067200" (by decide) (by decide) (by decide),
    hdigits "1704153600" (by decide) (by decide) (by decide)⟩

def annsPinned : String :=
  "creator == \"users/ann\" && pinned && content.contains(\"say \\\"hi\\\"\") && " ++
    "created_ts >= 1704067200 && created_ts < 1704153600 && visibility in [\"PUBLIC\", \"PROTECTED\"]"

theorem useMemoFilters_means_pinned :
    useMemoFilters newYear annsView (searchWith "pinned") = some annsPinned ∧
      Cel.Reference.library.MeansConjunction onLinkedMemo
        (conditions newYear annsView (searchWith "pinned")) annsPinned := by
  have hselected : selectedShortcut annsView (searchWith "pinned") =
      some ⟨"users/ann/shortcuts/s1", "pinned"⟩ := rfl
  have htext : useMemoFilters newYear annsView (searchWith "pinned") = some annsPinned := by
    decide +kernel
  have hmeans := (useMemoFilters_means_iff Cel.Reference.documented newYear_numbers 0 ⟨.sqlite, 0⟩
    (fun shortcut hsome _ => by
      obtain rfl := Option.some.inj (hselected.symm.trans hsome)
      exact ⟨_, rfl, _, rfl⟩) htext onLinkedMemo).2
  have hsize : annsPinned.length ≤ Cel.Reference.library.sizeLimit := by decide +kernel
  refine ⟨htext, hmeans.mpr ⟨hsize, fun shortcut hsome _ => ?_⟩⟩
  obtain rfl := Option.some.inj (hselected.symm.trans hsome)
  have hreads : Cel.Reference.library.Reads "pinned" false [[.ident "pinned"]] :=
    ⟨_, rfl, ⟨_, rfl⟩, rfl⟩
  exact Library.contained_of_single hreads

/-- The server accepts the shortcut `pinned || has_link`. With it the view of one user's memos
selects a memo of another user, which the condition on the creator rejects. -/
theorem shortcut_widens_the_creator :
    (∃ e, Cel.Reference.library.parse "pinned || has_link" = some e ∧
        Accepted 0 ⟨.sqlite, 0⟩ e) ∧
      useMemoFilters newYear { annsView with visibilities := none }
          { searchWith "pinned || has_link" with filters := [] } =
        some "creator == \"users/ann\" && pinned || has_link" ∧
      Cel.Reference.library.Selects onLinkedMemo
        "creator == \"users/ann\" && pinned || has_link" ∧
      ¬Cel.Reference.library.Selects onLinkedMemo "creator == \"users/ann\"" ∧
      ¬Cel.Reference.library.MeansConjunction onLinkedMemo
        (conditions newYear { annsView with visibilities := none }
          { searchWith "pinned || has_link" with filters := [] })
        "creator == \"users/ann\" && pinned || has_link" :=
  ⟨⟨_, rfl, _, rfl⟩, by decide, by decide, by decide, by decide⟩

end Memoark.Web
