import Mathlib.Tactic.Common
import Memoark.Go.Strings
import Memoark.Js.Strings
import Memoark.Syntax.Cut

/-! The filters of `MemoFilterContext.tsx`, kept in a state and in a parameter of the URL. -/
namespace Memoark.Web.FilterSync

def filterFactors : List String :=
  ["tagSearch", "visibility", "contentSearch", "displayTime", "pinned", "property.hasLink",
    "property.hasTaskList", "property.hasCode"]

/-- The factor is one of `FilterFactor`, but where it was read from a URL it can be any text. -/
structure MemoFilter where
  factor : String
  value : String
  deriving DecidableEq

def getMemoFilterKey (filter : MemoFilter) : String := filter.factor ++ ":" ++ filter.value

/-- One part of the query; `none` where its value cannot be decoded. -/
def parseFilter (filterStr : List Char) : Option MemoFilter :=
  let parts := filterStr.splitOn ':'
  (Js.decodeURIComponent (String.ofList (parts[1]?.getD []))).map fun value =>
    ⟨String.ofList (parts[0]?.getD []), value⟩

def parseFilterQuery (query : Option String) : List MemoFilter :=
  if query.getD "" = "" then []
  else (((query.getD "").toList.splitOn ',').mapM parseFilter).getD []

def stringifyFilter (filter : MemoFilter) : String :=
  filter.factor ++ ":" ++ Js.encodeURIComponent filter.value

def stringifyFilters (filters : List MemoFilter) : String :=
  ",".intercalate (filters.map stringifyFilter)

section codec

/-- The factors hold neither of the two separators. -/
def Clean (filters : List MemoFilter) : Prop :=
  ∀ filter ∈ filters, ',' ∉ filter.factor.toList ∧ ':' ∉ filter.factor.toList

variable {filters : List MemoFilter} {filter : MemoFilter}

theorem clean_of_filterFactors (h : ∀ filter ∈ filters, filter.factor ∈ filterFactors) :
    Clean filters := by
  have hall : ∀ factor ∈ filterFactors, ',' ∉ factor.toList ∧ ':' ∉ factor.toList := by decide
  intro filter hmem
  exact hall filter.factor (h filter hmem)

theorem comma_not_mem (h : ',' ∉ filter.factor.toList) :
    ',' ∉ (stringifyFilter filter).toList := by
  have hvalue := Js.not_mem_encodeURIComponent (d := ',') (by decide) (by decide) filter.value
  simp [stringifyFilter, h, hvalue]

theorem parseFilter_stringifyFilter (h : ':' ∉ filter.factor.toList) :
    parseFilter (stringifyFilter filter).toList = some filter := by
  have hvalue := Js.not_mem_encodeURIComponent (d := ':') (by decide) (by decide) filter.value
  have hsplit : (stringifyFilter filter).toList.splitOn ':' =
      [filter.factor.toList, (Js.encodeURIComponent filter.value).toList] := by
    have htext : (stringifyFilter filter).toList =
        filter.factor.toList ++ ':' :: (Js.encodeURIComponent filter.value).toList := by
      simp [stringifyFilter]
    rw [htext, List.splitOn_append_cons_self_of_not_mem h, List.splitOn_eq_singleton hvalue]
  rw [parseFilter, hsplit]
  simp [Js.decodeURIComponent_encodeURIComponent]

theorem mapM_parseFilter (h : Clean filters) :
    (filters.map fun filter => (stringifyFilter filter).toList).mapM parseFilter =
      some filters := by
  induction filters with
  | nil => rfl
  | cons filter filters ih =>
    have hfilter := parseFilter_stringifyFilter (h filter (by simp)).2
    have hrest := ih fun filter hmem => h filter (by simp [hmem])
    rw [List.map_cons, List.mapM_cons, hfilter, hrest]
    rfl

theorem stringifyFilters_ne_empty (h : filters ≠ []) : stringifyFilters filters ≠ "" := by
  intro hempty
  have htext := congrArg String.toList hempty
  cases filters with
  | nil => exact h rfl
  | cons filter filters =>
    cases filters <;> simp [stringifyFilters, stringifyFilter] at htext

theorem parseFilterQuery_stringifyFilters (h : Clean filters) :
    parseFilterQuery (some (stringifyFilters filters)) = filters := by
  by_cases hnil : filters = []
  · subst hnil
    rfl
  · have hsplit : (stringifyFilters filters).toList.splitOn ',' =
        filters.map fun filter => (stringifyFilter filter).toList := by
      rw [stringifyFilters, String.toList_intercalate, List.map_map]
      apply List.splitOn_intercalate
      · intro piece hpiece
        obtain ⟨filter, hmem, rfl⟩ := List.mem_map.mp hpiece
        exact comma_not_mem (h filter hmem).1
      · simpa using hnil
    have hquery : (some (stringifyFilters filters)).getD "" = stringifyFilters filters := rfl
    rw [parseFilterQuery, hquery, if_neg (stringifyFilters_ne_empty hnil), hsplit,
      mapM_parseFilter h]
    rfl

theorem clean_parseFilterQuery (query : Option String) : Clean (parseFilterQuery query) := by
  unfold parseFilterQuery
  split
  · intro filter hmem
    cases hmem
  · cases hread : ((query.getD "").toList.splitOn ',').mapM parseFilter with
    | none =>
      intro filter hmem
      cases hmem
    | some filters =>
      intro filter hmem
      obtain ⟨filterStr, hpiece, hparse⟩ := Syntax.mem_of_mapM hread filter hmem
      obtain ⟨value, -, rfl⟩ := Option.map_eq_some_iff.mp hparse
      have hfactor : ∀ c ∈ ((filterStr.splitOn ':')[0]?.getD []), c ∈ filterStr ∧ c ≠ ':' := by
        intro c hc
        cases hparts : filterStr.splitOn ':' with
        | nil => exact absurd hparts (List.splitOn_ne_nil ':' filterStr)
        | cons factor parts =>
          rw [hparts] at hc
          have hhead : factor ∈ filterStr.splitOn ':' := by simp [hparts]
          simpa using Go.of_mem_splitOnP hhead hc
      dsimp only
      rw [String.toList_ofList]
      constructor
      · intro hc
        have hcomma := Go.of_mem_splitOnP hpiece (hfactor ',' hc).1
        simp at hcomma
      · intro hc
        exact (hfactor ':' hc).2 rfl

end codec

/-! ### The provider -/

/-- What `MemoFilterProvider` has rendered, and what has been asked for since. -/
structure Provider where
  filters : List MemoFilter
  searchParam : Option String
  lastSyncedUrl : String := ""
  lastSyncedStore : String := ""
  nextFilters : Option (List MemoFilter) := none
  nextSearchParam : Option (Option String) := none

namespace Provider

def syncUrlToState (p : Provider) : Provider :=
  let filterParam := p.searchParam.getD ""
  if filterParam ≠ p.lastSyncedUrl then
    let newFilters := parseFilterQuery (some filterParam)
    { p with
      lastSyncedUrl := filterParam
      nextFilters := some newFilters
      lastSyncedStore := stringifyFilters newFilters }
  else p

def syncStateToUrl (p : Provider) : Provider :=
  let storeString := stringifyFilters p.filters
  if storeString ≠ p.lastSyncedStore ∧ storeString ≠ p.lastSyncedUrl then
    { p with
      lastSyncedStore := storeString
      nextSearchParam := some (if p.filters ≠ [] then some storeString else none)
      lastSyncedUrl := if p.filters ≠ [] then storeString else "" }
  else p

/-- The dependencies of the effects that a commit changes beside the filters and their text. -/
structure Changes where
  searchParams : Bool
  locationState : Bool

def render (p : Provider) : Provider :=
  { p with
    filters := p.nextFilters.getD p.filters
    searchParam := p.nextSearchParam.getD p.searchParam
    nextFilters := none
    nextSearchParam := none }

def commit (p : Provider) (changes : Changes) : Provider :=
  let moved := changes.searchParams ∨ p.render.searchParam ≠ p.searchParam
  let synced := if moved then p.render.syncUrlToState else p.render
  if moved ∨ changes.locationState ∨ p.render.filters ≠ p.filters then synced.syncStateToUrl
  else synced

def mount (searchParam : Option String) : Provider :=
  syncStateToUrl (syncUrlToState { filters := parseFilterQuery searchParam, searchParam })

def update (p : Provider) (f : List MemoFilter → List MemoFilter) : Provider :=
  { p with nextFilters := some (f (p.nextFilters.getD p.filters)) }

def setFilters (p : Provider) (newFilters : List MemoFilter) : Provider :=
  p.update fun _ => newFilters

/-- `uniqBy` as lodash documents it: the first of the items of each key. -/
def uniqBy {α κ : Type} [DecidableEq κ] (key : α → κ) : List α → List α
  | [] => []
  | a :: l => a :: (uniqBy key l).filter (key · ≠ key a)

def addFilter (p : Provider) (filter : MemoFilter) : Provider :=
  p.update fun prev => uniqBy getMemoFilterKey (prev ++ [filter])

def removeFilter (p : Provider) (predicate : MemoFilter → Bool) : Provider :=
  p.update fun prev => prev.filter (!predicate ·)

def removeFiltersByFactor (p : Provider) (factor : String) : Provider :=
  p.update fun prev => prev.filter (·.factor ≠ factor)

def navigate (p : Provider) (query : Option String) : Provider :=
  { p with nextSearchParam := some query }

def commits (p : Provider) (cs : List Changes) : Provider := cs.foldl commit p

theorem mem_of_mem_uniqBy {α κ : Type} [DecidableEq κ] {key : α → κ} {l : List α} {a : α}
    (h : a ∈ uniqBy key l) : a ∈ l := by
  induction l with
  | nil => exact h
  | cons b l ih =>
    rcases List.mem_cons.mp h with rfl | hrest
    · exact List.mem_cons_self
    · exact List.mem_cons_of_mem b (ih (List.mem_filter.mp hrest).1)

/-- The runs. What an effect asked for is rendered by the next commit: no call replaces it. -/
inductive Reachable : Provider → Prop where
  | mount (searchParam : Option String) : Reachable (mount searchParam)
  | update {p : Provider} (h : Reachable p) (hnext : p.nextFilters = none)
      (f : List MemoFilter → List MemoFilter) (hclean : ∀ filters, Clean filters → Clean (f filters)) :
      Reachable (p.update f)
  | navigate {p : Provider} (h : Reachable p) (hnext : p.nextSearchParam = none)
      (query : Option String) : Reachable (p.navigate query)
  | commit {p : Provider} (h : Reachable p) (changes : Changes) : Reachable (p.commit changes)

section operations

variable {p : Provider} (h : p.Reachable) (hnext : p.nextFilters = none)
include h hnext

theorem Reachable.setFilters {newFilters : List MemoFilter} (hclean : Clean newFilters) :
    Reachable (p.setFilters newFilters) :=
  h.update hnext _ fun _ _ => hclean

theorem Reachable.addFilter {filter : MemoFilter} (hclean : Clean [filter]) :
    Reachable (p.addFilter filter) := by
  apply h.update hnext
  intro filters hfilters other hmem
  have hsource := mem_of_mem_uniqBy hmem
  rcases List.mem_append.mp hsource with hold | hnew
  · exact hfilters other hold
  · exact hclean other hnew

theorem Reachable.removeFilter (predicate : MemoFilter → Bool) :
    Reachable (p.removeFilter predicate) := by
  apply h.update hnext
  intro filters hfilters other hmem
  exact hfilters other (List.mem_filter.mp hmem).1

theorem Reachable.removeFiltersByFactor (factor : String) :
    Reachable (p.removeFiltersByFactor factor) := by
  apply h.update hnext
  intro filters hfilters other hmem
  exact hfilters other (List.mem_filter.mp hmem).1

end operations

def Quiescent (p : Provider) : Prop := p.nextFilters = none ∧ p.nextSearchParam = none

/-- The parameter that the next commit renders. -/
def comingParam (p : Provider) : String := p.render.searchParam.getD ""

/-- The filters of the parameter that is rendered have been asked for. -/
def enter (p : Provider) : Provider :=
  { p.render with
    lastSyncedUrl := p.comingParam
    nextFilters := some (parseFilterQuery (some p.comingParam))
    lastSyncedStore := stringifyFilters (parseFilterQuery (some p.comingParam)) }

section effects

variable {p : Provider} {changes : Changes}

theorem getD_ite_stringify (filters : List MemoFilter) :
    (if filters ≠ [] then some (stringifyFilters filters) else none).getD "" =
      stringifyFilters filters := by
  by_cases h : filters = []
  · rw [if_neg (by simpa using h), h]
    rfl
  · rw [if_pos h]
    rfl

theorem ite_stringify (filters : List MemoFilter) :
    (if filters ≠ [] then stringifyFilters filters else "") = stringifyFilters filters := by
  by_cases h : filters = []
  · rw [if_neg (by simpa using h), h]
    rfl
  · rw [if_pos h]

/-- The second effect asks for nothing where a reference knows the filters. -/
theorem syncStateToUrl_of_known
    (h : stringifyFilters p.filters = p.lastSyncedStore ∨
      stringifyFilters p.filters = p.lastSyncedUrl) : p.syncStateToUrl = p := by
  have hknown : ¬ (stringifyFilters p.filters ≠ p.lastSyncedStore ∧
      stringifyFilters p.filters ≠ p.lastSyncedUrl) := by
    intro hboth
    rcases h with h | h
    · exact hboth.1 h
    · exact hboth.2 h
  exact if_neg hknown

/-- The second effect asks for nothing, a reference knowing the filters, or it asks for
a parameter that both references then name. -/
theorem syncStateToUrl_cases (p : Provider) :
    (p.syncStateToUrl = p ∧ (stringifyFilters p.filters = p.lastSyncedStore ∨
      stringifyFilters p.filters = p.lastSyncedUrl)) ∨
    ∃ param : Option String, param.getD "" = stringifyFilters p.filters ∧
      p.syncStateToUrl = { p with
        lastSyncedStore := stringifyFilters p.filters
        nextSearchParam := some param
        lastSyncedUrl := stringifyFilters p.filters } := by
  by_cases h : stringifyFilters p.filters ≠ p.lastSyncedStore ∧
      stringifyFilters p.filters ≠ p.lastSyncedUrl
  · right
    refine ⟨_, getD_ite_stringify p.filters, ?_⟩
    rw [syncStateToUrl, if_pos h, ite_stringify]
  · left
    have hknown : stringifyFilters p.filters = p.lastSyncedStore ∨
        stringifyFilters p.filters = p.lastSyncedUrl := by
      by_contra hnot
      exact h (not_or.mp hnot)
    exact ⟨syncStateToUrl_of_known hknown, hknown⟩

/-- Where the parameter to come is known, only the second effect can ask for something. -/
theorem commit_of_known (h : p.lastSyncedUrl = p.comingParam) (changes : Changes) :
    (p.commit changes = p.render ∧ p.render.filters = p.filters) ∨
      p.commit changes = p.render.syncStateToUrl := by
  have hurl : p.render.syncUrlToState = p.render := by
    have hsame : ¬ p.render.searchParam.getD "" ≠ p.render.lastSyncedUrl := by
      intro hne
      exact hne h.symm
    exact if_neg hsame
  unfold commit
  dsimp only
  rw [hurl, ite_self]
  split
  · exact Or.inr rfl
  · rename_i hquiet
    have hfilters : p.render.filters = p.filters := by
      by_contra hne
      exact hquiet (Or.inr (Or.inr hne))
    exact Or.inl ⟨rfl, hfilters⟩

/-- Where the parameter to come is another one, its filters are asked for. -/
theorem commit_of_unknown (h : p.lastSyncedUrl ≠ p.comingParam)
    (hold : p.lastSyncedUrl = p.searchParam.getD "") (changes : Changes) :
    p.commit changes = p.enter.syncStateToUrl := by
  have hmoved : p.render.searchParam ≠ p.searchParam := by
    intro hsame
    apply h
    rw [hold, comingParam, hsame]
  have hurl : p.render.searchParam.getD "" ≠ p.render.lastSyncedUrl := fun hsame => h hsame.symm
  unfold commit
  dsimp only
  rw [if_pos (Or.inl (Or.inr hmoved)), if_pos (Or.inr hmoved), syncUrlToState, if_pos hurl]
  rfl

end effects

section runs

variable {p : Provider} {filters : List MemoFilter}

/-- The references name the parameter that is rendered, or the one that the next commit renders,
and the filters are those of the parameter, or will be. -/
structure Tracks (p : Provider) : Prop where
  clean : Clean p.filters
  cleanNext : ∀ filters, p.nextFilters = some filters → Clean filters
  store : p.lastSyncedStore = stringifyFilters (parseFilterQuery (some p.lastSyncedUrl))
  url : p.lastSyncedUrl = p.searchParam.getD "" ∨ p.lastSyncedUrl = p.comingParam
  filters : p.filters = parseFilterQuery (some p.lastSyncedUrl) ∨
    p.nextFilters = some (parseFilterQuery (some p.lastSyncedUrl))

theorem Tracks.cleanRendered (h : p.Tracks) : Clean p.render.filters := by
  cases hnext : p.nextFilters with
  | none => simpa [render, hnext] using h.clean
  | some filters => simpa [render, hnext] using h.cleanNext filters hnext

/-- The filters of a parameter that a reference knows. -/
theorem eq_parse_of_known (hclean : Clean p.filters)
    (hstore : p.lastSyncedStore = stringifyFilters (parseFilterQuery (some p.lastSyncedUrl)))
    (hknown : stringifyFilters p.filters = p.lastSyncedStore ∨
      stringifyFilters p.filters = p.lastSyncedUrl) :
    p.filters = parseFilterQuery (some p.lastSyncedUrl) := by
  rw [← parseFilterQuery_stringifyFilters hclean]
  rcases hknown with hknown | hknown
  · rw [hknown, hstore, parseFilterQuery_stringifyFilters (clean_parseFilterQuery _)]
  · rw [hknown]

/-- The second effect, after a render whose parameter the reference names. -/
theorem tracks_syncStateToUrl (hclean : Clean p.filters)
    (hcleanNext : ∀ filters, p.nextFilters = some filters → Clean filters)
    (hstore : p.lastSyncedStore = stringifyFilters (parseFilterQuery (some p.lastSyncedUrl)))
    (hurl : p.lastSyncedUrl = p.searchParam.getD "") : p.syncStateToUrl.Tracks := by
  rcases p.syncStateToUrl_cases with ⟨hsame, hknown⟩ | ⟨param, hparam, hwritten⟩
  · rw [hsame]
    exact ⟨hclean, hcleanNext, hstore, Or.inl hurl, Or.inl (eq_parse_of_known hclean hstore hknown)⟩
  · have hparse := parseFilterQuery_stringifyFilters hclean
    rw [hwritten]
    refine ⟨hclean, hcleanNext, ?_, Or.inr hparam.symm, Or.inl hparse.symm⟩
    dsimp only
    rw [hparse]

theorem Tracks.commit (h : p.Tracks) (changes : Changes) : (p.commit changes).Tracks := by
  by_cases hknown : p.lastSyncedUrl = p.comingParam
  · rcases commit_of_known hknown changes with ⟨hcommit, hfilters⟩ | hcommit
    · have hparsed : p.render.filters = parseFilterQuery (some p.lastSyncedUrl) := by
        rcases h.filters with hsame | hnext
        · rw [hfilters, hsame]
        · simp [render, hnext]
      rw [hcommit]
      refine ⟨h.cleanRendered, ?_, h.store, Or.inl hknown, Or.inl hparsed⟩
      intro filters hnext
      cases hnext
    · rw [hcommit]
      apply tracks_syncStateToUrl h.cleanRendered _ h.store hknown
      intro filters hnext
      cases hnext
  · have hold := h.url.resolve_right hknown
    have hclean : Clean p.enter.filters := h.cleanRendered
    rw [commit_of_unknown hknown hold]
    apply tracks_syncStateToUrl hclean _ rfl rfl
    intro filters hnext
    rw [← Option.some.inj hnext]
    exact clean_parseFilterQuery _

theorem tracks_mount (searchParam : Option String) : (mount searchParam).Tracks := by
  have hclean := clean_parseFilterQuery searchParam
  unfold mount
  by_cases hempty : searchParam.getD "" = ""
  · have hurl : syncUrlToState { filters := parseFilterQuery searchParam, searchParam } =
        { filters := parseFilterQuery searchParam, searchParam } := by
      have hsame : ¬ searchParam.getD "" ≠ "" := by
        intro hne
        exact hne hempty
      exact if_neg hsame
    rw [hurl]
    apply tracks_syncStateToUrl hclean _ rfl hempty.symm
    intro filters hnext
    cases hnext
  · have hurl : syncUrlToState { filters := parseFilterQuery searchParam, searchParam } =
        { filters := parseFilterQuery searchParam
          searchParam
          lastSyncedUrl := searchParam.getD ""
          nextFilters := some (parseFilterQuery (some (searchParam.getD "")))
          lastSyncedStore :=
            stringifyFilters (parseFilterQuery (some (searchParam.getD ""))) } := if_pos hempty
    rw [hurl]
    apply tracks_syncStateToUrl hclean _ rfl rfl
    intro filters hnext
    rw [← Option.some.inj hnext]
    exact clean_parseFilterQuery _

theorem Reachable.tracks (h : p.Reachable) : p.Tracks := by
  induction h with
  | mount searchParam => exact tracks_mount searchParam
  | @update p h hnext f hclean ih =>
    have hfilters : p.filters = parseFilterQuery (some p.lastSyncedUrl) := by
      rcases ih.filters with hsame | hsome
      · exact hsame
      · rw [hnext] at hsome
        cases hsome
    refine ⟨ih.clean, ?_, ih.store, ih.url, Or.inl hfilters⟩
    intro filters hsome
    rw [← Option.some.inj hsome, hnext]
    exact hclean _ ih.clean
  | @navigate p h hnext query ih =>
    have hurl : p.lastSyncedUrl = p.searchParam.getD "" := by
      rcases ih.url with hsame | hcoming
      · exact hsame
      · simpa [comingParam, render, hnext] using hcoming
    exact ⟨ih.clean, ih.cleanNext, ih.store, Or.inl hurl, ih.filters⟩
  | commit h changes ih => exact ih.commit changes

end runs

/-! ### Settling -/

/-- After so many commits nothing is left to render, and nothing is left only where the filters
and those of the URL are these. -/
def SettlesWithin (n : Nat) (p : Provider) (filters : List MemoFilter) : Prop :=
  (∀ cs, n ≤ cs.length → (p.commits cs).Quiescent) ∧
    ∀ cs, (p.commits cs).Quiescent →
      (p.commits cs).filters = filters ∧ parseFilterQuery (p.commits cs).searchParam = filters

section settling

variable {p : Provider} {filters : List MemoFilter} {n : Nat}

theorem SettlesWithin.commit (hactive : ¬ p.Quiescent)
    (h : ∀ changes, SettlesWithin n (p.commit changes) filters) :
    SettlesWithin (n + 1) p filters := by
  constructor
  · intro cs hlength
    cases cs with
    | nil => exact absurd hlength (by simp)
    | cons changes cs => exact (h changes).1 cs (by simpa using hlength)
  · intro cs hquiet
    cases cs with
    | nil => exact absurd hquiet hactive
    | cons changes cs => exact (h changes).2 cs hquiet

theorem SettlesWithin.mono {m : Nat} (h : SettlesWithin n p filters) (hle : n ≤ m) :
    SettlesWithin m p filters :=
  ⟨fun cs hlength => h.1 cs (Nat.le_trans hle hlength), h.2⟩

structure InStep (p : Provider) (filters : List MemoFilter) : Prop where
  quiet : p.Quiescent
  clean : Clean filters
  rendered : p.filters = filters
  url : p.lastSyncedUrl = p.searchParam.getD ""
  parsed : parseFilterQuery (some p.lastSyncedUrl) = filters
  store : p.lastSyncedStore = stringifyFilters filters

theorem render_of_quiescent (h : p.Quiescent) : p.render = p := by
  obtain ⟨hfilters, hparam⟩ := h
  cases p
  cases hfilters
  cases hparam
  rfl

theorem parseFilterQuery_getD (query : Option String) :
    parseFilterQuery (some (query.getD "")) = parseFilterQuery query := by
  cases query <;> rfl

theorem InStep.comingParam (h : p.InStep filters) : p.lastSyncedUrl = p.comingParam := by
  rw [Provider.comingParam, render_of_quiescent h.quiet]
  exact h.url

theorem commit_of_inStep (hcoming : p.lastSyncedUrl = p.comingParam)
    (h : p.render.InStep filters) (changes : Changes) : p.commit changes = p.render := by
  have hknown : p.render.syncStateToUrl = p.render := by
    apply syncStateToUrl_of_known
    rw [h.rendered, h.store]
    exact Or.inl rfl
  rcases commit_of_known hcoming changes with ⟨hcommit, -⟩ | hcommit
  · exact hcommit
  · rw [hcommit, hknown]

theorem InStep.commit (h : p.InStep filters) (changes : Changes) : p.commit changes = p := by
  have hrender := render_of_quiescent h.quiet
  have hcommit := commit_of_inStep h.comingParam (hrender.symm ▸ h) changes
  rw [hcommit, hrender]

theorem InStep.commits (h : p.InStep filters) (cs : List Changes) : p.commits cs = p := by
  induction cs with
  | nil => rfl
  | cons changes cs ih =>
    change (p.commit changes).commits cs = p
    rw [h.commit changes]
    exact ih

theorem InStep.settlesWithin (h : p.InStep filters) : SettlesWithin 0 p filters := by
  have hparam : parseFilterQuery p.searchParam = filters := by
    rw [← parseFilterQuery_getD, ← h.url]
    exact h.parsed
  constructor
  · intro cs _
    rw [h.commits cs]
    exact h.quiet
  · intro cs _
    rw [h.commits cs]
    exact ⟨h.rendered, hparam⟩

theorem Tracks.inStep (h : p.Tracks) (hquiet : p.Quiescent) : p.InStep p.filters := by
  have hparsed : p.filters = parseFilterQuery (some p.lastSyncedUrl) := by
    rcases h.filters with hsame | hsome
    · exact hsame
    · rw [hquiet.1] at hsome
      cases hsome
  have hurl : p.lastSyncedUrl = p.searchParam.getD "" := by
    rcases h.url with hsame | hcoming
    · exact hsame
    · rwa [Provider.comingParam, render_of_quiescent hquiet] at hcoming
  refine ⟨hquiet, h.clean, rfl, hurl, hparsed.symm, ?_⟩
  rw [h.store, ← hparsed]

structure Written (p : Provider) (filters : List MemoFilter) : Prop where
  clean : Clean filters
  rendered : p.filters = filters
  noFilters : p.nextFilters = none
  param : ∃ param : Option String, p.nextSearchParam = some param ∧
    param.getD "" = stringifyFilters filters
  url : p.lastSyncedUrl = stringifyFilters filters
  store : p.lastSyncedStore = stringifyFilters filters

theorem Written.settlesWithin (h : p.Written filters) : SettlesWithin 1 p filters := by
  obtain ⟨param, hnext, hparam⟩ := h.param
  have hactive : ¬ p.Quiescent := by
    intro hquiet
    rw [hquiet.2] at hnext
    cases hnext
  have hsearch : p.render.searchParam = param := by simp [render, hnext]
  have hrendered : p.render.filters = filters := by simp [render, h.noFilters, h.rendered]
  have hcoming : p.lastSyncedUrl = p.comingParam := by
    rw [comingParam, hsearch, hparam, h.url]
  have hinStep : p.render.InStep filters := by
    refine ⟨⟨rfl, rfl⟩, h.clean, hrendered, hcoming, ?_, h.store⟩
    change parseFilterQuery (some p.lastSyncedUrl) = filters
    rw [h.url, parseFilterQuery_stringifyFilters h.clean]
  apply SettlesWithin.commit hactive
  intro changes
  rw [commit_of_inStep hcoming hinStep changes]
  exact hinStep.settlesWithin

/-- The next commit renders the filters, and the parameter that the reference names. -/
structure Entering (p : Provider) (filters : List MemoFilter) : Prop where
  clean : Clean filters
  next : p.nextFilters = some filters
  coming : p.lastSyncedUrl = p.comingParam
  store : p.lastSyncedStore = stringifyFilters (parseFilterQuery (some p.lastSyncedUrl))
  parsed : p.filters = parseFilterQuery (some p.lastSyncedUrl) ∨
    filters = parseFilterQuery (some p.lastSyncedUrl)

theorem Entering.settlesWithin (h : p.Entering filters) : SettlesWithin 2 p filters := by
  have hactive : ¬ p.Quiescent := by
    intro hquiet
    have hnext := h.next
    rw [hquiet.1] at hnext
    cases hnext
  have hrendered : p.render.filters = filters := by simp [render, h.next]
  have hinStep : filters = parseFilterQuery (some p.lastSyncedUrl) →
      p.render.InStep filters := by
    intro hparsed
    refine ⟨⟨rfl, rfl⟩, h.clean, hrendered, h.coming, hparsed.symm, ?_⟩
    rw [hparsed]
    exact h.store
  apply SettlesWithin.commit hactive
  intro changes
  rcases commit_of_known h.coming changes with ⟨hcommit, hsame⟩ | hcommit
  · have hparsed : filters = parseFilterQuery (some p.lastSyncedUrl) := by
      rcases h.parsed with hold | hnew
      · rw [← hrendered, hsame, hold]
      · exact hnew
    rw [hcommit]
    exact (hinStep hparsed).settlesWithin.mono (Nat.zero_le 1)
  · rcases p.render.syncStateToUrl_cases with ⟨hsame, hknown⟩ | ⟨param, hparam, hwritten⟩
    · have hclean : Clean p.render.filters := hrendered ▸ h.clean
      have hparsed := eq_parse_of_known hclean h.store hknown
      rw [hcommit, hsame]
      exact (hinStep (hrendered ▸ hparsed)).settlesWithin.mono (Nat.zero_le 1)
    · have hnow : (p.commit changes).Written filters := by
        rw [hcommit, hwritten, hrendered]
        rw [hrendered] at hparam
        exact ⟨h.clean, rfl, rfl, ⟨param, rfl, hparam⟩, rfl, rfl⟩
      exact hnow.settlesWithin

theorem InStep.setFilters (h : p.InStep filters) {newFilters : List MemoFilter}
    (hclean : Clean newFilters) : SettlesWithin 2 (p.setFilters newFilters) newFilters := by
  have hstore : p.lastSyncedStore = stringifyFilters (parseFilterQuery (some p.lastSyncedUrl)) := by
    rw [h.store, h.parsed]
  have hfilters : p.filters = parseFilterQuery (some p.lastSyncedUrl) := by
    rw [h.rendered, h.parsed]
  have hentering : (p.setFilters newFilters).Entering newFilters :=
    ⟨hclean, rfl, h.comingParam, hstore, Or.inl hfilters⟩
  exact hentering.settlesWithin

theorem InStep.navigate (h : p.InStep filters) (query : Option String) :
    SettlesWithin 3 (p.navigate query) (parseFilterQuery query) := by
  have hactive : ¬ (p.navigate query).Quiescent := by
    intro hquiet
    cases hquiet.2
  have hfilters : (p.navigate query).render.filters = filters := by
    simp [Provider.navigate, render, h.quiet.1, h.rendered]
  have hcoming : (p.navigate query).comingParam = query.getD "" := rfl
  apply SettlesWithin.commit hactive
  intro changes
  by_cases hknown : (p.navigate query).lastSyncedUrl = (p.navigate query).comingParam
  · have hquery : parseFilterQuery query = filters := by
      rw [← parseFilterQuery_getD, ← hcoming, ← hknown]
      exact h.parsed
    have hinStep : (p.navigate query).render.InStep filters :=
      ⟨⟨rfl, rfl⟩, h.clean, hfilters, hknown, h.parsed, h.store⟩
    rw [commit_of_inStep hknown hinStep changes, hquery]
    exact hinStep.settlesWithin.mono (Nat.zero_le 2)
  · have hquery : parseFilterQuery (some (query.getD "")) = parseFilterQuery query :=
      parseFilterQuery_getD query
    have hclean := clean_parseFilterQuery query
    have hentering : (p.navigate query).enter.syncStateToUrl.Entering (parseFilterQuery query) := by
      rcases (p.navigate query).enter.syncStateToUrl_cases with
        ⟨hsame, -⟩ | ⟨param, hparam, hwritten⟩
      · rw [hsame]
        exact ⟨hclean, congrArg some hquery, rfl, rfl, Or.inr hquery.symm⟩
      · have hold : (p.navigate query).enter.filters = filters := hfilters
        have hparse := parseFilterQuery_stringifyFilters h.clean
        rw [hold] at hparam
        rw [hwritten, hold]
        refine ⟨hclean, congrArg some hquery, hparam.symm, ?_, Or.inl ?_⟩
        · dsimp only
          rw [hparse]
        · dsimp only
          rw [hparse]
    rw [commit_of_unknown hknown h.url changes]
    exact hentering.settlesWithin

end settling

/-- From every quiescent state, filters that are set and a navigation from outside settle within
three commits, and in no other quiescent state. -/
theorem settles {p : Provider} (h : p.Reachable) (hquiet : p.Quiescent) :
    (∀ filters, Clean filters → SettlesWithin 3 (p.setFilters filters) filters) ∧
      ∀ query, SettlesWithin 3 (p.navigate query) (parseFilterQuery query) := by
  have hinStep := h.tracks.inStep hquiet
  constructor
  · intro filters hclean
    exact (hinStep.setFilters hclean).mono (by omega)
  · intro query
    exact hinStep.navigate query

/-- From two tags to a search text with all three separators, and to a query without a value. -/
theorem settles_separators :
    SettlesWithin 3
        (((mount (some "tagSearch:work,tagSearch:urgent")).commit ⟨false, false⟩).setFilters
          [⟨"contentSearch", "a:b,100%"⟩])
        [⟨"contentSearch", "a:b,100%"⟩] ∧
      SettlesWithin 3
        (((mount (some "tagSearch:work,tagSearch:urgent")).commit ⟨false, false⟩).navigate
          (some "pinned"))
        [⟨"pinned", ""⟩] := by
  have hreachable : Reachable
      ((mount (some "tagSearch:work,tagSearch:urgent")).commit ⟨false, false⟩) :=
    (Reachable.mount _).commit _
  have hquiet : Quiescent
      ((mount (some "tagSearch:work,tagSearch:urgent")).commit ⟨false, false⟩) :=
    ⟨by decide +kernel, by decide +kernel⟩
  have hclean : Clean [⟨"contentSearch", "a:b,100%"⟩] := by
    apply clean_of_filterFactors
    decide
  have hparse : parseFilterQuery (some "pinned") = [⟨"pinned", ""⟩] := by decide +kernel
  have hsettles := settles hreachable hquiet
  exact ⟨hsettles.1 _ hclean, hparse ▸ hsettles.2 (some "pinned")⟩

end Provider

end Memoark.Web.FilterSync
