import Memoark.Js.Json
import Memoark.Js.Strings

/-! The filter that the memo views ask the server for (`useMemoFilters.ts`, `resource-names.ts`).
The texts of the two ends of a day are a parameter: they come from the dates and the time zone
of the browser. -/
namespace Memoark.Web

open Js (stringify)

inductive Visibility where
  | unspecified
  | Private
  | Protected
  | Public
  deriving DecidableEq, Repr

def getVisibilityName : Visibility → String
  | .Public => "PUBLIC"
  | .Protected => "PROTECTED"
  | .Private => "PRIVATE"
  | .unspecified => "PRIVATE"

def getShortcutId (name : String) : String :=
  match name.toList.splitOn '/' with
  | [_, _, _, id] => String.ofList id
  | _ => ""

def escapeFilterValue (value : String) : String := stringify value

structure Shortcut where
  name : String
  filter : String

inductive FilterFactor where
  | tagSearch
  | visibility
  | contentSearch
  | displayTime
  | pinned
  | propertyHasLink
  | propertyHasTaskList
  | propertyHasCode
  deriving DecidableEq, Repr

structure MemoFilter where
  factor : FilterFactor
  value : String

structure UseMemoFiltersOptions where
  creatorName : Option String := none
  includeShortcuts : Bool := false
  includePinned : Bool := false
  visibilities : Option (List Visibility) := none

structure FilterContext where
  shortcuts : List Shortcut := []
  filters : List MemoFilter := []
  shortcut : Option String := none

def userNamePrefix : String := "users/"

def normalizedName (name : String) : String :=
  if userNamePrefix.toList.isPrefixOf name.toList then name else userNamePrefix ++ name

def buildMemoCreatorFilter (name : String) : Option String :=
  if name = "" then none else some ("creator == " ++ stringify (normalizedName name))

def selectedShortcut (options : UseMemoFiltersOptions) (context : FilterContext) :
    Option Shortcut :=
  if options.includeShortcuts then
    context.shortcuts.find? fun shortcut => some (getShortcutId shortcut.name) == context.shortcut
  else none

/-- The text of the start of the day of a value and of the start of the next day, in seconds. -/
abbrev DayBounds := String → String × String

def MemoFilter.condition (dayBounds : DayBounds) (includePinned : Bool) (filter : MemoFilter) :
    Option String :=
  match filter.factor with
  | .contentSearch => some ("content.contains(" ++ escapeFilterValue filter.value ++ ")")
  | .tagSearch => some ("tag in [" ++ escapeFilterValue filter.value ++ "]")
  | .pinned => if includePinned then some "pinned" else none
  | .propertyHasLink => some "has_link"
  | .propertyHasTaskList => some "has_task_list"
  | .propertyHasCode => some "has_code"
  | .displayTime =>
    let (timestampAfter, timestampBefore) := dayBounds filter.value
    some ("created_ts >= " ++ timestampAfter ++ " && " ++ "created_ts < " ++ timestampBefore)
  | .visibility => none

def creatorConditions (options : UseMemoFiltersOptions) : List String :=
  match options.creatorName with
  | some creatorName => (buildMemoCreatorFilter creatorName).toList
  | none => []

def shortcutConditions (options : UseMemoFiltersOptions) (context : FilterContext) : List String :=
  match selectedShortcut options context with
  | some shortcut => if shortcut.filter = "" then [] else [shortcut.filter]
  | none => []

def visibilityConditions (options : UseMemoFiltersOptions) : List String :=
  match options.visibilities with
  | none | some [] => []
  | some visibilities =>
    let visibilityValues :=
      ", ".intercalate (visibilities.map fun v => "\"" ++ getVisibilityName v ++ "\"")
    ["visibility in [" ++ visibilityValues ++ "]"]

def laterConditions (dayBounds : DayBounds) (options : UseMemoFiltersOptions)
    (context : FilterContext) : List String :=
  context.filters.filterMap (MemoFilter.condition dayBounds options.includePinned) ++
    visibilityConditions options

def conditions (dayBounds : DayBounds) (options : UseMemoFiltersOptions)
    (context : FilterContext) : List String :=
  creatorConditions options ++ shortcutConditions options context ++
    laterConditions dayBounds options context

def useMemoFilters (dayBounds : DayBounds) (options : UseMemoFiltersOptions)
    (context : FilterContext) : Option String :=
  match conditions dayBounds options context with
  | [] => none
  | conditions => some (" && ".intercalate conditions)

end Memoark.Web
