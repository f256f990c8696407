import Memoark.Go.Strings
import Memoark.Go.Time

/-! `internal/scheduler/parser.go`: cron expressions, and the search for the next time. -/
namespace Memoark.Scheduler

inductive FieldMatcher where
  | wildcard
  | exact (value : Int)
  | range (start stop : Int)
  | list (values : List Int)
  | step (n min max : Int)
  deriving DecidableEq

def FieldMatcher.matchesValue : FieldMatcher → Int → Bool
  | .wildcard, _ => true
  | .exact v, value => value = v
  | .range start stop, value => start ≤ value && value ≤ stop
  | .list values, value => values.any (· = value)
  | .step n min max, value =>
    if value < min ∨ max < value then false else (value - min) % n = 0

def trim (cs : List Char) : List Char := Go.trimRight (Go.trimLeft cs)

def parseListValue (min max : Int) (p : List Char) : Except String Int :=
  match Go.atoi (trim p) with
  | some val =>
    if val < min ∨ max < val then .error ("invalid list value: " ++ String.ofList p) else .ok val
  | none => .error ("invalid list value: " ++ String.ofList p)

/-- `*`, steps, lists, ranges and single values, in this order. -/
def parseField (field : List Char) (min max : Int) : Except String FieldMatcher :=
  if field = ['*'] then .ok .wildcard
  else if ['*', '/'].isPrefixOf field then
    match Go.atoi (field.drop 2) with
    | some step =>
      if step < 1 ∨ max < step then .error ("invalid step value: " ++ String.ofList field)
      else .ok (.step step min max)
    | none => .error ("invalid step value: " ++ String.ofList field)
  else if ',' ∈ field then
    ((field.splitOn ',').mapM (parseListValue min max)).map .list
  else if '-' ∈ field then
    match field.splitOn '-' with
    | [first, second] =>
      match Go.atoi (trim first), Go.atoi (trim second) with
      | some start, some stop =>
        if start < min ∨ max < stop ∨ stop < start then
          .error ("invalid range: " ++ String.ofList field)
        else .ok (.range start stop)
      | _, _ => .error ("invalid range: " ++ String.ofList field)
    | _ => .error ("invalid range: " ++ String.ofList field)
  else
    let invalid := "invalid value: " ++ String.ofList field ++ " (must be between " ++
      toString min ++ " and " ++ toString max ++ ")"
    match Go.atoi field with
    | some val => if val < min ∨ max < val then .error invalid else .ok (.exact val)
    | none => .error invalid

structure Schedule where
  seconds : FieldMatcher
  minutes : FieldMatcher
  hours : FieldMatcher
  days : FieldMatcher
  months : FieldMatcher
  weekdays : FieldMatcher
  hasSecs : Bool
  deriving DecidableEq

def parseNamed (name : String) (field : List Char) (min max : Int) : Except String FieldMatcher :=
  (parseField field min max).mapError fun err => "invalid " ++ name ++ " field: " ++ err

def parseFields (hasSecs : Bool) (seconds : FieldMatcher)
    (minute hour day month weekday : List Char) : Except String Schedule := do
  let minutes ← parseNamed "minutes" minute 0 59
  let hours ← parseNamed "hours" hour 0 23
  let days ← parseNamed "days" day 1 31
  let months ← parseNamed "months" month 1 12
  let weekdays ← parseNamed "weekdays" weekday 0 7
  return { seconds, minutes, hours, days, months, weekdays, hasSecs }

def parseCronExpression (expr : String) : Except String Schedule :=
  if expr = "" then .error "empty cron expression"
  else
    match Go.fields expr.toList with
    | [minute, hour, day, month, weekday] =>
      parseFields false (.exact 0) minute hour day month weekday
    | [second, minute, hour, day, month, weekday] => do
      let seconds ← parseNamed "seconds" second 0 59
      parseFields true seconds minute hour day month weekday
    | fields =>
      .error ("invalid cron expression: expected 5 or 6 fields, got " ++ toString fields.length)

namespace Schedule

variable (s : Schedule)

def matchesTime (t : Go.Time) : Bool :=
  s.seconds.matchesValue t.second && s.minutes.matchesValue t.minute && s.hours.matchesValue t.hour &&
    s.months.matchesValue t.date.month && (s.days.matchesValue t.date.day || s.weekdays.matchesValue t.weekday)

/-- The distance of the instants that the search looks at: a second or a minute. -/
def unit : Int := if s.hasSecs then 1000000000 else 60000000000

theorem unit_pos : 0 < s.unit := by
  unfold unit
  split <;> omega

def search (maxTime t : Go.Time) : Go.Time :=
  if t.before maxTime then
    if s.matchesTime t then t else search maxTime (t.add s.unit)
  else .zero
termination_by (maxTime.unixNano - t.unixNano).toNat
decreasing_by
  rename_i h _
  have hlt : t.unixNano < maxTime.unixNano := of_decide_eq_true h
  have hunit := s.unit_pos
  show (maxTime.unixNano - (t.unixNano + s.unit)).toNat < _
  omega

def instant (t : Go.Time) (n : Nat) : Go.Time := t.add (n * s.unit)

theorem instant_zero (t : Go.Time) : s.instant t 0 = t := by simp [instant, Go.Time.add]

theorem instant_succ (t : Go.Time) (n : Nat) :
    s.instant t (n + 1) = s.instant (t.add s.unit) n := by
  have hmul : ((n + 1 : Nat) : Int) * s.unit = s.unit + n * s.unit := by
    rw [Int.natCast_succ, Int.add_mul, Int.one_mul, Int.add_comm]
  unfold instant
  rw [hmul, Go.Time.add_add]

theorem search_spec (maxTime t : Go.Time) :
    (∃ n, s.search maxTime t = s.instant t n ∧ (s.instant t n).before maxTime ∧
      s.matchesTime (s.instant t n) = true ∧ ∀ m < n, s.matchesTime (s.instant t m) = false) ∨
    s.search maxTime t = .zero ∧
      ∀ n, (s.instant t n).before maxTime → s.matchesTime (s.instant t n) = false := by
  fun_induction search s maxTime t with
  | case1 t hbefore hmatches =>
    left
    refine ⟨0, ?_⟩
    rw [instant_zero]
    exact ⟨rfl, hbefore, hmatches, fun m hm => absurd hm (Nat.not_lt_zero m)⟩
  | case2 t hbefore hmatches ih =>
    have hfirst : s.matchesTime (s.instant t 0) = false := by
      rw [instant_zero]
      exact eq_false_of_ne_true hmatches
    rcases ih with ⟨n, hsearch, hn, hmatch, hleast⟩ | ⟨hsearch, hnone⟩
    · left
      refine ⟨n + 1, ?_⟩
      rw [instant_succ]
      refine ⟨hsearch, hn, hmatch, fun m hm => ?_⟩
      cases m with
      | zero => exact hfirst
      | succ m =>
        rw [instant_succ]
        exact hleast m (by omega)
    · right
      refine ⟨hsearch, fun n hn => ?_⟩
      cases n with
      | zero => exact hfirst
      | succ n =>
        rw [instant_succ] at hn ⊢
        exact hnone n hn
  | case3 t hbefore =>
    right
    refine ⟨rfl, fun n hn => absurd ?_ hbefore⟩
    have hle : 0 ≤ (n : Int) * s.unit := Int.mul_nonneg (Int.natCast_nonneg n) (Int.le_of_lt s.unit_pos)
    have hlt : t.unixNano + n * s.unit < maxTime.unixNano := of_decide_eq_true hn
    exact decide_eq_true (by omega)

def first (t : Go.Time) : Go.Time := (t.add s.unit).truncate s.unit

def Next (t : Go.Time) : Go.Time := s.search ((s.first t).addYears 4) (s.first t)

def Found (t : Go.Time) : Prop :=
  ∃ n, (s.instant (s.first t) n).before ((s.first t).addYears 4) ∧
    s.matchesTime (s.instant (s.first t) n) = true

variable {s} {t : Go.Time}

theorem lt_instant (t : Go.Time) (n : Nat) : t.unixNano < (s.instant (s.first t) n).unixNano := by
  have hfirst := t.lt_truncate_add s.unit_pos
  have hle : 0 ≤ (n : Int) * s.unit := Int.mul_nonneg (Int.natCast_nonneg n) (Int.le_of_lt s.unit_pos)
  show t.unixNano < ((t.add s.unit).truncate s.unit).unixNano + n * s.unit
  omega

theorem Next_of_found (h : s.Found t) : s.matchesTime (s.Next t) = true ∧
    t.unixNano < (s.Next t).unixNano ∧ (s.Next t).unixNano ≤ t.unixNano + 6000000000000000000 := by
  rcases s.search_spec ((s.first t).addYears 4) (s.first t) with
    ⟨n, hsearch, hbefore, hmatch, -⟩ | ⟨-, hnone⟩
  · have hlt : (s.instant (s.first t) n).unixNano < ((s.first t).addYears 4).unixNano :=
      of_decide_eq_true hbefore
    have hyears := (s.first t).addYears_four_le
    have hfirst : (s.first t).unixNano ≤ t.unixNano + s.unit := t.truncate_add_le s.unit_pos
    have hunit : s.unit ≤ 60000000000 := by
      unfold unit
      split <;> omega
    unfold Next
    rw [hsearch]
    exact ⟨hmatch, lt_instant t n, by omega⟩
  · obtain ⟨n, hn, hmatch⟩ := h
    rw [hnone n hn] at hmatch
    cases hmatch

/-- An expression that matches no instant sends the search to its end. -/
theorem Next_of_not_found (h : ¬s.Found t) : s.Next t = .zero := by
  rcases s.search_spec ((s.first t).addYears 4) (s.first t) with
    ⟨n, -, hbefore, hmatch, -⟩ | ⟨hsearch, -⟩
  · exact absurd ⟨n, hbefore, hmatch⟩ h
  · exact hsearch

end Schedule

example : parseCronExpression "*/15 9-17 * * 1,7" = .ok
    { seconds := .exact 0, minutes := .step 15 0 59, hours := .range 9 17, days := .wildcard,
      months := .wildcard, weekdays := .list [1, 7], hasSecs := false } := rfl

end Memoark.Scheduler
