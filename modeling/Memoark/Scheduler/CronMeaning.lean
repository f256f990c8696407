import Memoark.Program.Returns
import Memoark.Scheduler.Cron

/-! What a cron expression means, which instants its schedule matches, and which one is the next. -/
namespace Memoark.Scheduler

inductive Denotes (min max : Int) : List Char → Int → Prop
  | any {v : Int} : min ≤ v → v ≤ max → Denotes min max ['*'] v
  | step {text : List Char} {n v : Int} : Go.atoi text = some n → min ≤ v → v ≤ max →
      n ∣ v - min → Denotes min max ('*' :: '/' :: text) v
  | item {text piece : List Char} {v : Int} : ',' ∈ text → piece ∈ text.splitOn ',' →
      Go.atoi piece = some v → Denotes min max text v
  | range {first second : List Char} {start stop v : Int} : Go.atoi first = some start →
      Go.atoi second = some stop → start ≤ v → v ≤ stop →
      Denotes min max (first ++ '-' :: second) v
  | value {text : List Char} {v : Int} : Go.atoi text = some v → Denotes min max text v

section fields

variable {min max : Int} {field : List Char} {m : FieldMatcher} {v : Int}

private theorem atoi_ne_of_mem {cs : List Char} {c : Char} (hc : c ∈ cs) (hminus : c ≠ '-')
    (hplus : c ≠ '+') (hdigit : c.isDigit = false) (n : Int) : Go.atoi cs ≠ some n := by
  intro h
  rcases Go.digit_or_sign_of_atoi h hc with h | h | h
  · exact hminus h
  · exact hplus h
  · rw [hdigit] at h
    cases h

private theorem atoi_append_minus {first second : List Char} {start : Int}
    (hfirst : Go.atoi first = some start) (n : Int) : Go.atoi (first ++ '-' :: second) ≠ some n := by
  have hdigits : ∀ {cs : List Char} {n : Nat}, Go.parseDigits cs = some n → '-' ∉ cs := by
    intro cs n hparse hmem
    obtain ⟨⟨-, hall⟩, -⟩ := Option.ite_none_right_eq_some.mp hparse
    have := List.all_eq_true.mp hall '-' hmem
    simp at this
  intro h
  cases first with
  | nil => cases hfirst
  | cons c first =>
    rw [List.cons_append] at h
    have hmem : '-' ∈ first ++ '-' :: second := by simp
    unfold Go.atoi at h
    split at h
    · rename_i heq
      obtain ⟨m, hm, -⟩ := Option.bind_eq_some_iff.mp h
      injection heq with _ htail
      exact hdigits hm (htail ▸ hmem)
    · rename_i heq
      obtain ⟨m, hm, -⟩ := Option.bind_eq_some_iff.mp h
      injection heq with _ htail
      exact hdigits hm (htail ▸ hmem)
    · obtain ⟨m, hm, -⟩ := Option.bind_eq_some_iff.mp h
      exact hdigits hm (List.mem_cons_of_mem c hmem)

private theorem star_ne_range {first second rest : List Char} {start : Int}
    (hstart : Go.atoi first = some start) : '*' :: rest ≠ first ++ '-' :: second := by
  intro h
  cases first with
  | nil => cases hstart
  | cons c first =>
    obtain ⟨rfl, -⟩ := List.cons.inj h
    exact atoi_ne_of_mem List.mem_cons_self (by decide) (by decide) rfl start hstart

inductive Accepted (min max : Int) : List Char → FieldMatcher → Prop
  | any : Accepted min max ['*'] .wildcard
  | step {text : List Char} {n : Int} : Go.atoi text = some n → 1 ≤ n →
      Accepted min max ('*' :: '/' :: text) (.step n min max)
  | list {field : List Char} {values : List Int} : ',' ∈ field →
      (field.splitOn ',').mapM (parseListValue min max) = .ok values →
      Accepted min max field (.list values)
  | range {first second : List Char} {start stop : Int} : '-' ∉ first → '-' ∉ second →
      Go.atoi (trim first) = some start → Go.atoi (trim second) = some stop →
      Accepted min max (first ++ '-' :: second) (.range start stop)
  | value {field : List Char} {v : Int} : Go.atoi field = some v → '-' ∉ field →
      Accepted min max field (.exact v)

theorem Accepted.of_parseField (h : parseField field min max = .ok m) : Accepted min max field m := by
  unfold parseField at h
  split at h
  · rename_i hfield
    cases h
    rw [hfield]
    exact .any
  split at h
  · rename_i hprefix
    obtain ⟨text, rfl⟩ := List.isPrefixOf_iff_prefix.mp hprefix
    split at h
    · rename_i n hn
      split at h
      · cases h
      · cases h
        exact .step hn (by omega)
    · cases h
  split at h
  · rename_i hcomma
    obtain ⟨values, hvalues, rfl⟩ := Program.map_ok h
    exact .list hcomma hvalues
  split at h
  · split at h
    · rename_i first second hsplit
      obtain ⟨rfl, hfirst, hsecond⟩ := Go.splitOn_eq_pair.mp hsplit
      split at h
      · rename_i start stop hstart hstop
        split at h <;> cases h
        exact .range hfirst hsecond hstart hstop
      · cases h
    · cases h
  · rename_i hminus
    dsimp only at h
    split at h
    · rename_i v hv
      split at h <;> cases h
      exact .value hv hminus
    · cases h

theorem parseListValue_ok {p : List Char} (h : parseListValue min max p = .ok v) :
    Go.atoi (trim p) = some v := by
  unfold parseListValue at h
  split at h
  · rename_i val hval
    split at h <;> cases h
    exact hval
  · cases h

theorem Accepted.matches_any (hv : min ≤ v ∧ v ≤ max) :
    FieldMatcher.wildcard.matchesValue v = true ↔ Denotes min max ['*'] v :=
  ⟨fun _ => .any hv.1 hv.2, fun _ => rfl⟩

theorem Accepted.matches_step {text : List Char} {n : Int} (hn : Go.atoi text = some n)
    (hv : min ≤ v ∧ v ≤ max) :
    (FieldMatcher.step n min max).matchesValue v = true ↔
      Denotes min max ('*' :: '/' :: text) v := by
  have hmatches : (FieldMatcher.step n min max).matchesValue v = true ↔ n ∣ v - min := by
    have hrange : ¬(v < min ∨ max < v) := by omega
    rw [FieldMatcher.matchesValue, if_neg hrange, decide_eq_true_eq]
    exact ⟨Int.dvd_of_emod_eq_zero, Int.emod_eq_zero_of_dvd⟩
  rw [hmatches]
  constructor
  · exact .step hn hv.1 hv.2
  · intro h
    generalize hfield : '*' :: '/' :: text = field at h
    cases h with
    | any _ _ => cases hfield
    | step hn' _ _ hdvd =>
      cases hfield
      rw [hn] at hn'
      cases hn'
      exact hdvd
    | item hcomma _ _ =>
      -- A comma would stand in the number of the step.
      rw [← hfield] at hcomma
      have hmem : ',' ∈ text := by simpa using hcomma
      exact absurd hn (atoi_ne_of_mem hmem (by decide) (by decide) rfl n)
    | range hstart _ _ _ => exact absurd hfield (star_ne_range hstart)
    | value hvalue =>
      rw [← hfield] at hvalue
      exact absurd hvalue (atoi_ne_of_mem List.mem_cons_self (by decide) (by decide) rfl v)

theorem Accepted.matches_list {values : List Int} (hcomma : ',' ∈ field)
    (hvalues : (field.splitOn ',').mapM (parseListValue min max) = .ok values)
    (hspace : ∀ c ∈ field, Go.isSpace c = false) :
    (FieldMatcher.list values).matchesValue v = true ↔ Denotes min max field v := by
  have hpiece : ∀ p ∈ field.splitOn ',', trim p = p := by
    intro p hp
    rw [List.splitOn_eq_splitOnP] at hp
    exact Go.trimRight_trimLeft fun c hc => hspace c (Go.of_mem_splitOnP hp hc).1
  have hmatches : (FieldMatcher.list values).matchesValue v = true ↔ v ∈ values := by
    simp [FieldMatcher.matchesValue]
  rw [hmatches]
  constructor
  · intro hmem
    obtain ⟨p, hp, hv⟩ := Program.mem_of_mapM_ok hvalues v hmem
    have hv := parseListValue_ok hv
    rw [hpiece p hp] at hv
    exact .item hcomma hp hv
  · intro h
    cases h with
    | any _ _ => simp at hcomma
    | @step text _ _ hn _ _ _ =>
      have hmem : ',' ∈ text := by simpa using hcomma
      exact absurd hn (atoi_ne_of_mem hmem (by decide) (by decide) rfl _)
    | @item _ p _ _ hp hv =>
      obtain ⟨w, hw, hparse⟩ := Program.ok_of_mapM_ok hvalues p hp
      have hparse := parseListValue_ok hparse
      rw [hpiece p hp, hv] at hparse
      cases hparse
      exact hw
    | @range first second _ _ _ hstart hstop _ _ =>
      rcases List.mem_append.mp hcomma with hmem | hmem
      · exact absurd hstart (atoi_ne_of_mem hmem (by decide) (by decide) rfl _)
      · have hmem : ',' ∈ second := by simpa using hmem
        exact absurd hstop (atoi_ne_of_mem hmem (by decide) (by decide) rfl _)
    | value hv => exact absurd hv (atoi_ne_of_mem hcomma (by decide) (by decide) rfl _)

theorem Accepted.matches_range {first second : List Char} {start stop : Int} (hfirst : '-' ∉ first)
    (hsecond : '-' ∉ second) (hstart : Go.atoi (trim first) = some start)
    (hstop : Go.atoi (trim second) = some stop)
    (hspace : ∀ c ∈ first ++ '-' :: second, Go.isSpace c = false) :
    (FieldMatcher.range start stop).matchesValue v = true ↔
      Denotes min max (first ++ '-' :: second) v := by
  have htrim : trim first = first ∧ trim second = second :=
    ⟨Go.trimRight_trimLeft fun c hc => hspace c (List.mem_append_left _ hc),
      Go.trimRight_trimLeft fun c hc =>
        hspace c (List.mem_append_right _ (List.mem_cons_of_mem _ hc))⟩
  rw [htrim.1] at hstart
  rw [htrim.2] at hstop
  have hmatches : (FieldMatcher.range start stop).matchesValue v = true ↔ start ≤ v ∧ v ≤ stop := by
    simp [FieldMatcher.matchesValue]
  rw [hmatches]
  constructor
  · rintro ⟨hle, hle'⟩
    exact .range hstart hstop hle hle'
  · intro h
    generalize hfield : first ++ '-' :: second = field at h
    have hsplit : field.splitOn '-' = [first, second] :=
      Go.splitOn_eq_pair.mpr ⟨hfield.symm, hfirst, hsecond⟩
    cases h with
    | any _ _ => exact absurd hfield.symm (star_ne_range hstart)
    | step _ _ _ _ => exact absurd hfield.symm (star_ne_range hstart)
    | item hcomma _ _ =>
      rw [← hfield] at hcomma
      rcases List.mem_append.mp hcomma with hmem | hmem
      · exact absurd hstart (atoi_ne_of_mem hmem (by decide) (by decide) rfl start)
      · have hmem : ',' ∈ second := by simpa using hmem
        exact absurd hstop (atoi_ne_of_mem hmem (by decide) (by decide) rfl stop)
    | @range first' second' start' stop' _ hstart' hstop' hle hle' =>
      -- Both texts have one minus sign, so they are split alike.
      obtain ⟨rfl, rfl⟩ := Go.splitOn_append_eq_pair hsplit
      rw [hstart] at hstart'
      rw [hstop] at hstop'
      cases hstart'
      cases hstop'
      exact ⟨hle, hle'⟩
    | value hvalue =>
      rw [← hfield] at hvalue
      exact absurd hvalue (atoi_append_minus hstart v)

theorem Accepted.matches_value {w : Int} (hw : Go.atoi field = some w) (hminus : '-' ∉ field) :
    (FieldMatcher.exact w).matchesValue v = true ↔ Denotes min max field v := by
  have hmatches : (FieldMatcher.exact w).matchesValue v = true ↔ v = w := by
    rw [FieldMatcher.matchesValue, decide_eq_true_eq]
  rw [hmatches]
  constructor
  · rintro rfl
    exact .value hw
  · intro h
    cases h with
    | any _ _ => exact absurd hw (atoi_ne_of_mem List.mem_cons_self (by decide) (by decide) rfl w)
    | step _ _ _ _ =>
      exact absurd hw (atoi_ne_of_mem List.mem_cons_self (by decide) (by decide) rfl w)
    | item hcomma _ _ => exact absurd hw (atoi_ne_of_mem hcomma (by decide) (by decide) rfl w)
    | range _ _ _ _ => simp at hminus
    | value hv =>
      rw [hw] at hv
      exact (Option.some.inj hv).symm

theorem matchesValue_iff (h : parseField field min max = .ok m)
    (hspace : ∀ c ∈ field, Go.isSpace c = false) (hv : min ≤ v ∧ v ≤ max) :
    m.matchesValue v = true ↔ Denotes min max field v := by
  cases Accepted.of_parseField h with
  | any => exact Accepted.matches_any hv
  | step hn _ => exact Accepted.matches_step hn hv
  | list hcomma hvalues => exact Accepted.matches_list hcomma hvalues hspace
  | range hfirst hsecond hstart hstop =>
    exact Accepted.matches_range hfirst hsecond hstart hstop hspace
  | value hw hminus => exact Accepted.matches_value hw hminus

end fields

structure CronFields where
  second : List Char
  minute : List Char
  hour : List Char
  day : List Char
  month : List Char
  weekday : List Char

def cronFields (expr : String) : Option CronFields :=
  match Go.fields expr.toList with
  | [minute, hour, day, month, weekday] => some ⟨['0'], minute, hour, day, month, weekday⟩
  | [second, minute, hour, day, month, weekday] =>
    some ⟨second, minute, hour, day, month, weekday⟩
  | _ => none

namespace CronFields

/-- The second, the minute, the hour and the month are in their sets. -/
structure OnTime (f : CronFields) (t : Go.Time) : Prop where
  second : Denotes 0 59 f.second t.second
  minute : Denotes 0 59 f.minute t.minute
  hour : Denotes 0 23 f.hour t.hour
  month : Denotes 1 12 f.month t.date.month

variable (f : CronFields) (t : Go.Time)

def onDay : Prop := Denotes 1 31 f.day t.date.day

def onWeekday : Prop :=
  Denotes 0 7 f.weekday t.weekday ∨ t.weekday = 0 ∧ Denotes 0 7 f.weekday 7

/-- The standard rule on the day: both fields if one of them is `*`, else one of the two. -/
def dayRule : Prop :=
  if f.day = ['*'] ∨ f.weekday = ['*'] then f.onDay t ∧ f.onWeekday t
  else f.onDay t ∨ f.onWeekday t

def rule : Prop := f.OnTime t ∧ f.dayRule t

/-- Where one of the two fields is `*`, the other has the day; where none is, the day is not a
Sunday that is in the set as 7 alone, on another day of the month. -/
structure DayClear : Prop where
  anyDay : f.day = ['*'] → f.onWeekday t
  anyWeekday : f.weekday = ['*'] → f.onDay t
  sunday : f.day ≠ ['*'] → f.weekday ≠ ['*'] → t.weekday = 0 → Denotes 0 7 f.weekday 7 →
    f.onDay t ∨ Denotes 0 7 f.weekday 0

end CronFields

structure Parsed (f : CronFields) (s : Schedule) : Prop where
  seconds : parseField f.second 0 59 = .ok s.seconds
  minutes : parseField f.minute 0 59 = .ok s.minutes
  hours : parseField f.hour 0 23 = .ok s.hours
  days : parseField f.day 1 31 = .ok s.days
  months : parseField f.month 1 12 = .ok s.months
  weekdays : parseField f.weekday 0 7 = .ok s.weekdays
  noSpace : ∀ field ∈ [f.second, f.minute, f.hour, f.day, f.month, f.weekday],
    ∀ c ∈ field, Go.isSpace c = false

theorem parseFields_ok {hasSecs : Bool} {seconds : FieldMatcher}
    {minute hour day month weekday : List Char} {s : Schedule}
    (h : parseFields hasSecs seconds minute hour day month weekday = .ok s) :
    s.seconds = seconds ∧ s.hasSecs = hasSecs ∧ parseField minute 0 59 = .ok s.minutes ∧
      parseField hour 0 23 = .ok s.hours ∧ parseField day 1 31 = .ok s.days ∧
      parseField month 1 12 = .ok s.months ∧ parseField weekday 0 7 = .ok s.weekdays := by
  obtain ⟨minutes, hminutes, h⟩ := Program.bind_ok h
  obtain ⟨hours, hhours, h⟩ := Program.bind_ok h
  obtain ⟨days, hdays, h⟩ := Program.bind_ok h
  obtain ⟨months, hmonths, h⟩ := Program.bind_ok h
  obtain ⟨weekdays, hweekdays, h⟩ := Program.bind_ok h
  cases h
  exact ⟨rfl, rfl, Program.mapError_ok hminutes, Program.mapError_ok hhours,
    Program.mapError_ok hdays, Program.mapError_ok hmonths, Program.mapError_ok hweekdays⟩

theorem parseCronExpression_ok {expr : String} {s : Schedule}
    (h : parseCronExpression expr = .ok s) : ∃ f, cronFields expr = some f ∧ Parsed f s := by
  have hspace : ∀ field ∈ Go.fields expr.toList, ∀ c ∈ field, Go.isSpace c = false :=
    fun field hfield c hc => (Go.of_mem_fields hfield hc).2
  unfold parseCronExpression at h
  split at h
  · cases h
  split at h
  · rename_i minute hour day month weekday hfields
    obtain ⟨hsecs, -, hminutes, hhours, hdays, hmonths, hweekdays⟩ := parseFields_ok h
    have hcron : cronFields expr = some ⟨['0'], minute, hour, day, month, weekday⟩ := by
      unfold cronFields
      rw [hfields]
    rw [hfields] at hspace
    refine ⟨_, hcron, ?_, hminutes, hhours, hdays, hmonths, hweekdays, ?_⟩
    · rw [hsecs]
      rfl
    · intro field hfield
      rcases List.mem_cons.mp hfield with rfl | hfield
      · intro c hc
        obtain rfl := List.mem_singleton.mp hc
        rfl
      · exact hspace field hfield
  · rename_i second minute hour day month weekday hfields
    obtain ⟨seconds, hseconds, h⟩ := Program.bind_ok h
    obtain ⟨hsecs, -, hminutes, hhours, hdays, hmonths, hweekdays⟩ := parseFields_ok h
    have hcron : cronFields expr = some ⟨second, minute, hour, day, month, weekday⟩ := by
      unfold cronFields
      rw [hfields]
    rw [hfields] at hspace
    refine ⟨_, hcron, ?_, hminutes, hhours, hdays, hmonths, hweekdays, hspace⟩
    rw [hsecs]
    exact Program.mapError_ok hseconds
  · cases h

section matching

variable {f : CronFields} {s : Schedule}

theorem matchesTime_iff (h : Parsed f s) (t : Go.Time) :
    s.matchesTime t = true ↔ f.OnTime t ∧ (f.onDay t ∨ Denotes 0 7 f.weekday t.weekday) := by
  obtain ⟨hsecond, hminute, hhour, hday, hmonth, hweekday⟩ := t.clock_range
  have hs := matchesValue_iff h.seconds (h.noSpace _ (by simp)) hsecond
  have hm := matchesValue_iff h.minutes (h.noSpace _ (by simp)) hminute
  have hh := matchesValue_iff h.hours (h.noSpace _ (by simp)) hhour
  have hd := matchesValue_iff h.days (h.noSpace _ (by simp)) hday
  have hmo := matchesValue_iff (v := t.date.month) h.months (h.noSpace _ (by simp)) (by omega)
  have hw := matchesValue_iff (v := t.weekday) h.weekdays (h.noSpace _ (by simp)) (by omega)
  unfold Schedule.matchesTime CronFields.onDay
  simp only [Bool.and_eq_true, Bool.or_eq_true, hs, hm, hh, hd, hmo, hw]
  constructor
  · intro ⟨⟨⟨⟨hs, hm⟩, hh⟩, hmo⟩, hdays⟩
    exact ⟨⟨hs, hm, hh, hmo⟩, hdays⟩
  · intro ⟨⟨hs, hm, hh, hmo⟩, hdays⟩
    exact ⟨⟨⟨⟨hs, hm⟩, hh⟩, hmo⟩, hdays⟩

theorem onDay_any {t : Go.Time} (h : f.day = ['*']) : f.onDay t := by
  obtain ⟨-, -, -, hday, -, -⟩ := t.clock_range
  unfold CronFields.onDay
  rw [h]
  exact .any hday.1 hday.2

theorem denotes_anyWeekday {t : Go.Time} (h : f.weekday = ['*']) :
    Denotes 0 7 f.weekday t.weekday := by
  obtain ⟨-, -, -, -, -, hweekday⟩ := t.clock_range
  rw [h]
  exact .any hweekday.1 (by omega)

theorem dayRule_iff (t : Go.Time) :
    ((f.onDay t ∨ Denotes 0 7 f.weekday t.weekday) ↔ f.dayRule t) ↔ f.DayClear t := by
  by_cases hany : f.day = ['*'] ∨ f.weekday = ['*']
  · have hset : f.onDay t ∨ Denotes 0 7 f.weekday t.weekday := by
      rcases hany with h | h
      · exact .inl (onDay_any h)
      · exact .inr (denotes_anyWeekday h)
    unfold CronFields.dayRule
    rw [if_pos hany]
    constructor
    · intro h
      obtain ⟨hday, hweekday⟩ := h.mp hset
      exact ⟨fun _ => hweekday, fun _ => hday, fun _ _ _ _ => .inl hday⟩
    · intro h
      refine iff_of_true hset ?_
      rcases hany with hstar | hstar
      · exact ⟨onDay_any hstar, h.anyDay hstar⟩
      · exact ⟨h.anyWeekday hstar, .inl (denotes_anyWeekday hstar)⟩
  · obtain ⟨hday, hweekday⟩ := not_or.mp hany
    unfold CronFields.dayRule CronFields.onWeekday
    rw [if_neg hany]
    constructor
    · intro h
      refine ⟨fun hstar => absurd hstar hday, fun hstar => absurd hstar hweekday,
        fun _ _ hsunday hseven => ?_⟩
      have hset := h.mpr (.inr (.inr ⟨hsunday, hseven⟩))
      rw [hsunday] at hset
      exact hset
    · intro h
      constructor
      · rintro (hset | hset)
        · exact .inl hset
        · exact .inr (.inl hset)
      · rintro (hset | hset | ⟨hsunday, hseven⟩)
        · exact .inl hset
        · exact .inr hset
        · rw [hsunday]
          exact h.sunday hday hweekday hsunday hseven

end matching

/-- A schedule matches an instant by the standard rule exactly where the day is clear or the time
of day or the month is not in its set. -/
theorem matches_rule_iff {expr : String} {s : Schedule} (h : parseCronExpression expr = .ok s) :
    ∃ f, cronFields expr = some f ∧
      ∀ t, ((s.matchesTime t = true ↔ f.rule t) ↔ (f.OnTime t → f.DayClear t)) := by
  obtain ⟨f, hf, hparsed⟩ := parseCronExpression_ok h
  refine ⟨f, hf, fun t => ?_⟩
  rw [matchesTime_iff hparsed, ← dayRule_iff]
  unfold CronFields.rule
  constructor
  · intro hrule htime
    exact ⟨fun hset => (hrule.mp ⟨htime, hset⟩).2, fun hday => (hrule.mpr ⟨htime, hday⟩).2⟩
  · intro hclear
    constructor
    · rintro ⟨htime, hset⟩
      exact ⟨htime, (hclear htime).mp hset⟩
    · rintro ⟨htime, hday⟩
      exact ⟨htime, (hclear htime).mpr hday⟩

def january (day : Int) : Go.Time := ⟨(20088 + day) * 86400 * 1000000000, Go.UTC⟩

theorem first_of_month_parsed : parseCronExpression "0 0 1 * *" = .ok
    ⟨.exact 0, .exact 0, .exact 0, .exact 1, .wildcard, .wildcard, false⟩ := rfl

/-- The first day of every month, on the first day of a month. -/
theorem matches_rule_iff_first : ∃ f, cronFields "0 0 1 * *" = some f ∧
    ∀ t, (((⟨.exact 0, .exact 0, .exact 0, .exact 1, .wildcard, .wildcard, false⟩ :
      Schedule).matchesTime t = true ↔ f.rule t) ↔ (f.OnTime t → f.DayClear t)) :=
  matches_rule_iff first_of_month_parsed

/-- The expression for the first day of every month matches the second day of January; the one for
the first day and Sundays, written as 7, does not match a Sunday. -/
theorem matches_other_days :
    (∃ s f, parseCronExpression "0 0 1 * *" = .ok s ∧ cronFields "0 0 1 * *" = some f ∧
      s.matchesTime (january 2) = true ∧ ¬f.rule (january 2)) ∧
    ∃ s f, parseCronExpression "0 0 1 * 7" = .ok s ∧ cronFields "0 0 1 * 7" = some f ∧
      s.matchesTime (january 5) = false ∧ f.rule (january 5) := by
  constructor
  · refine ⟨_, _, first_of_month_parsed, rfl, rfl, ?_⟩
    intro h
    have hrule : CronFields.dayRule ⟨['0'], ['0'], ['0'], ['1'], ['*'], ['*']⟩ (january 2) := h.2
    unfold CronFields.dayRule at hrule
    rw [if_pos (.inr rfl)] at hrule
    have hparsed : parseField ['1'] 1 31 = .ok (.exact 1) := rfl
    have hdigit : ∀ c ∈ ['1'], Go.isSpace c = false := by
      intro c hc
      obtain rfl := List.mem_singleton.mp hc
      rfl
    have hday := (matchesValue_iff hparsed hdigit (by decide)).mpr hrule.1
    cases hday
  · refine ⟨_, ⟨['0'], ['0'], ['0'], ['1'], ['*'], ['7']⟩, rfl, rfl, rfl, ?_, ?_⟩
    · exact ⟨.value rfl, .value rfl, .value rfl, .any (by decide) (by decide)⟩
    · unfold CronFields.dayRule
      rw [if_neg (by decide)]
      exact .inr (.inr ⟨rfl, .value rfl⟩)

section next

/-- The clock is always a whole number of minutes off UTC. -/
def WholeMinutes (loc : Go.Location) : Prop := ∀ sec, (loc.lookup sec).offset % 60 = 0

namespace Schedule

variable (s : Schedule) (t g next : Go.Time)

/-- A whole second of the clock, and a whole minute if the expression has no field of seconds. -/
def OnGrid : Prop := t.unixNano % 1000000000 = 0 ∧ (s.hasSecs = false → t.second = 0)

/-- Between the next instant of the grid and four years later. -/
def InHorizon : Prop :=
  g.loc = t.loc ∧ (s.first t).unixNano ≤ g.unixNano ∧ g.before ((s.first t).addYears 4) = true

/-- Some instant of the search horizon matches. -/
def Due : Prop := ∃ g, s.InHorizon t g ∧ s.matchesTime g = true

/-- The first instant of the grid after `t` that matches. -/
structure IsNext : Prop where
  zone : next.loc = t.loc
  later : t.unixNano < next.unixNano
  grid : s.OnGrid next
  hits : s.matchesTime next = true
  least : ∀ g : Go.Time, g.loc = t.loc → s.OnGrid g → t.unixNano < g.unixNano →
    g.unixNano < next.unixNano → s.matchesTime g = false

variable {s t g next} {expr : String}

theorem onGrid_iff (hzone : WholeMinutes g.loc) : s.OnGrid g ↔ g.unixNano % s.unit = 0 := by
  have hoffset := hzone g.unix
  have hunix : g.unix = g.unixNano / 1000000000 := rfl
  have hsecond : g.second = (g.unix + (g.loc.lookup g.unix).offset) % 60 := rfl
  unfold OnGrid unit
  cases hsecs : s.hasSecs with
  | true => simp
  | false =>
    simp only [true_implies, Bool.false_eq_true, if_false]
    omega

theorem first_emod (t : Go.Time) : (s.first t).unixNano % s.unit = 0 := by
  have hdvd : s.unit ∣ t.unixNano + s.unit - (t.unixNano + s.unit) % s.unit :=
    Int.dvd_self_sub_emod
  exact Int.emod_eq_zero_of_dvd hdvd

theorem instant_onGrid (hzone : WholeMinutes t.loc) (n : Nat) :
    s.OnGrid (s.instant (s.first t) n) := by
  have hloc : (s.instant (s.first t) n).loc = t.loc := rfl
  have hnano : (s.instant (s.first t) n).unixNano = (s.first t).unixNano + n * s.unit := rfl
  rw [← hloc] at hzone
  rw [onGrid_iff hzone, hnano, Int.add_mul_emod_self_right]
  exact first_emod t

theorem exists_instant (hloc : g.loc = t.loc) (hgrid : g.unixNano % s.unit = 0)
    (hle : (s.first t).unixNano ≤ g.unixNano) : ∃ n, s.instant (s.first t) n = g := by
  have hdvd : s.unit ∣ g.unixNano - (s.first t).unixNano :=
    Int.dvd_sub (Int.dvd_of_emod_eq_zero hgrid) (Int.dvd_of_emod_eq_zero (first_emod t))
  obtain ⟨k, hk⟩ := hdvd
  have hpos := s.unit_pos
  have hnonneg : 0 ≤ k := by
    apply Int.not_lt.mp
    intro hneg
    have hmul : s.unit * k < 0 := Int.mul_neg_of_pos_of_neg hpos hneg
    omega
  obtain ⟨n, rfl⟩ := Int.eq_ofNat_of_zero_le hnonneg
  refine ⟨n, ?_⟩
  have hnano : (s.first t).unixNano + n * s.unit = g.unixNano := by
    rw [Int.mul_comm]
    omega
  unfold instant Go.Time.add
  rw [hnano]
  have hfirst : (s.first t).loc = g.loc := hloc.symm
  cases g
  simp_all

/-- A later instant of the grid is not before the first that the search looks at. -/
theorem first_le (hgrid : g.unixNano % s.unit = 0) (hlt : t.unixNano < g.unixNano) :
    (s.first t).unixNano ≤ g.unixNano := by
  apply Int.not_lt.mp
  intro hlate
  have hfirst : (s.first t).unixNano ≤ t.unixNano + s.unit := t.truncate_add_le s.unit_pos
  have hdvd : s.unit ∣ (s.first t).unixNano - g.unixNano :=
    Int.dvd_sub (Int.dvd_of_emod_eq_zero (first_emod t)) (Int.dvd_of_emod_eq_zero hgrid)
  have hle := Int.le_of_dvd (by omega) hdvd
  omega

theorem matchesTime_congr (h : g.wall = next.wall) : s.matchesTime g = s.matchesTime next := by
  unfold matchesTime Go.Time.second Go.Time.minute Go.Time.hour Go.Time.date Go.Time.weekday
  rw [h]

theorem seconds_of_parsed (h : parseCronExpression expr = .ok s) (hsecs : s.hasSecs = false) :
    s.seconds = .exact 0 := by
  unfold parseCronExpression at h
  split at h
  · cases h
  split at h
  · exact (parseFields_ok h).1
  · obtain ⟨seconds, -, h⟩ := Program.bind_ok h
    have htrue := (parseFields_ok h).2.1
    rw [hsecs] at htrue
    cases htrue
  · cases h

theorem matchesTime_truncate (h : parseCronExpression expr = .ok s) (hzone : WholeMinutes g.loc)
    (hmatch : s.matchesTime g = true) : s.matchesTime (g.truncate s.unit) = true := by
  have hunix : (g.truncate s.unit).unix = g.unix := by
    have hnano : (g.truncate s.unit).unix =
        (g.unixNano - g.unixNano % s.unit) / 1000000000 := rfl
    have hg : g.unix = g.unixNano / 1000000000 := rfl
    rw [hnano, hg]
    unfold unit
    cases hsecs : s.hasSecs with
    | true =>
      rw [if_pos rfl]
      omega
    | false =>
      have hoffset := hzone g.unix
      have hsecond : g.second = (g.unix + (g.loc.lookup g.unix).offset) % 60 := rfl
      have hzero : g.second = 0 := by
        simp only [matchesTime, seconds_of_parsed h hsecs, FieldMatcher.matchesValue,
          Bool.and_eq_true, decide_eq_true_eq] at hmatch
        exact hmatch.1.1.1.1
      rw [if_neg Bool.false_ne_true]
      omega
  have hwall : (g.truncate s.unit).wall = g.wall := by
    unfold Go.Time.wall
    rw [hunix]
    rfl
  rw [matchesTime_congr hwall]
  exact hmatch

/-- The search finds something exactly if some instant of its horizon matches. -/
theorem found_iff_due (h : parseCronExpression expr = .ok s) (hzone : WholeMinutes t.loc) :
    s.Found t ↔ s.Due t := by
  constructor
  · rintro ⟨n, hbefore, hmatch⟩
    refine ⟨s.instant (s.first t) n, ⟨rfl, ?_, hbefore⟩, hmatch⟩
    have hle : 0 ≤ (n : Int) * s.unit :=
      Int.mul_nonneg (Int.natCast_nonneg n) (Int.le_of_lt s.unit_pos)
    show (s.first t).unixNano ≤ (s.first t).unixNano + n * s.unit
    omega
  · rintro ⟨g, ⟨hloc, hle, hbefore⟩, hmatch⟩
    rw [← hloc] at hzone
    have hmatch := matchesTime_truncate h hzone hmatch
    have hnano : (g.truncate s.unit).unixNano = g.unixNano - g.unixNano % s.unit := rfl
    have hgrid : (g.truncate s.unit).unixNano % s.unit = 0 :=
      Int.emod_eq_zero_of_dvd Int.dvd_self_sub_emod
    have hnonneg := Int.emod_nonneg g.unixNano (Int.ne_of_gt s.unit_pos)
    have hfirst : (s.first t).unixNano ≤ (g.truncate s.unit).unixNano := by
      apply Int.not_lt.mp
      intro hearly
      have hdvd : s.unit ∣ (s.first t).unixNano - (g.truncate s.unit).unixNano :=
        Int.dvd_sub (Int.dvd_of_emod_eq_zero (first_emod t)) (Int.dvd_of_emod_eq_zero hgrid)
      have hge := Int.le_of_dvd (by omega) hdvd
      have hlt := Int.emod_lt_of_pos g.unixNano s.unit_pos
      omega
    obtain ⟨n, hn⟩ := @exists_instant s t (g.truncate s.unit) hloc hgrid hfirst
    refine ⟨n, ?_, ?_⟩
    · have hlt : g.unixNano < ((s.first t).addYears 4).unixNano := of_decide_eq_true hbefore
      rw [hn]
      exact decide_eq_true (by omega)
    · rw [hn]
      exact hmatch

theorem isNext_of_found (hzone : WholeMinutes t.loc) (h : s.Found t) : s.IsNext t (s.Next t) := by
  rcases s.search_spec ((s.first t).addYears 4) (s.first t) with
    ⟨n, hsearch, -, hmatch, hleast⟩ | ⟨-, hnone⟩
  · have hnext : s.Next t = s.instant (s.first t) n := hsearch
    rw [hnext]
    constructor
    · rfl
    · exact lt_instant t n
    · exact instant_onGrid hzone n
    · exact hmatch
    · intro g hloc hgrid hlater hbefore
      have hgridNano : g.unixNano % s.unit = 0 := by
        rw [← hloc] at hzone
        exact (onGrid_iff hzone).mp hgrid
      obtain ⟨m, rfl⟩ := exists_instant hloc hgridNano (first_le hgridNano hlater)
      have hm : (s.first t).unixNano + m * s.unit < (s.first t).unixNano + n * s.unit := hbefore
      have hlt : (m : Int) < n := Int.lt_of_mul_lt_mul_right (by omega) (Int.le_of_lt s.unit_pos)
      exact hleast m (by omega)
  · obtain ⟨n, hn, hmatch⟩ := h
    rw [hnone n hn] at hmatch
    cases hmatch

end Schedule

/-- `Next` is the first instant of the grid that matches, and the zero time if no instant of the
search horizon does; from the year 1 on it is the zero time in no other case. -/
theorem Next_exact {expr : String} {s : Schedule} (h : parseCronExpression expr = .ok s)
    {t : Go.Time} (hzone : WholeMinutes t.loc) :
    (s.Due t → s.IsNext t (s.Next t)) ∧ (¬s.Due t → s.Next t = .zero) ∧
      (Go.Time.zero.unixNano ≤ t.unixNano → (s.Next t = .zero ↔ ¬s.Due t)) := by
  have hfound := Schedule.found_iff_due h hzone
  have hdue : s.Due t → s.IsNext t (s.Next t) :=
    fun hdue => Schedule.isNext_of_found hzone (hfound.mpr hdue)
  have hnone : ¬s.Due t → s.Next t = .zero := by
    intro hnone
    exact Schedule.Next_of_not_found fun found => hnone (hfound.mp found)
  refine ⟨hdue, hnone, fun hyear => ⟨fun hzero hdue' => ?_, hnone⟩⟩
  have hlater := (hdue hdue').later
  rw [hzero] at hlater
  omega

theorem wholeMinutes_UTC : WholeMinutes Go.UTC := fun _ => rfl

/-- From New Year 2025 on. -/
theorem Next_exact_january : ∃ s, parseCronExpression "0 0 1 * *" = .ok s ∧
    s.IsNext (january 1) (s.Next (january 1)) := by
  refine ⟨_, first_of_month_parsed, (Next_exact first_of_month_parsed wholeMinutes_UTC).1 ?_⟩
  exact ⟨january 2, ⟨rfl, by decide +kernel, by decide +kernel⟩, by decide +kernel⟩

/-- Before the year 1 the zero time can be the next instant that matches. -/
theorem Next_zero_matches : ∃ s t g, parseCronExpression "* * * * *" = .ok s ∧
    WholeMinutes t.loc ∧ s.Next t = .zero ∧ s.InHorizon t g ∧ s.matchesTime g = true := by
  let s : Schedule := ⟨.exact 0, .wildcard, .wildcard, .wildcard, .wildcard, .wildcard, false⟩
  let t : Go.Time := ⟨-62135596860000000000, Go.UTC⟩
  have hfirst : s.first t = .zero := congrArg (Go.Time.mk · Go.UTC) (by decide)
  have hmatch : s.matchesTime .zero = true := by decide +kernel
  have hbefore : Go.Time.zero.before (Go.Time.zero.addYears 4) = true := by decide +kernel
  refine ⟨s, t, .zero, rfl, wholeMinutes_UTC, ?_, ⟨rfl, ?_, ?_⟩, hmatch⟩
  · unfold Schedule.Next
    rw [hfirst, Schedule.search, if_pos hbefore, if_pos hmatch]
  · exact Int.le_of_eq (congrArg Go.Time.unixNano hfirst)
  · rw [hfirst]
    exact hbefore

end next
end Memoark.Scheduler
