import Memoark.Time.Calendar

/-! Parts of Go's `time` package: instants in a time zone. -/
namespace Memoark.Go
open Memoark.Time

/-- What `lookup` of a location answers: the seconds east of UTC, and when they apply. -/
structure Zone where
  offset : Int
  start : Int
  stop : Int

/-- A `time.Location`, by the zone in use at each second of Unix time. The offsets of the time zone
database have 32 bits. -/
structure Location where
  lookup : Int → Zone
  offset_range : ∀ sec, -2147483648 ≤ (lookup sec).offset ∧ (lookup sec).offset ≤ 2147483647

def UTC : Location where
  lookup := fun _ => ⟨0, -9223372036854775808, 9223372036854775807⟩
  offset_range := fun _ => by decide

/-- A `time.Time`, in nanoseconds since the Unix epoch. -/
structure Time where
  unixNano : Int
  loc : Location

namespace Time

def zero : Time := ⟨-62135596800000000000, UTC⟩

variable (t : Time)

def In (loc : Location) : Time := { t with loc := loc }

def unix : Int := t.unixNano / 1000000000

def wall : Int := t.unix + (t.loc.lookup t.unix).offset

def date : Date := dateOf (t.wall / 86400)

def second : Int := t.wall % 60

def minute : Int := t.wall / 60 % 60

def hour : Int := t.wall / 3600 % 24

def weekday : Int := weekdayOf (t.wall / 86400)

def add (nanos : Int) : Time := { t with unixNano := t.unixNano + nanos }

/-- `Truncate`: the zero time is a whole number of minutes before the epoch. -/
def truncate (nanos : Int) : Time := { t with unixNano := t.unixNano - t.unixNano % nanos }

def before (u : Time) : Bool := t.unixNano < u.unixNano

/-- `Date`, for a month and a time of day in their ranges. The offset is looked up at the time as if
in UTC, and again where the first answer does not apply. -/
def ofDate (year : Int) (month : Nat) (day seconds nanos : Int) (loc : Location) : Time :=
  let unix := unixDay year month day * 86400 + seconds
  let zone := loc.lookup unix
  let offset :=
    if zone.offset = 0 then 0
    else if unix - zone.offset < zone.start ∨ zone.stop ≤ unix - zone.offset then
      (loc.lookup (unix - zone.offset)).offset
    else zone.offset
  ⟨(unix - offset) * 1000000000 + nanos, loc⟩

def addYears (years : Int) : Time :=
  ofDate (t.date.year + years) t.date.month t.date.day (t.wall % 86400) (t.unixNano % 1000000000)
    t.loc

@[simp] theorem add_unixNano (nanos : Int) : (t.add nanos).unixNano = t.unixNano + nanos := rfl

@[simp] theorem add_add (m n : Int) : (t.add m).add n = t.add (m + n) := by
  simp only [add, Int.add_assoc]

/-- What rounding down leaves of a later instant is later. -/
theorem lt_truncate_add {unit : Int} (h : 0 < unit) :
    t.unixNano < ((t.add unit).truncate unit).unixNano := by
  have hlt := Int.emod_lt_of_pos (t.unixNano + unit) h
  show t.unixNano < t.unixNano + unit - (t.unixNano + unit) % unit
  omega

theorem truncate_add_le {unit : Int} (h : 0 < unit) :
    ((t.add unit).truncate unit).unixNano ≤ t.unixNano + unit := by
  have hnonneg := Int.emod_nonneg (t.unixNano + unit) (Int.ne_of_gt h)
  show t.unixNano + unit - (t.unixNano + unit) % unit ≤ t.unixNano + unit
  omega

private theorem daysBeforeYear_add_four (year : Int) :
    daysBeforeYear (year + 4) ≤ daysBeforeYear year + 1462 := by
  unfold daysBeforeYear
  omega

private theorem leapDay_range (year : Int) (month : Nat) :
    0 ≤ leapDay year month ∧ leapDay year month ≤ 1 := by
  unfold leapDay
  split <;> omega

theorem addYears_four_le : (t.addYears 4).unixNano ≤ t.unixNano + 5000000000000000000 := by
  obtain ⟨hday, -⟩ := dateOf_spec (t.wall / 86400)
  have hyears := daysBeforeYear_add_four t.date.year
  have hleap := leapDay_range t.date.year t.date.month
  have hleap' := leapDay_range (t.date.year + 4) t.date.month
  have hdays : unixDay (t.date.year + 4) t.date.month t.date.day ≤ t.wall / 86400 + 1463 := by
    change unixDay t.date.year t.date.month t.date.day = _ at hday
    unfold unixDay at hday ⊢
    omega
  have hoffset := t.loc.offset_range t.unix
  have hwall : t.wall = t.unix + (t.loc.lookup t.unix).offset := rfl
  have hunix : t.unix = t.unixNano / 1000000000 := rfl
  unfold addYears ofDate
  dsimp only
  generalize hu : unixDay (t.date.year + 4) t.date.month t.date.day * 86400 + t.wall % 86400 = u
  have h1 := t.loc.offset_range u
  have h2 := t.loc.offset_range (u - (t.loc.lookup u).offset)
  split
  · omega
  · split <;> omega

theorem clock_range : (0 ≤ t.second ∧ t.second ≤ 59) ∧ (0 ≤ t.minute ∧ t.minute ≤ 59) ∧
    (0 ≤ t.hour ∧ t.hour ≤ 23) ∧ (1 ≤ t.date.day ∧ t.date.day ≤ 31) ∧
    (1 ≤ t.date.month ∧ t.date.month ≤ 12) ∧ (0 ≤ t.weekday ∧ t.weekday ≤ 6) := by
  obtain ⟨-, hmonth, hmonth', hday, hday'⟩ := dateOf_spec (t.wall / 86400)
  have hweekday := weekdayOf_range (t.wall / 86400)
  have hdays := daysIn_le hmonth hmonth' (dateOf (t.wall / 86400)).year
  unfold second minute hour date weekday
  exact ⟨by omega, by omega, by omega, ⟨hday, Int.le_trans hday' hdays⟩, ⟨hmonth, hmonth'⟩, hweekday⟩

end Time

end Memoark.Go
