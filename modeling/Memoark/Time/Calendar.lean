import Mathlib.Algebra.Group.Nat.Defs

/-! The proleptic Gregorian calendar, Unix time and `time.Parse` with the layout `RFC3339Nano`. -/
namespace Memoark.Time

def isLeap (year : Int) : Bool := year % 4 = 0 && (year % 100 ≠ 0 || year % 400 = 0)

def daysBefore : Nat → Int
  | 1 => 0
  | 2 => 31
  | 3 => 59
  | 4 => 90
  | 5 => 120
  | 6 => 151
  | 7 => 181
  | 8 => 212
  | 9 => 243
  | 10 => 273
  | 11 => 304
  | 12 => 334
  | _ => 365

def leapDay (year : Int) (month : Nat) : Int := if isLeap year ∧ 2 < month then 1 else 0

def daysIn (month : Nat) (year : Int) : Int :=
  daysBefore (month + 1) + leapDay year (month + 1) - (daysBefore month + leapDay year month)

def daysBeforeYear (year : Int) : Int :=
  365 * (year - 1) + (year - 1) / 4 - (year - 1) / 100 + (year - 1) / 400

def unixDay (year : Int) (month : Nat) (day : Int) : Int :=
  daysBeforeYear year + daysBefore month + leapDay year month + (day - 1) - 719162

structure Instant where
  unix : Int
  nanos : Nat
  deriving DecidableEq

def digit (c : Char) : Option Nat :=
  if '0' ≤ c ∧ c ≤ '9' then some (c.toNat - '0'.toNat) else none

def getnum (fixed : Bool) : List Char → Option (Nat × List Char)
  | [] => none
  | c :: cs =>
    match digit c, cs with
    | none, _ => none
    | some n, [] => if fixed then none else some (n, [])
    | some n, d :: rest =>
      match digit d with
      | some m => some (n * 10 + m, rest)
      | none => if fixed then none else some (n, d :: rest)

def getYear : List Char → Option (Nat × List Char)
  | a :: b :: c :: d :: rest => do
    let a ← digit a
    let b ← digit b
    let c ← digit c
    let d ← digit d
    pure (((a * 10 + b) * 10 + c) * 10 + d, rest)
  | _ => none

def skip (expected : Char) : List Char → Option (List Char)
  | c :: cs => if c = expected then some cs else none
  | [] => none

def getBelow (bound : Nat) (fixed : Bool) (cs : List Char) : Option (Nat × List Char) := do
  let (n, cs) ← getnum fixed cs
  if n < bound then pure (n, cs) else none

def natOfDigits (ds : List Char) : Nat := ds.foldl (fun n c => n * 10 + (c.toNat - '0'.toNat)) 0

/-- The nanoseconds of a run of digits: nine are read, the rest dropped. -/
def parseNanoseconds (ds : List Char) : Nat :=
  natOfDigits (ds.take 9) * 10 ^ (9 - (ds.take 9).length)

def getFraction : List Char → Nat × List Char
  | c :: cs =>
    if (c = '.' ∨ c = ',') ∧ (cs.takeWhile Char.isDigit).length ≠ 0 then
      (parseNanoseconds (cs.takeWhile Char.isDigit), cs.dropWhile Char.isDigit)
    else (0, c :: cs)
  | [] => (0, [])

def getZone : List Char → Option (Int × List Char)
  | 'Z' :: rest => some (0, rest)
  | sign :: h₁ :: h₂ :: ':' :: m₁ :: m₂ :: rest => do
    let (hours, _) ← getnum true [h₁, h₂]
    let (minutes, _) ← getnum true [m₁, m₂]
    if hours > 24 ∨ minutes > 60 then none
    else if sign = '+' then pure (((hours * 60 + minutes) * 60 : Nat), rest)
    else if sign = '-' then pure (-((hours * 60 + minutes) * 60 : Nat), rest)
    else none
  | _ => none

def unixSeconds (year : Int) (month : Nat) (day : Int) (hour minute second : Nat) : Int :=
  unixDay year month day * 86400 + ((hour * 60 + minute) * 60 + second : Nat)

def parseRfc3339 (cs : List Char) : Option Instant := do
  let (year, cs) ← getYear cs
  let cs ← skip '-' cs
  let (month, cs) ← getnum true cs
  let cs ← skip '-' cs
  let (day, cs) ← getnum true cs
  let cs ← skip 'T' cs
  let (hour, cs) ← getBelow 24 false cs
  let cs ← skip ':' cs
  let (minute, cs) ← getBelow 60 true cs
  let cs ← skip ':' cs
  let (second, cs) ← getBelow 60 true cs
  let (nanos, cs) := getFraction cs
  let (offset, cs) ← getZone cs
  if cs.isEmpty ∧ 1 ≤ month ∧ month ≤ 12 ∧ 1 ≤ day ∧ day ≤ daysIn month year then
    pure ⟨unixSeconds year month day hour minute second - offset, nanos⟩
  else none

structure Date where
  year : Int
  month : Nat
  day : Int
  deriving DecidableEq

/-- Cycles of 400, 100 and 4 years and single years are taken off the days since 1 January of the
year 1, as `absDate` of Go's `time` does. The day of the year counts from 0. -/
def yearDay (day : Int) : Int × Int :=
  let d := day + 719162
  let n400 := d / 146097
  let d := d % 146097
  -- The last day of a cycle belongs to its fourth part.
  let n100 := min (d / 36524) 3
  let d := d - n100 * 36524
  let n4 := d / 1461
  let d := d % 1461
  let n1 := min (d / 365) 3
  (400 * n400 + 100 * n100 + 4 * n4 + n1 + 1, d - 365 * n1)

def daysBeforeMonth (year : Int) (month : Nat) : Int := daysBefore month + leapDay year month

def monthUpTo (year yday : Int) : Nat → Nat
  | 0 => 0
  | m + 1 => if daysBeforeMonth year (m + 1) ≤ yday then m + 1 else monthUpTo year yday m

def monthOf (year yday : Int) : Nat := monthUpTo year yday 12

def dateOf (day : Int) : Date :=
  let year := (yearDay day).1
  let yday := (yearDay day).2
  let month := monthOf year yday
  ⟨year, month, yday - daysBeforeMonth year month + 1⟩

def weekdayOf (day : Int) : Int := (day + 4) % 7

private theorem cycles {a b c e : Int} (hb : 0 ≤ b ∧ b ≤ 3) (hc : 0 ≤ c ∧ c ≤ 24)
    (he : 0 ≤ e ∧ e ≤ 3) :
    daysBeforeYear (400 * a + 100 * b + 4 * c + e + 1) =
        146097 * a + 36524 * b + 1461 * c + 365 * e ∧
      leapDay (400 * a + 100 * b + 4 * c + e + 1) 12 = if e = 3 ∧ (c ≠ 24 ∨ b = 3) then 1 else 0 := by
  have h4 : (400 * a + 100 * b + 4 * c + e) / 4 = 100 * a + 25 * b + c := by omega
  have h100 : (400 * a + 100 * b + 4 * c + e) / 100 = 4 * a + b := by omega
  have h400 : (400 * a + 100 * b + 4 * c + e) / 400 = a := by omega
  constructor
  · unfold daysBeforeYear
    rw [Int.add_sub_cancel, h4, h100, h400]
    omega
  · have hleap : isLeap (400 * a + 100 * b + 4 * c + e + 1) = true ↔ e = 3 ∧ (c ≠ 24 ∨ b = 3) := by
      unfold isLeap
      simp only [ne_eq, Bool.and_eq_true, Bool.or_eq_true, decide_eq_true_eq]
      omega
    unfold leapDay
    simp only [hleap, Nat.reduceLT, and_true]

theorem yearDay_spec (day : Int) :
    daysBeforeYear (yearDay day).1 + (yearDay day).2 - 719162 = day ∧ 0 ≤ (yearDay day).2 ∧
      (yearDay day).2 < 365 + leapDay (yearDay day).1 12 := by
  obtain ⟨hyear, hleap⟩ := @cycles ((day + 719162) / 146097)
    (min ((day + 719162) % 146097 / 36524) 3)
    (((day + 719162) % 146097 - min ((day + 719162) % 146097 / 36524) 3 * 36524) / 1461)
    (min (((day + 719162) % 146097 - min ((day + 719162) % 146097 / 36524) 3 * 36524) % 1461 / 365) 3)
    (by omega) (by omega) (by omega)
  unfold yearDay
  dsimp only
  rw [hyear, hleap]
  split <;> omega

private theorem monthUpTo_spec {year yday : Int} (h0 : 0 ≤ yday) (n : Nat)
    (h1 : yday < daysBeforeMonth year (n + 2)) :
    1 ≤ monthUpTo year yday (n + 1) ∧ monthUpTo year yday (n + 1) ≤ n + 1 ∧
      daysBeforeMonth year (monthUpTo year yday (n + 1)) ≤ yday ∧
      yday < daysBeforeMonth year (monthUpTo year yday (n + 1) + 1) := by
  induction n with
  | zero =>
    have hfirst : daysBeforeMonth year 1 ≤ yday := by
      simpa [daysBeforeMonth, daysBefore, leapDay] using h0
    rw [monthUpTo, if_pos hfirst]
    exact ⟨by omega, by omega, hfirst, h1⟩
  | succ n ih =>
    rw [monthUpTo]
    split
    · rename_i hle
      exact ⟨by omega, by omega, hle, h1⟩
    · rename_i hlt
      obtain ⟨hpos, hmax, hle, hlt⟩ := ih (Int.not_le.mp hlt)
      exact ⟨hpos, by omega, hle, hlt⟩

theorem monthOf_spec {year yday : Int} (h0 : 0 ≤ yday) (h1 : yday < 365 + leapDay year 12) :
    1 ≤ monthOf year yday ∧ monthOf year yday ≤ 12 ∧
      daysBeforeMonth year (monthOf year yday) ≤ yday ∧
      yday < daysBeforeMonth year (monthOf year yday + 1) := by
  have hyear : daysBeforeMonth year 13 = 365 + leapDay year 12 := by
    simp [daysBeforeMonth, daysBefore, leapDay]
  exact monthUpTo_spec h0 11 (hyear ▸ h1)

theorem dateOf_spec (day : Int) :
    unixDay (dateOf day).year (dateOf day).month (dateOf day).day = day ∧
      1 ≤ (dateOf day).month ∧ (dateOf day).month ≤ 12 ∧
      1 ≤ (dateOf day).day ∧ (dateOf day).day ≤ daysIn (dateOf day).month (dateOf day).year := by
  obtain ⟨hday, h0, h1⟩ := yearDay_spec day
  obtain ⟨hpos, hmax, hle, hlt⟩ := monthOf_spec h0 h1
  unfold dateOf
  dsimp only
  refine ⟨?_, hpos, hmax, by omega, ?_⟩
  · unfold unixDay
    unfold daysBeforeMonth at hle hlt ⊢
    omega
  · unfold daysIn
    unfold daysBeforeMonth at hle hlt ⊢
    omega

theorem daysIn_le {month : Nat} (h1 : 1 ≤ month) (h2 : month ≤ 12) (year : Int) :
    daysIn month year ≤ 31 := by
  unfold daysIn leapDay
  have hcases : month = 1 ∨ month = 2 ∨ month = 3 ∨ month = 4 ∨ month = 5 ∨ month = 6 ∨ month = 7 ∨
      month = 8 ∨ month = 9 ∨ month = 10 ∨ month = 11 ∨ month = 12 := by omega
  rcases hcases with rfl | rfl | rfl | rfl | rfl | rfl | rfl | rfl | rfl | rfl | rfl | rfl <;>
    cases isLeap year <;> decide

theorem daysIn_february (year : Int) : daysIn 2 year ≤ 29 := by
  unfold daysIn leapDay
  cases isLeap year <;> decide

theorem weekdayOf_range (day : Int) : 0 ≤ weekdayOf day ∧ weekdayOf day ≤ 6 := by
  unfold weekdayOf
  omega

example : dateOf 19782 = ⟨2024, 2, 29⟩ ∧ weekdayOf 19782 = 4 := by decide

end Memoark.Time
