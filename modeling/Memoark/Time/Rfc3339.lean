import Mathlib.Tactic.SplitIfs
import Memoark.Time.Calendar

/-! Instants as text: `Date.prototype.toISOString` and the JSON of a `google.protobuf.Timestamp`,
which `parseRfc3339` reads back. -/
namespace Memoark.Time

def fixedDigits : Nat → Nat → List Char
  | 0, _ => []
  | k + 1, n => fixedDigits k (n / 10) ++ [(n % 10).digitChar]

def isoSeconds (unix : Int) : List Char :=
  let date := dateOf (unix / 86400)
  let second := (unix % 86400).toNat
  fixedDigits 4 date.year.toNat ++ '-' :: fixedDigits 2 date.month ++ '-' ::
    fixedDigits 2 date.day.toNat ++ 'T' :: fixedDigits 2 (second / 3600) ++ ':' ::
    fixedDigits 2 (second / 60 % 60) ++ ':' :: fixedDigits 2 (second % 60)

def toISOString (ms : Int) : String :=
  String.ofList (isoSeconds (ms / 1000) ++ '.' :: fixedDigits 3 (ms % 1000).toNat ++ ['Z'])

def fraction (nanos : Nat) : List Char :=
  let digits := fixedDigits 9 nanos
  if nanos = 0 then []
  else if digits.drop 3 = List.replicate 6 '0' then '.' :: digits.take 3
  else if digits.drop 6 = List.replicate 3 '0' then '.' :: digits.take 6
  else '.' :: digits

def InYears (unix : Int) : Prop := -62135596800 ≤ unix ∧ unix ≤ 253402300799

instance (unix : Int) : Decidable (InYears unix) := inferInstanceAs (Decidable (_ ∧ _))

def timestampToJson (seconds nanos : Int) : Option String :=
  if InYears seconds ∧ 0 ≤ nanos then
    some (String.ofList (isoSeconds seconds ++ fraction nanos.toNat ++ ['Z']))
  else none

section digits

@[simp] theorem length_fixedDigits (k n : Nat) : (fixedDigits k n).length = k := by
  induction k generalizing n with
  | zero => rfl
  | succ k ih => simp [fixedDigits, ih]

theorem digit_digitChar {n : Nat} (h : n < 10) : digit n.digitChar = some n := by
  have hall : ∀ m : Fin 10, digit (Nat.digitChar m) = some m.val := by decide
  exact hall ⟨n, h⟩

theorem isDigit_digitChar {n : Nat} (h : n < 10) : n.digitChar.isDigit = true := by
  have hall : ∀ m : Fin 10, (Nat.digitChar m).isDigit = true := by decide
  exact hall ⟨n, h⟩

theorem value_digitChar {n : Nat} (h : n < 10) : n.digitChar.toNat - '0'.toNat = n := by
  have hall : ∀ m : Fin 10, (Nat.digitChar m).toNat - '0'.toNat = m.val := by decide
  exact hall ⟨n, h⟩

theorem isDigit_of_mem_fixedDigits {k n : Nat} {c : Char} (h : c ∈ fixedDigits k n) :
    c.isDigit = true := by
  induction k generalizing n with
  | zero => simp [fixedDigits] at h
  | succ k ih =>
    rcases List.mem_append.mp h with hinit | hlast
    · exact ih hinit
    · obtain rfl := List.mem_singleton.mp hlast
      exact isDigit_digitChar (Nat.mod_lt _ (by decide))

theorem natOfDigits_concat (ds : List Char) (c : Char) :
    natOfDigits (ds ++ [c]) = natOfDigits ds * 10 + (c.toNat - '0'.toNat) := by
  simp [natOfDigits, List.foldl_append]

theorem natOfDigits_zeros (ds : List Char) (k : Nat) :
    natOfDigits (ds ++ List.replicate k '0') = natOfDigits ds * 10 ^ k := by
  induction k with
  | zero => simp
  | succ k ih =>
    have hzero : '0'.toNat - '0'.toNat = 0 := rfl
    rw [List.replicate_succ', ← List.append_assoc, natOfDigits_concat, ih, hzero, Nat.pow_succ,
      Nat.mul_assoc, Nat.add_zero]

theorem natOfDigits_fixedDigits (k n : Nat) : natOfDigits (fixedDigits k n) = n % 10 ^ k := by
  induction k generalizing n with
  | zero => simp [fixedDigits, natOfDigits, Nat.mod_one]
  | succ k ih =>
    rw [fixedDigits, natOfDigits_concat, ih, value_digitChar (Nat.mod_lt _ (by decide)),
      Nat.pow_succ, Nat.mul_comm (10 ^ k), Nat.mod_mul]
    omega

theorem getnum_fixedDigits {n : Nat} (h : n < 100) (fixed : Bool) (rest : List Char) :
    getnum fixed (fixedDigits 2 n ++ rest) = some (n, rest) := by
  have htens := digit_digitChar (Nat.mod_lt (n / 10) (by decide : 0 < 10))
  have hones := digit_digitChar (Nat.mod_lt n (by decide : 0 < 10))
  show getnum fixed ((n / 10 % 10).digitChar :: (n % 10).digitChar :: rest) = some (n, rest)
  simp only [getnum, htens, hones, Option.some.injEq, Prod.mk.injEq, and_true]
  omega

theorem getBelow_fixedDigits {n bound : Nat} (h : n < bound) (hbound : bound ≤ 100) (fixed : Bool)
    (rest : List Char) : getBelow bound fixed (fixedDigits 2 n ++ rest) = some (n, rest) := by
  rw [getBelow, getnum_fixedDigits (by omega)]
  exact if_pos h

theorem getYear_fixedDigits {n : Nat} (h : n < 10000) (rest : List Char) :
    getYear (fixedDigits 4 n ++ rest) = some (n, rest) := by
  have h1 := digit_digitChar (Nat.mod_lt (n / 10 / 10 / 10) (by decide : 0 < 10))
  have h2 := digit_digitChar (Nat.mod_lt (n / 10 / 10) (by decide : 0 < 10))
  have h3 := digit_digitChar (Nat.mod_lt (n / 10) (by decide : 0 < 10))
  have h4 := digit_digitChar (Nat.mod_lt n (by decide : 0 < 10))
  show getYear ((n / 10 / 10 / 10 % 10).digitChar :: (n / 10 / 10 % 10).digitChar ::
    (n / 10 % 10).digitChar :: (n % 10).digitChar :: rest) = some (n, rest)
  simp only [getYear, h1, h2, h3, h4, Option.bind_eq_bind, Option.bind_some, Option.pure_def,
    Option.some.injEq, Prod.mk.injEq, and_true]
  omega

end digits

section fractions

theorem takeWhile_digits {ds : List Char} (h : ∀ c ∈ ds, c.isDigit = true) :
    (ds ++ ['Z']).takeWhile Char.isDigit = ds ∧ (ds ++ ['Z']).dropWhile Char.isDigit = ['Z'] := by
  constructor
  · rw [List.takeWhile_append_of_pos h]
    simp
  · rw [List.dropWhile_append_of_pos h]
    rfl

theorem getFraction_digits {ds : List Char} (h : ∀ c ∈ ds, c.isDigit = true) (hne : ds ≠ []) :
    getFraction ('.' :: ds ++ ['Z']) = (parseNanoseconds ds, ['Z']) := by
  obtain ⟨htake, hdrop⟩ := takeWhile_digits h
  have hsome : ds.length ≠ 0 := by simpa using hne
  rw [List.cons_append, getFraction, htake, hdrop]
  exact if_pos ⟨.inl rfl, hsome⟩

theorem parseNanoseconds_take {n k : Nat} (hk : k ≤ 9) (hn : n < 1000000000)
    (hzeros : (fixedDigits 9 n).drop k = List.replicate (9 - k) '0') :
    parseNanoseconds ((fixedDigits 9 n).take k) = n := by
  have hlength : ((fixedDigits 9 n).take k).length = k := by simp [hk]
  have hall : (fixedDigits 9 n).take k ++ List.replicate (9 - k) '0' = fixedDigits 9 n := by
    rw [← hzeros, List.take_append_drop]
  have hvalue := natOfDigits_zeros ((fixedDigits 9 n).take k) (9 - k)
  rw [hall, natOfDigits_fixedDigits, Nat.mod_eq_of_lt (by simpa using hn)] at hvalue
  rw [parseNanoseconds, List.take_of_length_le (by omega), hlength, ← hvalue]

theorem getFraction_fraction {n : Nat} (hn : n < 1000000000) :
    getFraction (fraction n ++ ['Z']) = (n, ['Z']) := by
  have hdigits : ∀ k, ∀ c ∈ (fixedDigits 9 n).take k, c.isDigit = true :=
    fun k c hc => isDigit_of_mem_fixedDigits (List.mem_of_mem_take hc)
  have hne : ∀ k, (fixedDigits 9 n).take (k + 1) ≠ [] := by
    intro k hnil
    have hlength := congrArg List.length hnil
    rw [List.length_take, length_fixedDigits] at hlength
    simp at hlength
  unfold fraction
  dsimp only
  split_ifs with hzero hmillis hmicros
  · rw [hzero]
    rfl
  · rw [getFraction_digits (hdigits 3) (hne 2), parseNanoseconds_take (by omega) hn hmillis]
  · rw [getFraction_digits (hdigits 6) (hne 5), parseNanoseconds_take (by omega) hn hmicros]
  · have hall : (fixedDigits 9 n).take 9 = fixedDigits 9 n :=
      List.take_of_length_le (by simp)
    have hparse := parseNanoseconds_take (n := n) (k := 9) (Nat.le_refl 9) hn
      (by rw [List.drop_of_length_le (by simp)]; rfl)
    have hread := getFraction_digits (hdigits 9) (hne 8)
    rw [hall] at hread hparse
    rw [hread, hparse]

end fractions

section instants

theorem parseRfc3339_isoSeconds {unix : Int} (hyear : 0 ≤ (dateOf (unix / 86400)).year ∧
    (dateOf (unix / 86400)).year < 10000) {tail : List Char} {nanos : Nat}
    (htail : getFraction tail = (nanos, ['Z'])) :
    parseRfc3339 (isoSeconds unix ++ tail) = some ⟨unix, nanos⟩ := by
  obtain ⟨hday, hmonth, hmonth', hfirst, hlast⟩ := dateOf_spec (unix / 86400)
  have hlast' := daysIn_le hmonth hmonth' (dateOf (unix / 86400)).year
  have hsecond : (unix % 86400).toNat < 86400 := by omega
  unfold isoSeconds
  generalize hdate : dateOf (unix / 86400) = date at *
  dsimp only
  simp only [List.append_assoc, List.cons_append]
  rw [parseRfc3339, getYear_fixedDigits (by omega)]
  simp only [Option.bind_eq_bind, Option.bind_some, skip, if_true]
  rw [getnum_fixedDigits (by omega)]
  simp only [Option.bind_some, if_true]
  rw [getnum_fixedDigits (by omega)]
  simp only [Option.bind_some, if_true]
  rw [getBelow_fixedDigits (by omega) (by omega)]
  simp only [Option.bind_some, if_true]
  rw [getBelow_fixedDigits (by omega) (by omega)]
  simp only [Option.bind_some, if_true]
  rw [getBelow_fixedDigits (by omega) (by omega)]
  simp only [Option.bind_some, htail, getZone]
  have hyear' : ((date.year.toNat : Nat) : Int) = date.year := Int.toNat_of_nonneg hyear.1
  have hday' : ((date.day.toNat : Nat) : Int) = date.day := Int.toNat_of_nonneg (by omega)
  have hvalid : List.isEmpty ([] : List Char) = true ∧ 1 ≤ date.month ∧ date.month ≤ 12 ∧
      1 ≤ date.day.toNat ∧ (date.day.toNat : Int) ≤ daysIn date.month date.year.toNat := by
    rw [hyear', hday']
    exact ⟨rfl, hmonth, hmonth', by omega, hlast⟩
  rw [if_pos hvalid]
  simp only [Option.pure_def, Option.some.injEq, Instant.mk.injEq, and_true]
  rw [unixSeconds, hyear', hday', hday]
  omega

theorem year_of_inYears {unix : Int} (h : InYears unix) :
    1 ≤ (dateOf (unix / 86400)).year ∧ (dateOf (unix / 86400)).year ≤ 9999 := by
  obtain ⟨hmin, hmax⟩ := h
  have hday : 0 ≤ unix / 86400 + 719162 ∧ unix / 86400 + 719162 ≤ 3652058 := by omega
  show 1 ≤ (yearDay (unix / 86400)).1 ∧ (yearDay (unix / 86400)).1 ≤ 9999
  unfold yearDay
  dsimp only
  generalize unix / 86400 + 719162 = day at *
  omega

theorem parseRfc3339_timestampToJson {seconds nanos : Int} {text : String}
    (h : timestampToJson seconds nanos = some text) (hnanos : nanos < 1000000000) :
    parseRfc3339 text.toList = some ⟨seconds, nanos.toNat⟩ := by
  unfold timestampToJson at h
  split at h
  · rename_i hvalid
    obtain ⟨hyears, hpos⟩ := hvalid
    have hyear := year_of_inYears hyears
    cases h
    rw [String.toList_ofList, List.append_assoc]
    exact parseRfc3339_isoSeconds (by omega) (getFraction_fraction (by omega))
  · cases h

/-- The time of a `Date` is read back to the millisecond. -/
theorem parseRfc3339_toISOString {ms : Int} (h : InYears (ms / 1000)) :
    parseRfc3339 (toISOString ms).toList =
      some ⟨ms / 1000, (ms % 1000).toNat * 1000000⟩ := by
  have hyear := year_of_inYears h
  have hmillis : (ms % 1000).toNat < 1000 := by omega
  have hfraction : getFraction ('.' :: fixedDigits 3 (ms % 1000).toNat ++ ['Z']) =
      ((ms % 1000).toNat * 1000000, ['Z']) := by
    rw [getFraction_digits (fun c hc => isDigit_of_mem_fixedDigits hc) (by simp [fixedDigits]),
      parseNanoseconds, List.take_of_length_le (by simp), length_fixedDigits,
      natOfDigits_fixedDigits, Nat.mod_eq_of_lt (by simpa using hmillis)]
    rfl
  rw [toISOString, String.toList_ofList, List.append_assoc]
  exact parseRfc3339_isoSeconds (by omega) hfraction

example : toISOString 1709211845007 = "2024-02-29T13:04:05.007Z" := by decide

end instants

end Memoark.Time
