import Mathlib.Data.List.Nodup
import Mathlib.Tactic.SplitIfs
import Memoark.Js.JsonText

/-! `JSON.parse` reads back what `JSON.stringify` writes, and its fuel is enough for every text. -/
namespace Memoark.Js

section strings

variable {u : UInt16} {rest : Units}

theorem hexValue_hexDigit {n : Nat} (h : n < 16) : hexValue (hexDigit n) = some n := by
  have hall : ∀ m < 16, hexValue (hexDigit m) = some m := by decide
  exact hall n h

theorem hexUnit_escaped (u : UInt16) :
    hexUnit (hexDigit (u.toNat / 4096)) (hexDigit (u.toNat / 256 % 16))
      (hexDigit (u.toNat / 16 % 16)) (hexDigit (u.toNat % 16)) = some u := by
  have hlt : u.toNat < 65536 := u.toNat_lt
  have hnumber : ((u.toNat / 4096 * 16 + u.toNat / 256 % 16) * 16 + u.toNat / 16 % 16) * 16 +
      u.toNat % 16 = u.toNat := by omega
  rw [hexUnit, hexValue_hexDigit (by omega), hexValue_hexDigit (by omega),
    hexValue_hexDigit (by omega), hexValue_hexDigit (by omega)]
  show some (UInt16.ofNat _) = some u
  rw [hnumber, UInt16.ofNat_toNat]

theorem scanString_plain (hquote : u ≠ ascii '"') (hslash : u ≠ ascii '\\') (h : 32 ≤ u.toNat) :
    scanString (u :: rest) = push (some u) (scanString rest) := by
  rw [scanString.eq_def]
  dsimp only
  rw [if_neg hquote, if_neg hslash, plain, if_neg (by omega)]

theorem scanString_escape {e : UInt16} (he : e ≠ ascii 'u') :
    scanString (ascii '\\' :: e :: rest) = push (unescape e) (scanString rest) := by
  have hquote : ascii '\\' ≠ ascii '"' := by decide
  rw [scanString.eq_def]
  dsimp only
  rw [if_neg hquote, if_pos rfl, if_neg he]

theorem scanString_unicode (u : UInt16) (rest : Units) :
    scanString (escapedUnit u ++ rest) = push (some u) (scanString rest) := by
  have hquote : ascii '\\' ≠ ascii '"' := by decide
  show scanString (ascii '\\' :: ascii 'u' :: _ :: _ :: _ :: _ :: rest) = _
  rw [scanString.eq_def]
  dsimp only
  rw [if_neg hquote, if_pos rfl, if_pos rfl, hexUnit_escaped]

theorem scanString_quoteUnit (u : UInt16) (rest : Units) :
    scanString (quoteUnit u ++ rest) = push (some u) (scanString rest) := by
  unfold quoteUnit
  split_ifs with hb ht hn hf hr hself hcontrol
  · rw [hb]
    exact scanString_escape (by decide)
  · rw [ht]
    exact scanString_escape (by decide)
  · rw [hn]
    exact scanString_escape (by decide)
  · rw [hf]
    exact scanString_escape (by decide)
  · rw [hr]
    exact scanString_escape (by decide)
  · rcases hself with rfl | rfl
    · exact scanString_escape (by decide)
    · exact scanString_escape (by decide)
  · exact scanString_unicode u rest
  · obtain ⟨hquote, hslash⟩ := not_or.mp hself
    exact scanString_plain hquote hslash (Nat.not_lt.mp (not_or.mp hcontrol).1)

theorem scanString_surrogate (h : isHighSurrogate u ∨ isLowSurrogate u) (rest : Units) :
    scanString (u :: rest) = push (some u) (scanString rest) := by
  have hlarge : 0xD800 ≤ u.toNat := by
    simp only [isHighSurrogate, isLowSurrogate, Bool.and_eq_true, decide_eq_true_eq] at h
    omega
  refine scanString_plain ?_ ?_ (by omega)
  · rintro rfl
    exact absurd hlarge (by decide)
  · rintro rfl
    exact absurd hlarge (by decide)

theorem scanString_quoteUnits (s rest : Units) :
    scanString (quoteUnits s ++ ascii '"' :: rest) = some (s, rest) := by
  have hclose : scanString (ascii '"' :: rest) = some ([], rest) := by
    rw [scanString.eq_def]
    exact if_pos rfl
  induction s using quoteUnits.induct with
  | case1 => exact hclose
  | case2 u =>
    rw [quoteUnits, scanString_quoteUnit, hclose]
    rfl
  | case3 u v us hpair ih =>
    rw [quoteUnits, if_pos hpair]
    show scanString (u :: v :: (quoteUnits us ++ ascii '"' :: rest)) = _
    rw [scanString_surrogate (.inl hpair.1), scanString_surrogate (.inr hpair.2), ih]
    rfl
  | case4 u v us hpair ih =>
    rw [quoteUnits, if_neg hpair, List.append_assoc, scanString_quoteUnit, ih]
    rfl

end strings

section objects

variable {fuel : Nat} {rest : Units}

theorem skipSpace_cons {u : UInt16} (h : isJsonSpace u = false) (us : Units) :
    skipSpace (u :: us) = u :: us := by
  rw [skipSpace, List.dropWhile_cons, h]
  rfl

theorem skipToken_self {c : Char} (h : isJsonSpace (ascii c) = false) (us : Units) :
    skipToken c (ascii c :: us) = some us := by
  rw [skipToken, skipSpace_cons h]
  exact if_pos rfl

theorem skipToken_other {c : Char} {u : UInt16} (h : isJsonSpace u = false) (hne : u ≠ ascii c)
    (us : Units) : skipToken c (u :: us) = none := by
  rw [skipToken, skipSpace_cons h]
  exact if_neg hne

/-- What follows a member: a comma or the closing brace. -/
def Stops (u : UInt16) : Prop := u = ascii ',' ∨ u = ascii '\x7d'

theorem toDouble_digit (n : Fin 10) :
    toDouble (scaled (digitsValue [UInt16.ofNat (48 + n)]) 0) = .finite n := by
  have hall : ∀ m : Fin 10,
      toDouble (scaled (digitsValue [UInt16.ofNat (48 + m)]) 0) = .finite m := by decide
  exact hall n

theorem scanNumber_digit (n : Fin 10) {stop : UInt16} (hstop : Stops stop) :
    scanNumber (UInt16.ofNat (48 + n) :: stop :: rest) = some (.finite n, stop :: rest) := by
  have hdigit : ∀ m : Fin 10, UInt16.ofNat (48 + m) ≠ ascii '-' ∧
      isDigit (UInt16.ofNat (48 + m)) = true := by decide
  have hend : isDigit stop = false ∧ stop ≠ ascii '.' ∧ ¬(stop = ascii 'e' ∨ stop = ascii 'E') := by
    rcases hstop with rfl | rfl <;> decide
  obtain ⟨hminus, hdigit⟩ := hdigit n
  obtain ⟨hstop, hdot, hexp⟩ := hend
  have hint : scanInt (UInt16.ofNat (48 + n) :: stop :: rest) =
      some ([UInt16.ofNat (48 + n)], stop :: rest) := by
    have hdigits : scanDigits (stop :: rest) = ([], stop :: rest) := by
      rw [scanDigits, List.takeWhile_cons, List.dropWhile_cons, hstop]
      rfl
    rw [scanInt, hdigit, hdigits]
    split <;> rfl
  have hfrac : scanFrac (stop :: rest) = some ([], stop :: rest) := if_neg hdot
  have hexp : scanExp (stop :: rest) = some (0, stop :: rest) := if_neg hexp
  have hsign : scanMinus (UInt16.ofNat (48 + n) :: stop :: rest) =
      (false, UInt16.ofNat (48 + n) :: stop :: rest) := if_neg hminus
  rw [scanNumber, hsign]
  simp only [hint, hfrac, hexp, Option.bind_eq_bind, Option.bind_some]
  exact congrArg (fun x => some (x, stop :: rest)) (toDouble_digit n)

theorem scanScalar_digit (n : Fin 10) {stop : UInt16} (hstop : Stops stop) :
    scanScalar (UInt16.ofNat (48 + n) :: stop :: rest) =
      some (.num (.finite n), stop :: rest) := by
  have hletter : ∀ m : Fin 10, UInt16.ofNat (48 + m) ≠ ascii 'n' ∧
      UInt16.ofNat (48 + m) ≠ ascii 't' ∧ UInt16.ofNat (48 + m) ≠ ascii 'f' := by decide
  have hprefix : ∀ (c : UInt16) (cs : Units), UInt16.ofNat (48 + n) ≠ c →
      ¬(c :: cs).isPrefixOf (UInt16.ofNat (48 + n) :: stop :: rest) = true := by
    intro c cs hne hprefix
    rw [List.isPrefixOf_cons_cons, Bool.and_eq_true, beq_iff_eq] at hprefix
    exact hne hprefix.1.symm
  obtain ⟨hn, ht, hf⟩ := hletter n
  have hnull : ¬(utf16 "null").isPrefixOf (UInt16.ofNat (48 + n) :: stop :: rest) = true :=
    hprefix _ (utf16 "ull") hn
  have htrue : ¬(utf16 "true").isPrefixOf (UInt16.ofNat (48 + n) :: stop :: rest) = true :=
    hprefix _ (utf16 "rue") ht
  have hfalse : ¬(utf16 "false").isPrefixOf (UInt16.ofNat (48 + n) :: stop :: rest) = true :=
    hprefix _ (utf16 "alse") hf
  rw [scanScalar, if_neg hnull, if_neg htrue, if_neg hfalse, scanNumber_digit n hstop]
  rfl

theorem parseValue_text (value : Scalar) {stop : UInt16} (hstop : Stops stop) :
    parseValue (fuel + 1) (value.text ++ stop :: rest) = some (value.value, stop :: rest) := by
  cases value with
  | bool b => cases b <;> rfl
  | digit n =>
    have hstart : ∀ m : Fin 10, isJsonSpace (UInt16.ofNat (48 + m)) = false ∧
        UInt16.ofNat (48 + m) ≠ ascii '"' ∧ UInt16.ofNat (48 + m) ≠ ascii '[' ∧
        UInt16.ofNat (48 + m) ≠ ascii '\x7b' := by decide
    obtain ⟨hspace, hquote, hbracket, hbrace⟩ := hstart n
    show parseValue (fuel + 1) (UInt16.ofNat (48 + n) :: stop :: rest) = _
    rw [parseValue, skipSpace_cons hspace]
    dsimp only
    rw [if_neg hquote, if_neg hbracket, if_neg hbrace, scanScalar_digit n hstop]
    rfl
  | str s =>
    show parseValue (fuel + 1) (ascii '"' :: (quoteUnits s ++ [ascii '"'] ++ stop :: rest)) = _
    rw [parseValue, skipSpace_cons (by decide), List.append_assoc]
    dsimp only
    rw [if_pos rfl, List.singleton_append, scanString_quoteUnits]
    rfl

theorem scanKey_quote (key rest : Units) :
    scanKey (quoteJSONString key ++ ascii ':' :: rest) = some (key, rest) := by
  have hopen : skipToken '"' (quoteJSONString key ++ ascii ':' :: rest) =
      some (quoteUnits key ++ ascii '"' :: ascii ':' :: rest) := by
    rw [quoteJSONString]
    simp only [List.cons_append, List.append_assoc, List.nil_append]
    exact skipToken_self (by decide) _
  have hcolon : skipToken ':' (ascii ':' :: rest) = some rest := skipToken_self (by decide) _
  rw [scanKey, hopen]
  simp only [Option.bind_eq_bind, Option.bind_some, scanString_quoteUnits, hcolon]
  rfl

theorem parseMembers_member (member : Units × Scalar) {stop : UInt16} (hstop : Stops stop) :
    parseMembers (fuel + 2) (memberText member ++ stop :: rest) =
      match skipToken ',' (stop :: rest) with
      | some rest =>
        (parseMembers (fuel + 1) rest).map fun (ms, rest) =>
          ((member.1, member.2.value) :: ms, rest)
      | none =>
        (skipToken '\x7d' (stop :: rest)).map fun rest => ([(member.1, member.2.value)], rest) := by
  have htext : memberText member ++ stop :: rest =
      quoteJSONString member.1 ++ ascii ':' :: (member.2.text ++ stop :: rest) := by
    rw [memberText, List.append_assoc, List.cons_append]
  have hvalue := @parseValue_text fuel rest member.2 stop hstop
  rw [htext, parseMembers, scanKey_quote]
  dsimp only
  split
  · rename_i hnone
    rw [hvalue] at hnone
    cases hnone
  · rename_i hsome
    rw [hvalue] at hsome
    cases hsome
    rfl

theorem parseMembers_text (member : Units × Scalar) (members : List (Units × Scalar))
    (hfuel : members.length + 2 ≤ fuel) :
    parseMembers fuel (membersText (member :: members) ++ rest) =
      some ((member :: members).map fun m => (m.1, m.2.value), rest) := by
  induction members generalizing member fuel with
  | nil =>
    obtain ⟨fuel, rfl⟩ := Nat.exists_eq_add_of_le' hfuel
    have hclose : skipToken '\x7d' (ascii '\x7d' :: rest) = some rest := skipToken_self (by decide) _
    have hcomma : skipToken ',' (ascii '\x7d' :: rest) = none :=
      skipToken_other (by decide) (by decide) _
    rw [membersText, List.append_assoc, List.singleton_append]
    refine (parseMembers_member member (.inr rfl)).trans ?_
    rw [hcomma, hclose]
    rfl
  | cons next members ih =>
    obtain ⟨fuel, rfl⟩ := Nat.exists_eq_add_of_le' (Nat.le_trans (Nat.le_add_left 2 _) hfuel)
    have hcomma : ∀ us, skipToken ',' (ascii ',' :: us) = some us :=
      fun us => skipToken_self (by decide) us
    have htext : membersText (member :: next :: members) =
        memberText member ++ ascii ',' :: membersText (next :: members) := rfl
    rw [htext, List.append_assoc, List.cons_append, parseMembers_member member (.inl rfl), hcomma]
    dsimp only
    rw [ih next (by simpa using hfuel)]
    rfl

theorem length_le_membersText (members : List (Units × Scalar)) :
    members.length + 1 ≤ (membersText members).length := by
  induction members using membersText.induct with
  | case1 => exact Nat.le_refl 1
  | case2 member =>
    rw [membersText, memberText]
    simp only [List.length_append, List.length_cons]
    omega
  | case3 member members hne ih =>
    rw [membersText]
    · simp only [List.length_append, List.length_cons]
      omega
    · exact hne

theorem jsonParse_stringifyObject (members : List (Units × Option Scalar)) :
    jsonParse (stringifyObject members) =
      some (.obj (members.filterMap fun (key, value) => value.map fun v => (key, v.value))) := by
  have hdefined : members.filterMap (fun (key, value) => value.map fun v => (key, v.value)) =
      (members.filterMap fun (key, value) => value.map (key, ·)).map fun m => (m.1, m.2.value) := by
    rw [List.map_filterMap]
    congr 1
    funext ⟨key, value⟩
    cases value <;> rfl
  rw [hdefined]
  unfold stringifyObject jsonParse
  generalize members.filterMap (fun (key, value) => value.map (key, ·)) = defined
  have hlength := length_le_membersText defined
  obtain ⟨fuel, hfuel⟩ : ∃ fuel, 2 * (ascii '\x7b' :: membersText defined).length + 1 = fuel + 1 ∧
      defined.length + 2 ≤ fuel := ⟨_, rfl, by rw [List.length_cons]; omega⟩
  have hvalue : parseValue (fuel + 1) (ascii '\x7b' :: membersText defined) =
      some (.obj (defined.map fun m => (m.1, m.2.value)), []) := by
    rw [parseValue, skipSpace_cons (by decide)]
    dsimp only
    rw [if_neg (by decide), if_neg (by decide), if_pos rfl]
    cases defined with
    | nil =>
      have hclose : skipToken '\x7d' (membersText []) = some [] := skipToken_self (by decide) _
      rw [hclose]
      rfl
    | cons member members =>
      have hopen : skipToken '\x7d' (membersText (member :: members)) = none := by
        cases members with
        | nil => exact skipToken_other (by decide) (by decide) _
        | cons next members => exact skipToken_other (by decide) (by decide) _
      have hmembers : parseMembers fuel (membersText (member :: members) ++ []) =
          some ((member :: members).map fun m => (m.1, m.2.value), []) :=
        parseMembers_text member members (Nat.le_of_succ_le hfuel.2)
      rw [List.append_nil] at hmembers
      rw [hopen, hmembers]
      rfl
  rw [hfuel.1, hvalue]
  rfl

theorem lookup_defined {members : List (Units × Option Scalar)}
    (hnodup : (members.map (·.1)).Nodup) {key : Units} {value : Option Scalar}
    (h : (key, value) ∈ members) :
    lookup key (members.filterMap fun (key, value) => value.map fun v => (key, v.value)) =
      value.map (·.value) := by
  have honly : ∀ member ∈ members.filterMap (fun (key, value) => value.map fun v => (key, v.value)),
      member.1 = key → some member.2 = value.map (·.value) := by
    intro member hmember hkey
    obtain ⟨⟨key', value'⟩, hmem, hvalue⟩ := List.mem_filterMap.mp hmember
    obtain ⟨v, rfl, rfl⟩ := Option.map_eq_some_iff.mp hvalue
    have hsame : (key', some v) = (key, value) :=
      List.inj_on_of_nodup_map hnodup hmem h hkey
    obtain ⟨rfl, rfl⟩ := Prod.mk.inj hsame
    rfl
  rw [lookup]
  cases hfind : (members.filterMap fun (key, value) =>
      value.map fun v => (key, v.value)).reverse.find? (·.1 = key) with
  | some member =>
    have hmem := List.mem_reverse.mp (List.mem_of_find?_eq_some hfind)
    exact honly member hmem (by simpa using List.find?_some hfind)
  | none =>
    cases value with
    | none => rfl
    | some v =>
      have hdefined : (key, v.value) ∈
          members.filterMap fun (key, value) => value.map fun v => (key, v.value) :=
        List.mem_filterMap.mpr ⟨_, h, rfl⟩
      have hne := List.find?_eq_none.mp hfind _ (List.mem_reverse.mpr hdefined)
      simp at hne

end objects

end Memoark.Js
