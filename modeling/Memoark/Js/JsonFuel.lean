import Memoark.Js.JsonText

/-! The fuel of `JSON.parse` never runs out: every scanner shortens the text, and more fuel than
the text has room for changes nothing. -/
namespace Memoark.Js

section lengths

variable {us rest : Units}

theorem length_skipSpace_le (us : Units) : (skipSpace us).length ≤ us.length :=
  (List.dropWhile_sublist _).length_le

theorem length_skipToken_lt {c : Char} (h : skipToken c us = some rest) :
    rest.length < us.length := by
  have hle := length_skipSpace_le us
  unfold skipToken at h
  split at h
  · cases h
  · rename_i hspace
    split at h
    · cases h
      rw [hspace] at hle
      exact hle
    · cases h

theorem push_eq_some {u : Option UInt16} {scanned : Option (Units × Units)} {s : Units}
    (h : push u scanned = some (s, rest)) : ∃ t, scanned = some (t, rest) := by
  unfold push at h
  split at h
  · cases h
    exact ⟨_, rfl⟩
  · cases h

theorem length_scanString_lt {s : Units} (h : scanString us = some (s, rest)) :
    rest.length < us.length := by
  induction us using scanString.induct generalizing s with
  | case1 => cases h
  | case2 us =>
    rw [scanString.eq_def] at h
    dsimp only at h
    rw [if_pos rfl] at h
    cases h
    exact Nat.lt_succ_self _
  | case3 hquote =>
    rw [scanString.eq_def] at h
    dsimp only at h
    rw [if_neg hquote, if_pos rfl] at h
    cases h
  | case4 a b c d us hquote ih =>
    rw [scanString.eq_def] at h
    dsimp only at h
    rw [if_neg hquote, if_pos rfl, if_pos rfl] at h
    obtain ⟨t, ht⟩ := push_eq_some h
    have hlt := ih ht
    simp only [List.length_cons]
    omega
  | case5 us hshort hquote =>
    rw [scanString.eq_def] at h
    dsimp only at h
    rw [if_neg hquote, if_pos rfl, if_pos rfl] at h
    split at h
    · rename_i a b c d us
      exact (hshort a b c d us rfl).elim
    · cases h
  | case6 e us he hquote ih =>
    rw [scanString.eq_def] at h
    dsimp only at h
    rw [if_neg hquote, if_pos rfl, if_neg he] at h
    obtain ⟨t, ht⟩ := push_eq_some h
    have hlt := ih ht
    simp only [List.length_cons]
    omega
  | case7 u us hquote hslash ih =>
    rw [scanString.eq_def] at h
    dsimp only at h
    rw [if_neg hquote, if_neg hslash] at h
    obtain ⟨t, ht⟩ := push_eq_some h
    have hlt := ih ht
    simp only [List.length_cons]
    omega

theorem length_scanDigits_le (us : Units) : (scanDigits us).2.length ≤ us.length :=
  (List.dropWhile_sublist _).length_le

theorem length_scanDigits1_le {digits : Units} (h : scanDigits1 us = some (digits, rest)) :
    rest.length ≤ us.length := by
  have hle := length_scanDigits_le us
  unfold scanDigits1 at h
  split at h
  · cases h
  · obtain heq := Option.some.inj h
    rw [heq] at hle
    exact hle

theorem length_scanInt_lt {digits : Units} (h : scanInt us = some (digits, rest)) :
    rest.length < us.length := by
  unfold scanInt at h
  split at h
  · cases h
  · rename_i u us
    have hle := length_scanDigits_le us
    rw [List.length_cons]
    split at h
    · cases h
      omega
    · split at h
      · cases h
        omega
      · cases h

theorem length_scanFrac_le {digits : Units} (h : scanFrac us = some (digits, rest)) :
    rest.length ≤ us.length := by
  unfold scanFrac at h
  split at h
  · cases h
    exact Nat.le_refl _
  · split at h
    · have hle := length_scanDigits1_le h
      rw [List.length_cons]
      omega
    · cases h
      exact Nat.le_refl _

theorem length_scanSign_le (us : Units) : (scanSign us).2.length ≤ us.length := by
  unfold scanSign
  split
  · exact Nat.le_refl _
  · split
    · exact Nat.le_succ _
    · split
      · exact Nat.le_succ _
      · exact Nat.le_refl _

theorem length_scanExp_le {exp : Int} (h : scanExp us = some (exp, rest)) :
    rest.length ≤ us.length := by
  unfold scanExp at h
  split at h
  · cases h
    exact Nat.le_refl _
  · rename_i u us
    split at h
    · obtain ⟨⟨digits, rest'⟩, hdigits, heq⟩ := Option.map_eq_some_iff.mp h
      cases heq
      have hle := length_scanDigits1_le hdigits
      have hsign := length_scanSign_le us
      rw [List.length_cons]
      omega
    · cases h
      exact Nat.le_refl _

theorem length_scanMinus_le (us : Units) : (scanMinus us).2.length ≤ us.length := by
  unfold scanMinus
  split
  · exact Nat.le_refl _
  · split
    · exact Nat.le_succ _
    · exact Nat.le_refl _

theorem length_scanNumber_lt {x : Number} (h : scanNumber us = some (x, rest)) :
    rest.length < us.length := by
  simp only [scanNumber, Option.bind_eq_bind, Option.bind_eq_some_iff] at h
  obtain ⟨⟨int, us₁⟩, hint, ⟨frac, us₂⟩, hfrac, ⟨exp, us₃⟩, hexp, heq⟩ := h
  cases heq
  have hminus := length_scanMinus_le us
  have h₁ := length_scanInt_lt hint
  have h₂ := length_scanFrac_le hfrac
  have h₃ := length_scanExp_le hexp
  dsimp only at h₂ h₃ ⊢
  omega

theorem length_scanScalar_lt {v : JsonValue} (hne : us ≠ []) (h : scanScalar us = some (v, rest)) :
    rest.length < us.length := by
  have hpos := List.length_pos_iff.mpr hne
  have hdrop : ∀ n, 0 < n → (us.drop n).length < us.length := by
    intro n hn
    rw [List.length_drop]
    omega
  unfold scanScalar at h
  split at h
  · cases h
    exact hdrop 4 (by omega)
  · split at h
    · cases h
      exact hdrop 4 (by omega)
    · split at h
      · cases h
        exact hdrop 5 (by omega)
      · obtain ⟨⟨x, rest'⟩, hnumber, heq⟩ := Option.map_eq_some_iff.mp h
        cases heq
        exact length_scanNumber_lt hnumber

theorem length_scanKey_lt {key : Units} (h : scanKey us = some (key, rest)) :
    rest.length < us.length := by
  simp only [scanKey, Option.bind_eq_bind, Option.bind_eq_some_iff] at h
  obtain ⟨us₁, hopen, ⟨key', us₂⟩, hstring, us₃, hcolon, heq⟩ := h
  cases heq
  have h₁ := length_skipToken_lt hopen
  have h₂ := length_scanString_lt hstring
  have h₃ := length_skipToken_lt hcolon
  dsimp only at h₃
  omega

end lengths

section fuel

theorem parse_lengths (fuel : Nat) :
    (∀ us v rest, parseValue fuel us = some (v, rest) → rest.length < us.length) ∧
    (∀ us vs rest, parseItems fuel us = some (vs, rest) → rest.length < us.length) ∧
    ∀ us ms rest, parseMembers fuel us = some (ms, rest) → rest.length < us.length := by
  induction fuel with
  | zero => exact ⟨nofun, nofun, nofun⟩
  | succ fuel ih =>
    obtain ⟨hvalue, hitems, hmembers⟩ := ih
    refine ⟨?_, ?_, ?_⟩
    · intro us v rest h
      have hspace := length_skipSpace_le us
      rw [parseValue] at h
      split at h
      · cases h
      · rename_i u us' heq
        rw [heq, List.length_cons] at hspace
        split at h
        · obtain ⟨⟨s, rest'⟩, hstring, hval⟩ := Option.map_eq_some_iff.mp h
          cases hval
          have hlt := length_scanString_lt hstring
          omega
        · split at h
          · split at h
            · rename_i hclose
              cases h
              have hlt := length_skipToken_lt hclose
              omega
            · obtain ⟨⟨vs, rest'⟩, hvs, hval⟩ := Option.map_eq_some_iff.mp h
              cases hval
              have hlt := hitems _ _ _ hvs
              omega
          · split at h
            · split at h
              · rename_i hclose
                cases h
                have hlt := length_skipToken_lt hclose
                omega
              · obtain ⟨⟨ms, rest'⟩, hms, hval⟩ := Option.map_eq_some_iff.mp h
                cases hval
                have hlt := hmembers _ _ _ hms
                omega
            · have hlt := length_scanScalar_lt (List.cons_ne_nil u us') h
              rw [List.length_cons] at hlt
              omega
    · intro us vs rest h
      rw [parseItems] at h
      split at h
      · cases h
      · rename_i v rest₁ hv
        have hlt := hvalue _ _ _ hv
        split at h
        · rename_i rest₂ hcomma
          obtain ⟨⟨vs', rest'⟩, hvs, heq⟩ := Option.map_eq_some_iff.mp h
          cases heq
          have hlt₁ := length_skipToken_lt hcomma
          have hlt₂ := hitems _ _ _ hvs
          omega
        · obtain ⟨rest', hclose, heq⟩ := Option.map_eq_some_iff.mp h
          cases heq
          have hlt₁ := length_skipToken_lt hclose
          omega
    · intro us ms rest h
      rw [parseMembers] at h
      split at h
      · cases h
      · rename_i key rest₀ hkey
        have hlt₀ := length_scanKey_lt hkey
        split at h
        · cases h
        · rename_i v rest₁ hv
          have hlt := hvalue _ _ _ hv
          split at h
          · rename_i rest₂ hcomma
            obtain ⟨⟨ms', rest'⟩, hms, heq⟩ := Option.map_eq_some_iff.mp h
            cases heq
            have hlt₁ := length_skipToken_lt hcomma
            have hlt₂ := hmembers _ _ _ hms
            omega
          · obtain ⟨rest', hclose, heq⟩ := Option.map_eq_some_iff.mp h
            cases heq
            have hlt₁ := length_skipToken_lt hclose
            omega

/-- With enough fuel for the text, one unit more gives the same result. -/
theorem parse_succ (fuel : Nat) :
    (∀ us, 2 * us.length + 1 ≤ fuel → parseValue (fuel + 1) us = parseValue fuel us) ∧
    (∀ us, 2 * us.length + 2 ≤ fuel → parseItems (fuel + 1) us = parseItems fuel us) ∧
    ∀ us, 2 * us.length + 2 ≤ fuel → parseMembers (fuel + 1) us = parseMembers fuel us := by
  induction fuel with
  | zero =>
    refine ⟨?_, ?_, ?_⟩
    all_goals
      intro us hus
      omega
  | succ fuel ih =>
    obtain ⟨hvalue, hitems, hmembers⟩ := ih
    refine ⟨?_, ?_, ?_⟩
    · intro us hus
      have hspace := length_skipSpace_le us
      rw [parseValue, parseValue]
      cases heq : skipSpace us with
      | nil => rfl
      | cons u us' =>
        rw [heq, List.length_cons] at hspace
        dsimp only
        rw [hitems us' (by omega), hmembers us' (by omega)]
    · intro us hus
      rw [parseItems, parseItems, hvalue us (by omega)]
      cases hv : parseValue fuel us with
      | none => rfl
      | some parsed =>
        obtain ⟨v, rest⟩ := parsed
        have hlt := (parse_lengths fuel).1 _ _ _ hv
        dsimp only
        cases hcomma : skipToken ',' rest with
        | none => rfl
        | some rest' =>
          have hlt' := length_skipToken_lt hcomma
          dsimp only
          rw [hitems rest' (by omega)]
    · intro us hus
      rw [parseMembers, parseMembers]
      cases hkey : scanKey us with
      | none => rfl
      | some scanned =>
        obtain ⟨key, rest⟩ := scanned
        have hlt₀ := length_scanKey_lt hkey
        dsimp only
        rw [hvalue rest (by omega)]
        cases hv : parseValue fuel rest with
        | none => rfl
        | some parsed =>
          obtain ⟨v, rest₁⟩ := parsed
          have hlt := (parse_lengths fuel).1 _ _ _ hv
          dsimp only
          cases hcomma : skipToken ',' rest₁ with
          | none => rfl
          | some rest₂ =>
            have hlt' := length_skipToken_lt hcomma
            dsimp only
            rw [hmembers rest₂ (by omega)]

theorem parseValue_fuel {us : Units} {fuel : Nat} (h : 2 * us.length + 1 ≤ fuel) :
    parseValue fuel us = parseValue (2 * us.length + 1) us := by
  obtain ⟨more, rfl⟩ := Nat.exists_eq_add_of_le h
  clear h
  induction more with
  | zero => rfl
  | succ more ih =>
    rw [← ih]
    exact (parse_succ _).1 us (Nat.le_add_right _ _)

theorem jsonParse_eq_some_iff {us : Units} {v : JsonValue} :
    jsonParse us = some v ↔
      ∃ rest, skipSpace rest = [] ∧ ∃ enough, ∀ fuel, enough ≤ fuel →
        parseValue fuel us = some (v, rest) := by
  constructor
  · intro h
    unfold jsonParse at h
    split at h
    · rename_i v' rest hvalue
      split at h
      · rename_i hrest
        obtain rfl := Option.some.inj h
        exact ⟨rest, hrest, _, fun fuel hfuel => (parseValue_fuel hfuel).trans hvalue⟩
      · cases h
    · cases h
  · rintro ⟨rest, hrest, enough, hvalue⟩
    have hlast := hvalue (max enough (2 * us.length + 1)) (Nat.le_max_left _ _)
    rw [parseValue_fuel (Nat.le_max_right _ _)] at hlast
    rw [jsonParse, hlast]
    exact if_pos hrest

end fuel

end Memoark.Js
