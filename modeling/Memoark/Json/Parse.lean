import Memoark.Json.Scan

/-! Parsing of JSON texts, with the nesting limit of `encoding/json`. -/
namespace Memoark.Json

def parseKey (cs : List Char) : Option (String × List Char) :=
  match skipSpace cs with
  | '"' :: rest =>
    match scanString rest with
    | some (key, rest) =>
      match skipSpace rest with
      | ':' :: rest => some (key, rest)
      | _ => none
    | none => none
  | _ => none

mutual

def parseValue : Nat → Nat → List Char → Option (Json × List Char)
  | 0, _, _ => none
  | fuel + 1, depth, cs =>
    match skipSpace cs with
    | 'n' :: 'u' :: 'l' :: 'l' :: rest => some (.null, rest)
    | 't' :: 'r' :: 'u' :: 'e' :: rest => some (.bool true, rest)
    | 'f' :: 'a' :: 'l' :: 's' :: 'e' :: rest => some (.bool false, rest)
    | '"' :: rest => (scanString rest).map fun (s, rest) => (.str s, rest)
    | '[' :: rest =>
      match depth with
      | 0 => none
      | depth + 1 =>
        match skipSpace rest with
        | ']' :: rest => some (.arr [], rest)
        | rest => (parseItems fuel depth rest).map fun (vs, rest) => (.arr vs, rest)
    | '\x7b' :: rest =>
      match depth with
      | 0 => none
      | depth + 1 =>
        match skipSpace rest with
        | '\x7d' :: rest => some (.obj [], rest)
        | rest => (parseMembers fuel depth rest).map fun (ms, rest) => (.obj ms, rest)
    | rest => (scanNumber rest).map fun (s, rest) => (.num s, rest)

def parseItems : Nat → Nat → List Char → Option (List Json × List Char)
  | 0, _, _ => none
  | fuel + 1, depth, cs =>
    match parseValue fuel depth cs with
    | none => none
    | some (v, rest) =>
      match skipSpace rest with
      | ']' :: rest => some ([v], rest)
      | ',' :: rest => (parseItems fuel depth rest).map fun (vs, rest) => (v :: vs, rest)
      | _ => none

def parseMembers : Nat → Nat → List Char → Option (List (String × Json) × List Char)
  | 0, _, _ => none
  | fuel + 1, depth, cs =>
    match parseKey cs with
    | none => none
    | some (key, rest) =>
      match parseValue fuel depth rest with
      | none => none
      | some (v, rest) =>
        match skipSpace rest with
        | '\x7d' :: rest => some ([(key, v)], rest)
        | ',' :: rest =>
          (parseMembers fuel depth rest).map fun (ms, rest) => ((key, v) :: ms, rest)
        | _ => none

end

theorem parseValue_bracket (fuel depth : Nat) (cs : List Char) :
    parseValue (fuel + 1) (depth + 1) ('[' :: cs) =
      match skipSpace cs with
      | ']' :: rest => some (.arr [], rest)
      | rest => (parseItems fuel depth rest).map fun (vs, rest) => (.arr vs, rest) := rfl

theorem parseValue_brace (fuel depth : Nat) (cs : List Char) :
    parseValue (fuel + 1) (depth + 1) ('\x7b' :: cs) =
      match skipSpace cs with
      | '\x7d' :: rest => some (.obj [], rest)
      | rest => (parseMembers fuel depth rest).map fun (ms, rest) => (.obj ms, rest) := rfl

theorem length_parseKey_lt {cs rest : List Char} {key : String}
    (h : parseKey cs = some (key, rest)) : rest.length < cs.length := by
  unfold parseKey at h
  have hcs := length_skipSpace_le cs
  split at h
  · rename_i rest₀ hopen
    split at h
    · rename_i key' rest' hkey
      have hstring := length_scanString_lt hkey
      have hrest := length_skipSpace_le rest'
      split at h <;> cases h
      rename_i hcolon
      rw [hcolon] at hrest
      rw [hopen] at hcs
      simp only [List.length_cons] at hcs hrest
      omega
    · cases h
  · cases h

/-- Parsed values have no more parts than the text they are read from has characters. -/
def ValueFits (fuel : Nat) : Prop :=
  ∀ depth cs v rest, parseValue fuel depth cs = some (v, rest) → v.size + rest.length ≤ cs.length

def ItemsFit (fuel : Nat) : Prop :=
  ∀ depth cs vs rest, parseItems fuel depth cs = some (vs, rest) →
    size.sizeItems vs + rest.length ≤ cs.length

def MembersFit (fuel : Nat) : Prop :=
  ∀ depth cs ms rest, parseMembers fuel depth cs = some (ms, rest) →
    size.sizeMembers ms + rest.length ≤ cs.length

theorem valueFits_succ {fuel : Nat} (hi : ItemsFit fuel) (hm : MembersFit fuel) :
    ValueFits (fuel + 1) := by
  intro depth cs v rest h
  have hcs := length_skipSpace_le cs
  simp only [parseValue] at h
  split at h <;> rename_i htext
  -- the three literals
  iterate 3
    · cases h
      rw [htext] at hcs
      simp only [size, List.length_cons] at hcs ⊢
      omega
  · obtain ⟨⟨_, _⟩, hs, heq⟩ := Option.map_eq_some_iff.mp h
    have hlt := length_scanString_lt hs
    cases heq
    rw [htext] at hcs
    simp only [size, List.length_cons] at hcs ⊢
    omega
  · rename_i rest₀
    have hrest := length_skipSpace_le rest₀
    rw [htext] at hcs
    split at h
    · cases h
    · split at h
      · rename_i hclose
        cases h
        rw [hclose] at hrest
        simp only [size, size.sizeItems, List.length_cons] at hcs hrest ⊢
        omega
      · obtain ⟨⟨_, _⟩, hvs, heq⟩ := Option.map_eq_some_iff.mp h
        have hitems := hi _ _ _ _ hvs
        cases heq
        simp only [size, List.length_cons] at hcs ⊢
        omega
  · rename_i rest₀
    have hrest := length_skipSpace_le rest₀
    rw [htext] at hcs
    split at h
    · cases h
    · split at h
      · rename_i hclose
        cases h
        rw [hclose] at hrest
        simp only [size, size.sizeMembers, List.length_cons] at hcs hrest ⊢
        omega
      · obtain ⟨⟨_, _⟩, hms, heq⟩ := Option.map_eq_some_iff.mp h
        have hmembers := hm _ _ _ _ hms
        cases heq
        simp only [size, List.length_cons] at hcs ⊢
        omega
  · obtain ⟨⟨_, _⟩, hs, heq⟩ := Option.map_eq_some_iff.mp h
    have hlt := length_scanNumber_lt hs
    cases heq
    simp only [size]
    omega

theorem itemsFit_succ {fuel : Nat} (hv : ValueFits fuel) (hi : ItemsFit fuel) :
    ItemsFit (fuel + 1) := by
  intro depth cs vs rest h
  simp only [parseItems] at h
  split at h
  · cases h
  · rename_i v rest₀ hvalue
    have hsize := hv _ _ _ _ hvalue
    have hrest := length_skipSpace_le rest₀
    split at h
    · rename_i hclose
      cases h
      rw [hclose] at hrest
      simp only [size.sizeItems, List.length_cons] at hrest ⊢
      omega
    · rename_i hcomma
      obtain ⟨⟨_, _⟩, hvs, heq⟩ := Option.map_eq_some_iff.mp h
      have hitems := hi _ _ _ _ hvs
      cases heq
      rw [hcomma] at hrest
      simp only [size.sizeItems, List.length_cons] at hrest ⊢
      omega
    · cases h

theorem membersFit_succ {fuel : Nat} (hv : ValueFits fuel) (hm : MembersFit fuel) :
    MembersFit (fuel + 1) := by
  intro depth cs ms rest h
  simp only [parseMembers] at h
  split at h
  · cases h
  · rename_i key rest₀ hkey
    have hlt := length_parseKey_lt hkey
    split at h
    · cases h
    · rename_i v rest₁ hvalue
      have hsize := hv _ _ _ _ hvalue
      have hrest := length_skipSpace_le rest₁
      split at h
      · rename_i hclose
        cases h
        rw [hclose] at hrest
        simp only [size.sizeMembers, List.length_cons] at hrest ⊢
        omega
      · rename_i hcomma
        obtain ⟨⟨_, _⟩, hms, heq⟩ := Option.map_eq_some_iff.mp h
        have hmembers := hm _ _ _ _ hms
        cases heq
        rw [hcomma] at hrest
        simp only [size.sizeMembers, List.length_cons] at hrest ⊢
        omega
      · cases h

theorem parse_fits (fuel : Nat) : ValueFits fuel ∧ ItemsFit fuel ∧ MembersFit fuel := by
  induction fuel with
  | zero => exact ⟨nofun, nofun, nofun⟩
  | succ fuel ih =>
    obtain ⟨hv, hi, hm⟩ := ih
    exact ⟨valueFits_succ hi hm, itemsFit_succ hv hi, membersFit_succ hv hm⟩

def maxNestingDepth : Nat := 10000

def first (cs : List Char) : Option (Json × List Char) :=
  parseValue (2 * cs.length + 2) maxNestingDepth cs

def parse (cs : List Char) : Option Json :=
  match first cs with
  | some (v, rest) => if (skipSpace rest).isEmpty then some v else none
  | none => none

theorem size_parse_le {cs : List Char} {v : Json} (h : parse cs = some v) :
    v.size ≤ cs.length := by
  unfold parse at h
  split at h
  · rename_i hvalue
    have hsize := (parse_fits _).1 _ _ _ _ hvalue
    split at h <;> cases h
    omega
  · cases h

end Memoark.Json
