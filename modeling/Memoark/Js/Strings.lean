/-! The strings of JavaScript: sequences of UTF-16 code units, lone surrogates included, with
`encodeURIComponent` and `decodeURIComponent`. -/
namespace Memoark.Js

/-- The white space and line terminators that `trim` strips. -/
def isWhiteSpace (c : Char) : Bool :=
  c.toNat ∈ [0x09, 0x0A, 0x0B, 0x0C, 0x0D, 0x20, 0xA0, 0x1680, 0x2028, 0x2029, 0x202F, 0x205F, 0x3000,
      0xFEFF] || (0x2000 ≤ c.toNat && c.toNat ≤ 0x200A)

def isBlank (s : String) : Bool := s.toList.all isWhiteSpace

/-- A string in a condition: neither `undefined` nor empty. -/
def truthy : Option String → Bool
  | some s => s ≠ ""
  | none => false

abbrev Units := List UInt16

def ascii (c : Char) : UInt16 := UInt16.ofNat c.toNat

def charUnits (c : Char) : Units :=
  if c.toNat < 0x10000 then [UInt16.ofNat c.toNat]
  else [UInt16.ofNat (0xD800 + (c.toNat - 0x10000) / 0x400),
    UInt16.ofNat (0xDC00 + (c.toNat - 0x10000) % 0x400)]

def utf16 (s : String) : Units := s.toList.flatMap charUnits

def isHighSurrogate (u : UInt16) : Bool := 0xD800 ≤ u.toNat && u.toNat < 0xDC00

def isLowSurrogate (u : UInt16) : Bool := 0xDC00 ≤ u.toNat && u.toNat < 0xE000

/-- The white space and line terminators that `trim` strips. -/
def isWhiteSpaceUnit (u : UInt16) : Bool :=
  u.toNat ∈ [0x09, 0x0A, 0x0B, 0x0C, 0x0D, 0x20, 0xA0, 0x1680, 0x2028, 0x2029, 0x202F, 0x205F, 0x3000,
      0xFEFF] || (0x2000 ≤ u.toNat && u.toNat ≤ 0x200A)

def blank (s : Units) : Bool := s.all isWhiteSpaceUnit

section utf16

theorem toNat_lt_of_valid (c : Char) :
    c.toNat < 0xD800 ∨ 0xDFFF < c.toNat ∧ c.toNat < 0x110000 := c.valid

theorem toNat_ofNat_lt {n : Nat} (h : n < 65536) : (UInt16.ofNat n).toNat = n :=
  UInt16.toNat_ofNat_of_lt h

end utf16

/-- The characters that `encodeURIComponent` leaves as they are. -/
def isUnescaped (c : Char) : Bool := c.isAlphanum || "-_.!~*'()".toList.contains c

def hexChar (n : Nat) : Char := Char.ofNat (if n < 10 then 0x30 + n else 0x37 + n)

def percentEncode (octet : UInt8) : List Char :=
  ['%', hexChar (octet.toNat / 16), hexChar (octet.toNat % 16)]

def encodeChar (c : Char) : List Char :=
  if isUnescaped c then [c] else (String.utf8EncodeChar c).flatMap percentEncode

def encodeURIComponent (s : String) : String := String.ofList (s.toList.flatMap encodeChar)

def hexCharValue (c : Char) : Option Nat :=
  if '0' ≤ c ∧ c ≤ '9' then some (c.toNat - 0x30)
  else if 'A' ≤ c ∧ c ≤ 'F' then some (c.toNat - 0x37)
  else if 'a' ≤ c ∧ c ≤ 'f' then some (c.toNat - 0x57)
  else none

def takeEscape : List Char → Option (UInt8 × List Char)
  | '%' :: a :: b :: rest => do
    let high ← hexCharValue a
    let low ← hexCharValue b
    return (UInt8.ofNat (16 * high + low), rest)
  | _ => none

def takeEscapes : Nat → List Char → Option (List UInt8 × List Char)
  | 0, cs => some ([], cs)
  | n + 1, cs => do
    let (octet, cs) ← takeEscape cs
    let (octets, cs) ← takeEscapes n cs
    return (octet :: octets, cs)

def octetCount (first : UInt8) : Option Nat :=
  if first.toNat < 0x80 then some 1
  else if first.toNat < 0xC0 then none
  else if first.toNat < 0xE0 then some 2
  else if first.toNat < 0xF0 then some 3
  else if first.toNat < 0xF8 then some 4
  else none

/-- The first character of a text that begins with an escape, and the rest of the text. -/
def takeChar (cs : List Char) : Option (Char × List Char) := do
  let (first, _) ← takeEscape cs
  let count ← octetCount first
  let (octets, rest) ← takeEscapes count cs
  let c ← octets.toByteArray.utf8DecodeChar? 0
  return (c, rest)

/-- The loop of `decodeURIComponent`. A round takes at least one character of the text. -/
def decodeChars : Nat → List Char → Option (List Char)
  | _, [] => some []
  | 0, _ :: _ => none
  | fuel + 1, c :: cs =>
    if c = '%' then do
      let (c, rest) ← takeChar (c :: cs)
      (decodeChars fuel rest).map (c :: ·)
    else (decodeChars fuel cs).map (c :: ·)

/-- `none` where the function throws a `URIError`. -/
def decodeURIComponent (s : String) : Option String :=
  (decodeChars s.toList.length s.toList).map String.ofList

theorem hexCharValue_hexChar {n : Nat} (h : n < 16) : hexCharValue (hexChar n) = some n := by
  have hall : ∀ n : Fin 16, hexCharValue (hexChar n.val) = some n.val := by decide
  exact hall ⟨n, h⟩

theorem takeEscape_percentEncode (octet : UInt8) (rest : List Char) :
    takeEscape (percentEncode octet ++ rest) = some (octet, rest) := by
  have hsize := octet.toNat_lt
  have hhigh : hexCharValue (hexChar (octet.toNat / 16)) = some (octet.toNat / 16) :=
    hexCharValue_hexChar (by omega)
  have hlow : hexCharValue (hexChar (octet.toNat % 16)) = some (octet.toNat % 16) :=
    hexCharValue_hexChar (by omega)
  have hoctet : 16 * (octet.toNat / 16) + octet.toNat % 16 = octet.toNat := by omega
  change (do
    let high ← hexCharValue (hexChar (octet.toNat / 16))
    let low ← hexCharValue (hexChar (octet.toNat % 16))
    return (UInt8.ofNat (16 * high + low), rest)) = _
  rw [hhigh, hlow]
  change some (UInt8.ofNat (16 * (octet.toNat / 16) + octet.toNat % 16), rest) = _
  rw [hoctet, UInt8.ofNat_toNat]

theorem takeEscapes_percentEncode (octets : List UInt8) (rest : List Char) :
    takeEscapes octets.length (octets.flatMap percentEncode ++ rest) = some (octets, rest) := by
  induction octets with
  | nil => rfl
  | cons octet octets ih =>
    rw [List.length_cons, List.flatMap_cons, List.append_assoc, takeEscapes,
      takeEscape_percentEncode]
    change (do
      let (octets, cs) ← takeEscapes octets.length (octets.flatMap percentEncode ++ rest)
      return (octet :: octets, cs)) = _
    rw [ih]
    rfl

section octetCount

variable {n : Nat}

theorem toNat_octet (h : n < 256) : (UInt8.ofNat n).toNat = n := UInt8.toNat_ofNat_of_lt h

theorem octetCount_one (h : n < 0x80) : octetCount (UInt8.ofNat n) = some 1 := by
  have hn : (UInt8.ofNat n).toNat = n := toNat_octet (by omega)
  rw [octetCount, hn, if_pos h]

theorem octetCount_two (hlower : 0xC0 ≤ n) (hupper : n < 0xE0) :
    octetCount (UInt8.ofNat n) = some 2 := by
  have hn : (UInt8.ofNat n).toNat = n := toNat_octet (by omega)
  rw [octetCount, hn, if_neg (by omega), if_neg (by omega),
    if_pos hupper]

theorem octetCount_three (hlower : 0xE0 ≤ n) (hupper : n < 0xF0) :
    octetCount (UInt8.ofNat n) = some 3 := by
  have hn : (UInt8.ofNat n).toNat = n := toNat_octet (by omega)
  rw [octetCount, hn, if_neg (by omega), if_neg (by omega),
    if_neg (by omega), if_pos hupper]

theorem octetCount_four (hlower : 0xF0 ≤ n) (hupper : n < 0xF8) :
    octetCount (UInt8.ofNat n) = some 4 := by
  have hn : (UInt8.ofNat n).toNat = n := toNat_octet (by omega)
  rw [octetCount, hn, if_neg (by omega), if_neg (by omega),
    if_neg (by omega), if_neg (by omega), if_pos hupper]

end octetCount

theorem octetCount_utf8EncodeChar (c : Char) : ∃ first others,
    String.utf8EncodeChar c = first :: others ∧
      octetCount first = some (first :: others).length := by
  unfold String.utf8EncodeChar
  dsimp only
  split
  · exact ⟨_, _, rfl, octetCount_one (by omega)⟩
  · split
    · exact ⟨_, _, rfl, octetCount_two (by omega) (by omega)⟩
    · split
      · exact ⟨_, _, rfl, octetCount_three (by omega) (by omega)⟩
      · exact ⟨_, _, rfl, octetCount_four (by omega) (by omega)⟩

theorem takeChar_encode (c : Char) (rest : List Char) :
    takeChar ((String.utf8EncodeChar c).flatMap percentEncode ++ rest) = some (c, rest) := by
  obtain ⟨first, others, hoctets, hcount⟩ := octetCount_utf8EncodeChar c
  have hfirst : takeEscape ((first :: others).flatMap percentEncode ++ rest) =
      some (first, others.flatMap percentEncode ++ rest) := by
    rw [List.flatMap_cons, List.append_assoc]
    exact takeEscape_percentEncode first _
  have hdecode : (first :: others).toByteArray.utf8DecodeChar? 0 = some c := by
    rw [← hoctets]
    simpa using ByteArray.utf8DecodeChar?_utf8EncodeChar_append (b := .empty) (c := c)
  rw [hoctets, takeChar, hfirst, Option.bind_eq_bind, Option.bind_some]
  dsimp only
  rw [hcount, Option.bind_eq_bind, Option.bind_some, takeEscapes_percentEncode]
  simp [hdecode]

theorem decodeChars_succ_percent (fuel : Nat) (cs : List Char) :
    decodeChars (fuel + 1) ('%' :: cs) = (do
      let (c, rest) ← takeChar ('%' :: cs)
      (decodeChars fuel rest).map (c :: ·)) := by
  rw [decodeChars, if_pos rfl]

theorem decodeChars_succ {c : Char} (hc : c ≠ '%') (fuel : Nat) (cs : List Char) :
    decodeChars (fuel + 1) (c :: cs) = (decodeChars fuel cs).map (c :: ·) := by
  rw [decodeChars, if_neg hc]

theorem decodeChars_encodeChar (fuel : Nat) (c : Char) (rest : List Char) :
    decodeChars (fuel + 1) (encodeChar c ++ rest) = (decodeChars fuel rest).map (c :: ·) := by
  unfold encodeChar
  split
  · rename_i hunescaped
    have hpercent : c ≠ '%' := by
      intro hc
      subst hc
      exact absurd hunescaped (by decide)
    exact decodeChars_succ hpercent fuel rest
  · obtain ⟨first, others, hoctets, -⟩ := octetCount_utf8EncodeChar c
    have htake := takeChar_encode c rest
    obtain ⟨tail, htail⟩ : ∃ tail,
        (String.utf8EncodeChar c).flatMap percentEncode ++ rest = '%' :: tail := by
      rw [hoctets]
      exact ⟨_, rfl⟩
    rw [htail] at htake ⊢
    rw [decodeChars_succ_percent, htake]
    rfl

theorem decodeChars_flatMap (cs : List Char) {fuel : Nat} (h : cs.length ≤ fuel) :
    decodeChars fuel (cs.flatMap encodeChar) = some cs := by
  induction cs generalizing fuel with
  | nil => cases fuel <;> rfl
  | cons c cs ih =>
    obtain ⟨fuel, rfl⟩ : ∃ k, fuel = k + 1 := ⟨fuel - 1, by simp at h; omega⟩
    have hrest : decodeChars fuel (cs.flatMap encodeChar) = some cs := ih (by simpa using h)
    rw [List.flatMap_cons, decodeChars_encodeChar, hrest]
    rfl

theorem encodeChar_ne_nil (c : Char) : encodeChar c ≠ [] := by
  unfold encodeChar
  split
  · exact List.cons_ne_nil c []
  · obtain ⟨first, others, hoctets, -⟩ := octetCount_utf8EncodeChar c
    rw [hoctets]
    exact List.cons_ne_nil _ _

theorem length_le_flatMap_encodeChar (cs : List Char) :
    cs.length ≤ (cs.flatMap encodeChar).length := by
  induction cs with
  | nil => exact Nat.le_refl 0
  | cons c cs ih =>
    have hc := List.length_pos_iff.mpr (encodeChar_ne_nil c)
    rw [List.flatMap_cons, List.length_append, List.length_cons]
    omega

theorem decodeURIComponent_encodeURIComponent (s : String) :
    decodeURIComponent (encodeURIComponent s) = some s := by
  have hfuel := length_le_flatMap_encodeChar s.toList
  rw [decodeURIComponent, encodeURIComponent, String.toList_ofList,
    decodeChars_flatMap s.toList hfuel, Option.map_some, String.ofList_toList]

/-- What can stand in an encoded text: digits of escapes and the characters left as they are. -/
theorem mem_encodeChar {c d : Char} (h : d ∈ encodeChar c) : d = '%' ∨ isUnescaped d := by
  have hhex : ∀ n : Fin 16, isUnescaped (hexChar n.val) := by decide
  unfold encodeChar at h
  split at h
  · rename_i hunescaped
    rw [List.mem_singleton.mp h]
    exact Or.inr hunescaped
  · obtain ⟨octet, -, hd⟩ := List.mem_flatMap.mp h
    have hsize := octet.toNat_lt
    have hcases : d = '%' ∨ d = hexChar (octet.toNat / 16) ∨ d = hexChar (octet.toNat % 16) := by
      simpa [percentEncode] using hd
    rcases hcases with hd | hd | hd
    · exact Or.inl hd
    · exact Or.inr (hd ▸ hhex ⟨octet.toNat / 16, by omega⟩)
    · exact Or.inr (hd ▸ hhex ⟨octet.toNat % 16, by omega⟩)

theorem not_mem_encodeURIComponent {d : Char} (hpercent : d ≠ '%') (hd : isUnescaped d = false)
    (s : String) : d ∉ (encodeURIComponent s).toList := by
  rw [encodeURIComponent, String.toList_ofList]
  intro h
  obtain ⟨c, -, hc⟩ := List.mem_flatMap.mp h
  rcases mem_encodeChar hc with hd' | hd'
  · exact hpercent hd'
  · rw [hd] at hd'
    exact Bool.noConfusion hd'

end Memoark.Js
