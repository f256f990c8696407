import Mathlib.Data.List.TakeWhile

/-! Parts of Go's `unicode`, `strings`, `strconv` and `fmt` packages. -/
namespace Memoark.Go

def isSpace (c : Char) : Bool :=
  c.toNat ∈ [0x09, 0x0A, 0x0B, 0x0C, 0x0D, 0x20, 0x85, 0xA0, 0x1680, 0x2028, 0x2029, 0x202F, 0x205F,
      0x3000] || (0x2000 ≤ c.toNat && c.toNat ≤ 0x200A)

def trimLeft (cs : List Char) : List Char := cs.dropWhile isSpace

def trimRight (cs : List Char) : List Char := (cs.reverse.dropWhile isSpace).reverse

def trimSpace (s : String) : String := String.ofList (trimRight (trimLeft s.toList))

def utf8 (s : String) : List UInt8 := s.toList.flatMap String.utf8EncodeChar

/-- `%q`, for texts whose non-ASCII characters are printable. -/
def quoted (s : String) : String :=
  String.ofList ('"' :: s.toList.flatMap escaped ++ ['"'])
where
  hex (n : Nat) : Char := Nat.digitChar n
  escaped (c : Char) : List Char :=
    if c = '"' then ['\\', '"']
    else if c = '\\' then ['\\', '\\']
    else if c = '\n' then ['\\', 'n']
    else if c = '\r' then ['\\', 'r']
    else if c = '\t' then ['\\', 't']
    else if c = '\x07' then ['\\', 'a']
    else if c = '\x08' then ['\\', 'b']
    else if c = '\x0b' then ['\\', 'v']
    else if c = '\x0c' then ['\\', 'f']
    else if c.toNat < 32 ∨ c.toNat = 127 then ['\\', 'x', hex (c.toNat / 16), hex (c.toNat % 16)]
    else [c]

private theorem dropWhile_dropWhile (p : Char → Bool) (cs : List Char) :
    (cs.dropWhile p).dropWhile p = cs.dropWhile p := by
  induction cs with
  | nil => rfl
  | cons c cs ih =>
    by_cases hc : p c
    · rw [List.dropWhile_cons_of_pos hc, ih]
    · rw [List.dropWhile_cons_of_neg hc, List.dropWhile_cons_of_neg hc]

theorem trimRight_trimRight (cs : List Char) : trimRight (trimRight cs) = trimRight cs := by
  unfold trimRight
  rw [List.reverse_reverse, dropWhile_dropWhile]

theorem trimLeft_trimRight {cs : List Char} (h : trimLeft cs = cs) :
    trimLeft (trimRight cs) = trimRight cs := by
  obtain ⟨tail, htail⟩ : trimRight cs <+: cs := by
    have hsuffix : cs.reverse.dropWhile isSpace <:+ cs.reverse := List.dropWhile_suffix _
    simpa [trimRight] using List.reverse_prefix.mpr hsuffix
  cases hhead : trimRight cs with
  | nil => rfl
  | cons c rest =>
    rw [hhead, List.cons_append] at htail
    have hc : ¬isSpace c := by
      intro hspace
      have hlen : (trimLeft cs).length ≤ (rest ++ tail).length := by
        rw [← htail, trimLeft, List.dropWhile_cons_of_pos hspace]
        exact (List.dropWhile_sublist _).length_le
      rw [h, ← htail, List.length_cons] at hlen
      omega
    exact List.dropWhile_cons_of_neg hc

theorem trimSpace_trimSpace (s : String) : trimSpace (trimSpace s) = trimSpace s := by
  have hleft : trimLeft (trimLeft s.toList) = trimLeft s.toList := dropWhile_dropWhile _ _
  simp only [trimSpace, String.toList_ofList]
  rw [trimLeft_trimRight hleft, trimRight_trimRight]

theorem octet_cases {c : Char} {b : UInt8} (h : b ∈ String.utf8EncodeChar c) :
    b.toNat = c.toNat ∧ String.utf8EncodeChar c = [b] ∨ 0x80 ≤ b.toNat := by
  have htoNat : ∀ {n : Nat}, n < 256 → (UInt8.ofNat n).toNat = n := UInt8.toNat_ofNat_of_lt
  have hsize : c.val.toNat < 0x110000 := by
    rcases c.valid with hlt | ⟨-, hlt⟩
    · change c.val.toNat < _ at hlt
      omega
    · exact hlt
  have hoctet : ∀ {n : Nat}, 0x80 ≤ n → n < 256 → 0x80 ≤ (UInt8.ofNat n).toNat := by
    intro n hlow hhigh
    rw [htoNat hhigh]
    exact hlow
  unfold String.utf8EncodeChar at h ⊢
  dsimp only at h ⊢
  split
  · rename_i hone
    rw [if_pos hone] at h
    obtain rfl := List.mem_singleton.mp h
    exact .inl ⟨htoNat (by omega), rfl⟩
  · rename_i hone
    rw [if_neg hone] at h
    right
    split at h
    · simp only [List.mem_cons, List.not_mem_nil, or_false] at h
      rcases h with rfl | rfl
      · exact hoctet (by omega) (by omega)
      · exact hoctet (by omega) (by omega)
    · split at h
      · simp only [List.mem_cons, List.not_mem_nil, or_false] at h
        rcases h with rfl | rfl | rfl
        · exact hoctet (by omega) (by omega)
        · exact hoctet (by omega) (by omega)
        · exact hoctet (by omega) (by omega)
      · simp only [List.mem_cons, List.not_mem_nil, or_false] at h
        rcases h with rfl | rfl | rfl | rfl
        · exact hoctet (by omega) (by omega)
        · exact hoctet (by omega) (by omega)
        · exact hoctet (by omega) (by omega)
        · exact hoctet (by omega) (by omega)

section case

theorem toLower_of_not_upper {c : Char} (h : c.toNat < 65 ∨ 90 < c.toNat) : c.toLower = c := by
  unfold Char.toLower
  rw [dif_neg]
  rintro ⟨hle, hge⟩
  have h1 : (65 : Nat) ≤ c.toNat := UInt32.le_iff_toNat_le.mp hle
  have h2 : c.toNat ≤ (90 : Nat) := UInt32.le_iff_toNat_le.mp hge
  omega

theorem toLower_cases (c : Char) :
    c.toLower = c ∨ 97 ≤ c.toLower.toNat ∧ c.toLower.toNat ≤ 122 := by
  by_cases h : c.toNat < 65 ∨ 90 < c.toNat
  · exact .inl (toLower_of_not_upper h)
  · right
    have hupper : c.val ≥ 'A'.val ∧ c.val ≤ 'Z'.val := by
      constructor
      · exact UInt32.le_iff_toNat_le.mpr (by change (65 : Nat) ≤ c.toNat; omega)
      · exact UInt32.le_iff_toNat_le.mpr (by change c.toNat ≤ (90 : Nat); omega)
    have hval : c.toLower.toNat = c.toNat + 32 := by
      unfold Char.toLower
      rw [dif_pos hupper]
      change (c.val + 32).toNat = c.val.toNat + 32
      rw [UInt32.toNat_add]
      change (c.toNat + 32) % 2 ^ 32 = _
      have : c.toNat = c.val.toNat := rfl
      omega
    omega

theorem toLower_toLower (c : Char) : c.toLower.toLower = c.toLower := by
  rcases toLower_cases c with h | h
  · rw [h, h]
  · exact toLower_of_not_upper (by omega)

end case

def fields (cs : List Char) : List (List Char) := (cs.splitOnP isSpace).filter (· ≠ [])

def parseDigits (cs : List Char) : Option Nat :=
  if cs ≠ [] ∧ cs.all Char.isDigit then some (Nat.ofDigitChars 10 cs 0) else none

/-- `strconv.Atoi`: a sign is optional, and the value has to fit 64 bits. -/
def atoi : List Char → Option Int
  | '-' :: cs => (parseDigits cs).bind fun n => if n ≤ 9223372036854775808 then some (-n) else none
  | '+' :: cs => (parseDigits cs).bind fun n => if n < 9223372036854775808 then some n else none
  | cs => (parseDigits cs).bind fun n => if n < 9223372036854775808 then some n else none

theorem digit_or_sign_of_atoi {cs : List Char} {n : Int} (h : atoi cs = some n) {c : Char}
    (hc : c ∈ cs) : c = '-' ∨ c = '+' ∨ c.isDigit = true := by
  have hdigits : ∀ {cs : List Char} {n : Nat}, parseDigits cs = some n → c ∈ cs →
      c.isDigit = true := by
    intro cs n hparse hmem
    obtain ⟨⟨-, hall⟩, -⟩ := Option.ite_none_right_eq_some.mp hparse
    exact List.all_eq_true.mp hall c hmem
  unfold atoi at h
  split at h
  · obtain ⟨m, hm, -⟩ := Option.bind_eq_some_iff.mp h
    rcases List.mem_cons.mp hc with rfl | hc
    · exact .inl rfl
    · exact .inr (.inr (hdigits hm hc))
  · obtain ⟨m, hm, -⟩ := Option.bind_eq_some_iff.mp h
    rcases List.mem_cons.mp hc with rfl | hc
    · exact .inr (.inl rfl)
    · exact .inr (.inr (hdigits hm hc))
  · obtain ⟨m, hm, -⟩ := Option.bind_eq_some_iff.mp h
    exact .inr (.inr (hdigits hm hc))

theorem atoi_digits {cs : List Char} (h : cs.all Char.isDigit) :
    atoi cs = (parseDigits cs).bind fun n =>
      if n < 9223372036854775808 then some (n : Int) else none := by
  unfold atoi
  split
  · exact absurd h (by simp)
  · exact absurd h (by simp)
  · rfl

theorem of_mem_splitOnP {p : Char → Bool} {cs piece : List Char} (h : piece ∈ cs.splitOnP p)
    {c : Char} (hc : c ∈ piece) : c ∈ cs ∧ p c = false := by
  induction cs generalizing piece with
  | nil =>
    rw [List.splitOnP_nil, List.mem_singleton] at h
    rw [h] at hc
    cases hc
  | cons d cs ih =>
    rw [List.splitOnP_cons_eq_if_modifyHead] at h
    cases hsplit : cs.splitOnP p with
    | nil => exact absurd hsplit (List.splitOnP_ne_nil p cs)
    | cons head tail =>
      rw [hsplit] at h ih
      have hold : piece ∈ head :: tail → c ∈ d :: cs ∧ p c = false := by
        intro hmem
        obtain ⟨hcs, hp⟩ := ih hmem hc
        exact ⟨List.mem_cons_of_mem d hcs, hp⟩
      split at h
      · rcases List.mem_cons.mp h with rfl | hmem
        · cases hc
        · exact hold hmem
      · rename_i hd
        rw [List.modifyHead_cons] at h
        rcases List.mem_cons.mp h with rfl | hmem
        · rcases List.mem_cons.mp hc with rfl | hc
          · exact ⟨List.mem_cons_self, by simpa using hd⟩
          · obtain ⟨hcs, hp⟩ := ih List.mem_cons_self hc
            exact ⟨List.mem_cons_of_mem d hcs, hp⟩
        · exact hold (List.mem_cons_of_mem head hmem)

theorem of_mem_fields {cs field : List Char} (h : field ∈ fields cs) {c : Char} (hc : c ∈ field) :
    c ∈ cs ∧ isSpace c = false := of_mem_splitOnP (List.mem_filter.mp h).1 hc

theorem trimRight_trimLeft {cs : List Char} (h : ∀ c ∈ cs, isSpace c = false) :
    trimRight (trimLeft cs) = cs := by
  have hdrop : ∀ {cs : List Char}, (∀ c ∈ cs, isSpace c = false) → cs.dropWhile isSpace = cs := by
    intro cs hcs
    cases cs with
    | nil => rfl
    | cons c cs =>
      apply List.dropWhile_cons_of_neg
      rw [hcs c List.mem_cons_self]
      exact Bool.false_ne_true
  unfold trimRight trimLeft
  rw [hdrop h, hdrop fun c hc => h c (List.mem_reverse.mp hc), List.reverse_reverse]

theorem splitOn_append_eq_pair {sep : Char} {cs cs' first second : List Char}
    (h : (cs ++ sep :: cs').splitOn sep = [first, second]) : cs = first ∧ cs' = second := by
  rw [List.splitOn_append_cons_self] at h
  have hcs : [sep].intercalate (cs.splitOn sep) = cs := List.intercalate_splitOn sep
  have hcs' : [sep].intercalate (cs'.splitOn sep) = cs' := List.intercalate_splitOn sep
  cases hsplit : cs.splitOn sep with
  | nil => exact absurd hsplit (List.splitOn_ne_nil sep cs)
  | cons a as =>
    cases hsplit' : cs'.splitOn sep with
    | nil => exact absurd hsplit' (List.splitOn_ne_nil sep cs')
    | cons b bs =>
      rw [hsplit] at h hcs
      rw [hsplit'] at h hcs'
      have hlength := congrArg List.length h
      have has : as = [] := List.eq_nil_of_length_eq_zero (by simp at hlength; omega)
      subst has
      obtain ⟨rfl, rfl, rfl⟩ : a = first ∧ b = second ∧ bs = [] := by simpa using h
      exact ⟨by simpa using hcs.symm, by simpa using hcs'.symm⟩

theorem splitOn_eq_pair {sep : Char} {cs first second : List Char} :
    cs.splitOn sep = [first, second] ↔
      cs = first ++ sep :: second ∧ sep ∉ first ∧ sep ∉ second := by
  constructor
  · intro h
    have hcs : [sep].intercalate (cs.splitOn sep) = cs := List.intercalate_splitOn sep
    rw [h] at hcs
    have hsep : ∀ piece ∈ cs.splitOn sep, sep ∉ piece := by
      intro piece hpiece hmem
      rw [List.splitOn_eq_splitOnP] at hpiece
      simpa using (of_mem_splitOnP hpiece hmem).2
    rw [h] at hsep
    exact ⟨by simpa using hcs.symm, hsep first (by simp), hsep second (by simp)⟩
  · rintro ⟨rfl, hfirst, hsecond⟩
    rw [List.splitOn_append_cons_self, List.splitOn_eq_singleton hfirst,
      List.splitOn_eq_singleton hsecond]
    rfl

/-- The white space that a verb skips. A line break is none: the format has no line break. -/
def isScanSpace (c : Char) : Bool :=
  c.toNat ∈ [0x09, 0x0B, 0x0C, 0x0D, 0x20, 0x85, 0xA0, 0x1680, 0x2028, 0x2029, 0x202F, 0x205F, 0x3000]
    || (0x2000 ≤ c.toNat && c.toNat ≤ 0x200A)

/-- The number a text begins with; what stands after its digits is not read. -/
def sscanfInt (s : String) : Option Int :=
  let cs := s.toList.dropWhile isScanSpace
  let sign := (cs.take 1).filter fun c => c = '+' ∨ c = '-'
  atoi (sign ++ (cs.drop sign.length).takeWhile Char.isDigit)

/-- The text begins, white space aside, with a minus sign and a number other than zero. -/
def BeginsNegative (s : String) : Prop :=
  ∃ cs n, s.toList.dropWhile isScanSpace = '-' :: cs ∧
    parseDigits (cs.takeWhile Char.isDigit) = some n ∧ 0 < n ∧ n ≤ 9223372036854775808

section sscanfInt

variable {s : String} {cs : List Char}

theorem sscanfInt_sign {c : Char} (h : s.toList.dropWhile isScanSpace = c :: cs)
    (hc : c = '+' ∨ c = '-') : sscanfInt s = atoi (c :: cs.takeWhile Char.isDigit) := by
  have hsign : ((c :: cs).take 1).filter (fun c => decide (c = '+' ∨ c = '-')) = [c] := by
    simp [hc]
  rw [sscanfInt, h, hsign]
  rfl

theorem sscanfInt_unsigned
    (h : ∀ c rest, s.toList.dropWhile isScanSpace = c :: rest → c ≠ '+' ∧ c ≠ '-') :
    sscanfInt s = atoi ((s.toList.dropWhile isScanSpace).takeWhile Char.isDigit) := by
  have hsign : ((s.toList.dropWhile isScanSpace).take 1).filter
      (fun c => decide (c = '+' ∨ c = '-')) = [] := by
    cases hcs : s.toList.dropWhile isScanSpace with
    | nil => rfl
    | cons c rest =>
      obtain ⟨hplus, hminus⟩ := h c rest hcs
      simp [hplus, hminus]
  rw [sscanfInt, hsign]
  rfl

theorem digit_plain {c : Char} (h : c.isDigit = true) :
    isScanSpace c = false ∧ c ≠ '+' ∧ c ≠ '-' := by
  have hrange : 48 ≤ c.toNat ∧ c.toNat ≤ 57 := by
    simpa [Char.isDigit, UInt32.le_iff_toNat_le] using h
  refine ⟨?_, ?_, ?_⟩
  · unfold isScanSpace
    simp
    omega
  · rintro rfl
    exact absurd hrange (by decide)
  · rintro rfl
    exact absurd hrange (by decide)

theorem sscanfInt_neg_iff (s : String) :
    (∃ n, sscanfInt s = some n ∧ n < 0) ↔ BeginsNegative s := by
  have hunsigned : ∀ cs n, parseDigits cs = some n → atoi ('-' :: cs) =
      if n ≤ 9223372036854775808 then some (-(n : Int)) else none := by
    intro cs n hn
    change (parseDigits cs).bind _ = _
    rw [hn, Option.bind_some]
  by_cases hminus : ∃ cs, s.toList.dropWhile isScanSpace = '-' :: cs
  · obtain ⟨cs, hcs⟩ := hminus
    rw [sscanfInt_sign hcs (Or.inr rfl), BeginsNegative, hcs]
    constructor
    · rintro ⟨n, hn, hneg⟩
      obtain ⟨m, hm, hrange⟩ := Option.bind_eq_some_iff.mp hn
      obtain ⟨hle, hvalue⟩ := Option.ite_none_right_eq_some.mp hrange
      have := Option.some.inj hvalue
      exact ⟨cs, m, rfl, hm, by omega, hle⟩
    · rintro ⟨cs', m, heq, hm, hpos, hle⟩
      obtain ⟨-, rfl⟩ := List.cons.inj heq
      refine ⟨-m, ?_, by omega⟩
      rw [hunsigned _ _ hm, if_pos hle]
  · have hnot : ¬ BeginsNegative s := by
      rintro ⟨cs, n, hcs, -⟩
      exact hminus ⟨cs, hcs⟩
    refine iff_of_false ?_ hnot
    rintro ⟨n, hn, hneg⟩
    by_cases hplus : ∃ cs, s.toList.dropWhile isScanSpace = '+' :: cs
    · obtain ⟨cs, hcs⟩ := hplus
      rw [sscanfInt_sign hcs (Or.inl rfl)] at hn
      obtain ⟨m, -, hrange⟩ := Option.bind_eq_some_iff.mp hn
      obtain ⟨-, hvalue⟩ := Option.ite_none_right_eq_some.mp hrange
      have := Option.some.inj hvalue
      omega
    · have hplain : ∀ c rest, s.toList.dropWhile isScanSpace = c :: rest → c ≠ '+' ∧ c ≠ '-' := by
        intro c rest hcs
        constructor
        · rintro rfl
          exact hplus ⟨rest, hcs⟩
        · rintro rfl
          exact hminus ⟨rest, hcs⟩
      rw [sscanfInt_unsigned hplain, atoi_digits List.all_takeWhile] at hn
      obtain ⟨m, -, hrange⟩ := Option.bind_eq_some_iff.mp hn
      obtain ⟨-, hvalue⟩ := Option.ite_none_right_eq_some.mp hrange
      have := Option.some.inj hvalue
      omega

theorem sscanfInt_toString {n : Nat} (h : n < 9223372036854775808) :
    sscanfInt (toString n) = some (n : Int) := by
  have htext : (toString n).toList = Nat.toDigits 10 n := by
    simp [toString, Nat.repr]
  have hdigits : ∀ c ∈ Nat.toDigits 10 n, c.isDigit = true := by
    intro c hc
    exact Nat.isDigit_of_mem_toDigits (by omega) (by omega) hc
  have hall : (Nat.toDigits 10 n).all Char.isDigit := List.all_eq_true.mpr hdigits
  have hkept : (toString n).toList.dropWhile isScanSpace = Nat.toDigits 10 n := by
    rw [htext]
    cases hcs : Nat.toDigits 10 n with
    | nil => rfl
    | cons c cs =>
      have hc := (digit_plain (hdigits c (by simp [hcs]))).1
      rw [List.dropWhile_cons_of_neg (by simp [hc])]
  have hplain : ∀ c rest, (toString n).toList.dropWhile isScanSpace = c :: rest →
      c ≠ '+' ∧ c ≠ '-' := by
    intro c rest hcs
    have hmem : c ∈ Nat.toDigits 10 n := by
      rw [← hkept, hcs]
      exact List.mem_cons_self
    exact (digit_plain (hdigits c hmem)).2
  have hparse : parseDigits (Nat.toDigits 10 n) = some n := by
    rw [parseDigits, if_pos ⟨Nat.toDigits_ne_nil, hall⟩, Nat.ofDigitChars_ten_toDigits]
  rw [sscanfInt_unsigned hplain, hkept, List.takeWhile_eq_self_iff.mpr hdigits, atoi_digits hall,
    hparse, Option.bind_some, if_pos h]

end sscanfInt

end Memoark.Go
