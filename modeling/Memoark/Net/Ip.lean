import Mathlib.Data.List.MinMax
import Mathlib.Data.List.TakeWhile
import Mathlib.Data.Nat.Digits.Defs
import Mathlib.Data.Vector.Basic

/-! IP addresses, and their texts as Go's `net` and `net/netip` write and read them. -/
namespace Memoark.Net

abbrev Fields := List.Vector UInt16 8

inductive IP where
  | v4 (a b c d : UInt8)
  | v6 (fields : Fields)
  deriving DecidableEq

namespace IP

/-- The four bytes of an IPv4 address, also of one that is mapped to IPv6. -/
def to4 : IP → Option (UInt8 × UInt8 × UInt8 × UInt8)
  | .v4 a b c d => some (a, b, c, d)
  | .v6 ⟨[0, 0, 0, 0, 0, 0xffff, x, y], _⟩ =>
    some ((x >>> 8).toUInt8, x.toUInt8, (y >>> 8).toUInt8, y.toUInt8)
  | .v6 _ => none

/-- The form that the 16 bytes of a mapped IPv4 address stand for. -/
def canonical (ip : IP) : IP :=
  match ip.to4 with
  | some (a, b, c, d) => .v4 a b c d
  | none => ip

def isLoopback (ip : IP) : Bool :=
  match ip.to4, ip with
  | some (a, _, _, _), _ => a = 127
  | none, .v6 fields => fields.toList = [0, 0, 0, 0, 0, 0, 0, 1]
  | none, .v4 .. => false

def isPrivate (ip : IP) : Bool :=
  match ip.to4, ip with
  | some (a, b, _, _), _ => a = 10 ∨ (a = 172 ∧ b &&& 0xf0 = 16) ∨ (a = 192 ∧ b = 168)
  | none, .v6 fields => fields.head &&& 0xfe00 = 0xfc00
  | none, .v4 .. => false

def isLinkLocalUnicast (ip : IP) : Bool :=
  match ip.to4, ip with
  | some (a, b, _, _), _ => a = 169 ∧ b = 254
  | none, .v6 fields => fields.head &&& 0xffc0 = 0xfe80
  | none, .v4 .. => false

def isUnspecified (ip : IP) : Bool :=
  match ip.to4, ip with
  | some bytes, _ => bytes = (0, 0, 0, 0)
  | none, .v6 fields => fields.toList = [0, 0, 0, 0, 0, 0, 0, 0]
  | none, .v4 .. => false

section texts

def appendDecimal (x : UInt8) : List Char := Nat.toDigits 10 x.toNat

def appendHex (x : UInt16) : List Char := Nat.toDigits 16 x.toNat

def zeroRuns (fields : List UInt16) : List (Nat × Nat) :=
  (List.range fields.length).map fun i => (i, ((fields.drop i).takeWhile (· = 0)).length)

def zeroRun (fields : List UInt16) : Option (Nat × Nat) :=
  ((zeroRuns fields).filter (2 ≤ ·.2)).argmax Prod.snd

def joinFields (fields : List UInt16) : List Char := [':'].intercalate (fields.map appendHex)

def fieldsText (fields : List UInt16) : List Char :=
  match zeroRun fields with
  | some (i, n) => joinFields (fields.take i) ++ ':' :: ':' :: joinFields (fields.drop (i + n))
  | none => joinFields fields

/-- `IP.String`: a mapped IPv4 address is written as one. -/
def string (ip : IP) : List Char :=
  match ip.to4, ip with
  | some (a, b, c, d), _ => ['.'].intercalate ([a, b, c, d].map appendDecimal)
  | none, .v6 fields => fieldsText fields.toList
  | none, .v4 .. => []

end texts

end IP

section parse

def parseDecimal (cs : List Char) : Option UInt8 :=
  if cs ≠ [] ∧ cs.all Char.isDigit ∧ (cs.head? = some '0' → cs.length = 1) ∧
      Nat.ofDigitChars 10 cs 0 ≤ 255 then
    some (UInt8.ofNat (Nat.ofDigitChars 10 cs 0))
  else none

def parseIPv4Fields (cs : List Char) : Option (UInt8 × UInt8 × UInt8 × UInt8) :=
  match (cs.splitOn '.').mapM parseDecimal with
  | some [a, b, c, d] => some (a, b, c, d)
  | _ => none

def hexDigit (c : Char) : Option Nat :=
  if c.isDigit then some (c.toNat - '0'.toNat)
  else if 'a' ≤ c ∧ c ≤ 'f' then some (c.toNat - 'a'.toNat + 10)
  else if 'A' ≤ c ∧ c ≤ 'F' then some (c.toNat - 'A'.toNat + 10)
  else none

def hexNumber (cs : List Char) : Option Nat :=
  cs.foldlM (fun n c => (hexDigit c).map (16 * n + ·)) 0

def parseField (cs : List Char) : Option UInt16 :=
  if cs ≠ [] ∧ cs.length ≤ 4 then (hexNumber cs).map UInt16.ofNat else none

def parseFields (cs : List Char) : Option (List UInt16) :=
  if cs = [] then some [] else (cs.splitOn ':').mapM parseField

/-- Fields, of which the last two may be written as an IPv4 address. -/
def parseTail (cs : List Char) : Option (List UInt16) :=
  if '.' ∈ (cs.splitOn ':').getLast?.getD [] then do
    let fields ← (cs.splitOn ':').dropLast.mapM parseField
    let (a, b, c, d) ← parseIPv4Fields ((cs.splitOn ':').getLast?.getD [])
    pure (fields ++ [a.toUInt16 <<< 8 ||| b.toUInt16, c.toUInt16 <<< 8 ||| d.toUInt16])
  else parseFields cs

def cutEllipsis : List Char → Option (List Char × List Char)
  | ':' :: ':' :: rest => some ([], rest)
  | c :: rest => (cutEllipsis rest).map fun (before, after) => (c :: before, after)
  | [] => none

def fieldsOf (fields : List UInt16) : Option Fields :=
  if h : fields.length = 8 then some ⟨fields, h⟩ else none

def parseIPv6 (cs : List Char) : Option Fields :=
  match cutEllipsis cs with
  | some (before, after) => do
    let before ← parseFields before
    let after ← parseTail after
    if before.length + after.length < 8 then
      fieldsOf (before ++ List.replicate (8 - (before.length + after.length)) 0 ++ after)
    else none
  | none => do fieldsOf (← parseTail cs)

structure IPAddr where
  ip : IP
  zone : List Char
  deriving DecidableEq

def parseAddr (cs : List Char) : Option IPAddr :=
  match cs.find? (· ∈ ['.', ':', '%']) with
  | some '.' => (parseIPv4Fields cs).map fun (a, b, c, d) => ⟨.v4 a b c d, []⟩
  | some ':' =>
    match cs.dropWhile (· ≠ '%') with
    | [] => (parseIPv6 cs).map fun fields => ⟨.v6 fields, []⟩
    | _ :: zone =>
      if zone = [] then none
      else (parseIPv6 (cs.takeWhile (· ≠ '%'))).map fun fields => ⟨.v6 fields, zone⟩
  | _ => none

/-- `net.ParseIP`: an address without a zone. -/
def parseIP (cs : List Char) : Option IP :=
  match parseAddr cs with
  | some ⟨ip, []⟩ => some ip
  | _ => none

end parse

section networks

/-- `net.IPNet`: the addresses that share their first bits. -/
structure IPNet where
  ip : IP
  ones : Nat

def IP.bits (ip : IP) : Nat × Nat :=
  match ip.to4, ip with
  | some (a, b, c, d), _ => (Nat.ofDigits 256 [d.toNat, c.toNat, b.toNat, a.toNat], 32)
  | none, .v6 fields => (Nat.ofDigits 65536 (fields.toList.reverse.map UInt16.toNat), 128)
  | none, .v4 .. => (0, 0)

def parseCIDR (cs : List Char) : Option IPNet :=
  match parseAddr (cs.takeWhile (· ≠ '/')), cs.dropWhile (· ≠ '/') with
  | some ⟨ip, []⟩, _ :: mask =>
    if mask ≠ [] ∧ mask.all Char.isDigit ∧ Nat.ofDigitChars 10 mask 0 ≤ ip.bits.2 then
      some ⟨ip, Nat.ofDigitChars 10 mask 0⟩
    else none
  | _, _ => none

def IPNet.contains (n : IPNet) (ip : IP) : Bool :=
  n.ip.bits.2 = ip.bits.2 ∧
    n.ip.bits.1 / 2 ^ (n.ip.bits.2 - n.ones) = ip.bits.1 / 2 ^ (n.ip.bits.2 - n.ones)

end networks

section roundTrip

theorem head?_toDigits {n : Nat} (h : n ≠ 0) : (Nat.toDigits 10 n).head? ≠ some '0' := by
  induction n using Nat.strongRecOn with
  | ind n ih =>
    by_cases hn : n < 10
    · have hall : ∀ m : Fin 10, m.val ≠ 0 → Nat.digitChar m ≠ '0' := by decide
      rw [Nat.toDigits_of_lt_base hn]
      exact fun hzero => hall ⟨n, hn⟩ h (Option.some.inj hzero)
    · have hdiv : n / 10 < n := Nat.div_lt_self (by omega) (by omega)
      rw [Nat.toDigits_of_base_le (by omega) (by omega),
        List.head?_append_of_ne_nil _ Nat.toDigits_ne_nil]
      exact ih (n / 10) hdiv (by omega)

theorem parseDecimal_appendDecimal (x : UInt8) : parseDecimal (IP.appendDecimal x) = some x := by
  have hdigits : (IP.appendDecimal x).all Char.isDigit = true :=
    List.all_eq_true.mpr fun c hc => Nat.isDigit_of_mem_toDigits (by omega) (by omega) hc
  have hzero : (IP.appendDecimal x).head? = some '0' → (IP.appendDecimal x).length = 1 := by
    intro hhead
    by_cases hx : x.toNat = 0
    · rw [IP.appendDecimal, hx]
      rfl
    · exact absurd hhead (head?_toDigits hx)
  have hvalue : Nat.ofDigitChars 10 (IP.appendDecimal x) 0 = x.toNat := Nat.ofDigitChars_ten_toDigits
  have hle : x.toNat ≤ 255 := Nat.le_of_lt_succ x.toNat_lt
  rw [parseDecimal, hvalue, if_pos ⟨Nat.toDigits_ne_nil, hdigits, hzero, hle⟩, UInt8.ofNat_toNat]

theorem hexDigit_digitChar {n : Nat} (h : n < 16) : hexDigit n.digitChar = some n := by
  have hall : ∀ n : Fin 16, hexDigit (Nat.digitChar n) = some n.val := by decide
  exact hall ⟨n, h⟩

theorem hexNumber_toDigits (n : Nat) : hexNumber (Nat.toDigits 16 n) = some n := by
  induction n using Nat.strongRecOn with
  | ind n ih =>
    by_cases hn : n < 16
    · rw [Nat.toDigits_of_lt_base hn, hexNumber, List.foldlM_cons, hexDigit_digitChar hn]
      simp
    · have hdiv : n / 16 < n := Nat.div_lt_self (by omega) (by omega)
      rw [Nat.toDigits_of_base_le (by omega) (by omega), hexNumber, List.foldlM_append]
      have ih := ih (n / 16) hdiv
      rw [hexNumber] at ih
      rw [ih]
      have hdigit := hexDigit_digitChar (Nat.mod_lt n (by omega : 0 < 16))
      simp only [Option.bind_eq_bind, Option.bind_some, List.foldlM_cons, List.foldlM_nil, hdigit]
      simp
      omega

theorem hexDigit_of_mem {n : Nat} {c : Char} (h : c ∈ Nat.toDigits 16 n) :
    (hexDigit c).isSome := by
  induction n using Nat.strongRecOn with
  | ind n ih =>
    by_cases hn : n < 16
    · rw [Nat.toDigits_of_lt_base hn, List.mem_singleton] at h
      rw [h, hexDigit_digitChar hn]
      rfl
    · have hdiv : n / 16 < n := Nat.div_lt_self (by omega) (by omega)
      rw [Nat.toDigits_of_base_le (by omega) (by omega)] at h
      rcases List.mem_append.mp h with h | h
      · exact ih (n / 16) hdiv h
      · rw [List.mem_singleton.mp h, hexDigit_digitChar (Nat.mod_lt n (by omega))]
        rfl

theorem parseField_appendHex (x : UInt16) : parseField (IP.appendHex x) = some x := by
  have hlength : (Nat.toDigits 16 x.toNat).length ≤ 4 :=
    (Nat.length_toDigits_le_iff (by omega) (by omega)).mpr x.toNat_lt
  rw [parseField, if_pos ⟨Nat.toDigits_ne_nil, hlength⟩, IP.appendHex, hexNumber_toDigits,
    Option.map_some, UInt16.ofNat_toNat]

theorem not_special_of_hexDigit {c : Char} (h : (hexDigit c).isSome) :
    c ∉ ['.', ':', '%'] := by
  intro hmem
  have hall : ∀ d ∈ ['.', ':', '%'], (hexDigit d).isSome = false := by
    intro d hmem
    simp only [List.mem_cons, List.not_mem_nil, or_false] at hmem
    rcases hmem with rfl | rfl | rfl <;> rfl
  rw [hall c hmem] at h
  cases h

theorem special_not_mem_appendHex (x : UInt16) : ∀ c ∈ ['.', ':', '%'], c ∉ IP.appendHex x := by
  intro c hc hmem
  exact not_special_of_hexDigit (hexDigit_of_mem hmem) hc

theorem mapM_appendHex (fields : List UInt16) :
    (fields.map IP.appendHex).mapM parseField = some fields := by
  induction fields with
  | nil => rfl
  | cons x fields ih =>
    rw [List.map_cons, List.mapM_cons, parseField_appendHex, ih]
    rfl

theorem splitOn_joinFields {fields : List UInt16} (h : fields ≠ []) :
    (IP.joinFields fields).splitOn ':' = fields.map IP.appendHex := by
  refine List.splitOn_intercalate ':' ?_ ?_
  · intro l hl
    obtain ⟨x, -, rfl⟩ := List.mem_map.mp hl
    exact special_not_mem_appendHex x ':' (by simp)
  · simpa using h

theorem joinFields_singleton (x : UInt16) : IP.joinFields [x] = IP.appendHex x := by
  simp [IP.joinFields, List.intercalate]

theorem joinFields_cons (x y : UInt16) (fields : List UInt16) :
    IP.joinFields (x :: y :: fields) =
      IP.appendHex x ++ ':' :: IP.joinFields (y :: fields) := by
  simp [IP.joinFields, List.intercalate]

theorem joinFields_head (x : UInt16) (fields : List UInt16) :
    ∃ c cs, IP.joinFields (x :: fields) = c :: cs ∧ c ≠ ':' := by
  obtain ⟨c, cs, hcs⟩ : ∃ c cs, IP.appendHex x = c :: cs :=
    List.exists_cons_of_ne_nil Nat.toDigits_ne_nil
  have hc : c ≠ ':' := by
    intro heq
    refine special_not_mem_appendHex x ':' (by simp) ?_
    rw [hcs, heq]
    exact List.mem_cons_self
  cases fields with
  | nil => exact ⟨c, cs, (joinFields_singleton x).trans hcs, hc⟩
  | cons y fields =>
    refine ⟨c, cs ++ ':' :: IP.joinFields (y :: fields), ?_, hc⟩
    rw [joinFields_cons, hcs, List.cons_append]

theorem joinFields_ne_nil (x : UInt16) (fields : List UInt16) :
    IP.joinFields (x :: fields) ≠ [] := by
  obtain ⟨c, cs, hcs, -⟩ := joinFields_head x fields
  rw [hcs]
  exact List.cons_ne_nil c cs

theorem parseFields_joinFields (fields : List UInt16) :
    parseFields (IP.joinFields fields) = some fields := by
  cases fields with
  | nil => rfl
  | cons x fields =>
    rw [parseFields, if_neg (joinFields_ne_nil x fields), splitOn_joinFields (List.cons_ne_nil _ _)]
    exact mapM_appendHex _

theorem parseTail_joinFields (fields : List UInt16) :
    parseTail (IP.joinFields fields) = some fields := by
  have hdot : '.' ∉ ((IP.joinFields fields).splitOn ':').getLast?.getD [] := by
    cases fields with
    | nil => simp [IP.joinFields]
    | cons x fields =>
      rw [splitOn_joinFields (List.cons_ne_nil _ _)]
      cases hlast : ((x :: fields).map IP.appendHex).getLast? with
      | none => simp
      | some piece =>
        obtain ⟨y, -, rfl⟩ := List.mem_map.mp (List.mem_of_getLast? hlast)
        exact special_not_mem_appendHex y '.' (by simp)
  rw [parseTail, if_neg hdot]
  exact parseFields_joinFields fields

theorem cutEllipsis_cons {c : Char} {rest : List Char}
    (h : ∀ tail, c = ':' → rest ≠ ':' :: tail) :
    cutEllipsis (c :: rest) =
      (cutEllipsis rest).map fun (before, after) => (c :: before, after) := by
  rw [cutEllipsis]
  intro tail hc hrest
  exact h tail hc hrest

@[simp] theorem cutEllipsis_nil : cutEllipsis [] = none := rfl

@[simp] theorem cutEllipsis_here (rest : List Char) :
    cutEllipsis (':' :: ':' :: rest) = some ([], rest) := rfl

/-- A text without colons does not hold the ellipsis, nor part of it. -/
theorem cutEllipsis_append {cs : List Char} (h : ':' ∉ cs) (rest : List Char) :
    cutEllipsis (cs ++ rest) =
      (cutEllipsis rest).map fun (before, after) => (cs ++ before, after) := by
  induction cs with
  | nil => simp
  | cons c cs ih =>
    have hc : c ≠ ':' := fun heq => h (heq ▸ List.mem_cons_self)
    have hcut := @cutEllipsis_cons c (cs ++ rest) fun _ heq => absurd heq hc
    rw [List.cons_append, hcut, ih fun hmem => h (List.mem_cons_of_mem _ hmem), Option.map_map]
    rfl

theorem cutEllipsis_colon {c : Char} (hc : c ≠ ':') (rest : List Char) :
    cutEllipsis (':' :: c :: rest) =
      (cutEllipsis (c :: rest)).map fun (before, after) => (':' :: before, after) :=
  cutEllipsis_cons fun _ _ heq => hc (List.cons.inj heq).1

theorem cutEllipsis_joinFields (fields : List UInt16) (rest : List Char) :
    cutEllipsis (IP.joinFields fields ++ ':' :: ':' :: rest) =
      some (IP.joinFields fields, rest) := by
  induction fields with
  | nil => rfl
  | cons x fields ih =>
    have hx := special_not_mem_appendHex x ':' (by simp)
    cases fields with
    | nil =>
      rw [joinFields_singleton, cutEllipsis_append hx, cutEllipsis_here]
      simp
    | cons y fields =>
      obtain ⟨c, cs, hcs, hc⟩ := joinFields_head y fields
      rw [hcs, List.cons_append] at ih
      rw [joinFields_cons, hcs, List.append_assoc, List.cons_append, List.cons_append,
        cutEllipsis_append hx, cutEllipsis_colon hc, ih]
      rfl

theorem cutEllipsis_joinFields_none (fields : List UInt16) :
    cutEllipsis (IP.joinFields fields) = none := by
  induction fields with
  | nil => rfl
  | cons x fields ih =>
    have hx := special_not_mem_appendHex x ':' (by simp)
    cases fields with
    | nil =>
      have hcut := cutEllipsis_append hx []
      rw [List.append_nil] at hcut
      rw [joinFields_singleton, hcut, cutEllipsis_nil]
      rfl
    | cons y fields =>
      obtain ⟨c, cs, hcs, hc⟩ := joinFields_head y fields
      rw [hcs] at ih
      rw [joinFields_cons, hcs, cutEllipsis_append hx, cutEllipsis_colon hc, ih]
      rfl

theorem zeroRun_spec {fields : List UInt16} {i n : Nat} (h : IP.zeroRun fields = some (i, n)) :
    2 ≤ n ∧ fields = fields.take i ++ List.replicate n 0 ++ fields.drop (i + n) := by
  have hmem := List.argmax_mem (Option.mem_def.mpr h)
  obtain ⟨hmem, hn⟩ := List.mem_filter.mp hmem
  obtain ⟨k, -, hk⟩ := List.mem_map.mp hmem
  obtain ⟨rfl, rfl⟩ := Prod.mk.inj hk
  refine ⟨of_decide_eq_true hn, ?_⟩
  have hzeros : (fields.drop k).takeWhile (· = 0) =
      List.replicate ((fields.drop k).takeWhile (· = 0)).length 0 := by
    rw [List.eq_replicate_iff]
    exact ⟨rfl, fun x hx => by simpa using List.mem_takeWhile_imp hx⟩
  have hsplit := List.takeWhile_append_dropWhile (p := (· = 0)) (l := fields.drop k)
  have hdrop : (fields.drop k).drop ((fields.drop k).takeWhile (· = 0)).length =
      (fields.drop k).dropWhile (· = 0) := by
    have hleft := @List.drop_left _ ((fields.drop k).takeWhile (· = 0))
      ((fields.drop k).dropWhile (· = 0))
    rw [hsplit] at hleft
    exact hleft
  rw [← hzeros, ← List.drop_drop, hdrop, List.append_assoc, hsplit, List.take_append_drop]

theorem mem_joinFields {fields : List UInt16} {c : Char} (h : c ∈ IP.joinFields fields) :
    c = ':' ∨ (hexDigit c).isSome := by
  induction fields with
  | nil => cases h
  | cons x fields ih =>
    cases fields with
    | nil =>
      rw [joinFields_singleton] at h
      exact .inr (hexDigit_of_mem h)
    | cons y fields =>
      rw [joinFields_cons] at h
      rcases List.mem_append.mp h with h | h
      · exact .inr (hexDigit_of_mem h)
      · rcases List.mem_cons.mp h with h | h
        · exact .inl h
        · exact ih h

theorem mem_fieldsText {fields : List UInt16} {c : Char} (h : c ∈ IP.fieldsText fields) :
    c = ':' ∨ (hexDigit c).isSome := by
  rw [IP.fieldsText] at h
  split at h
  · rcases List.mem_append.mp h with h | h
    · exact mem_joinFields h
    · rcases List.mem_cons.mp h with h | h
      · exact .inl h
      · rcases List.mem_cons.mp h with h | h
        · exact .inl h
        · exact mem_joinFields h
  · exact mem_joinFields h

theorem colon_mem_fieldsText (fields : Fields) : ':' ∈ IP.fieldsText fields.toList := by
  rw [IP.fieldsText]
  split
  · simp
  · obtain ⟨_ | ⟨x, _ | ⟨y, rest⟩⟩, hlength⟩ := fields
    · cases hlength
    · cases hlength
    · show ':' ∈ IP.joinFields (x :: y :: rest)
      rw [joinFields_cons]
      simp

theorem parseIPv6_fieldsText (fields : Fields) : parseIPv6 (IP.fieldsText fields.toList) = some fields := by
  have hfields : fieldsOf fields.toList = some fields := dif_pos fields.toList_length
  rw [IP.fieldsText]
  cases hrun : IP.zeroRun fields.toList with
  | none =>
    show parseIPv6 (IP.joinFields fields.toList) = some fields
    rw [parseIPv6, cutEllipsis_joinFields_none, parseTail_joinFields]
    exact hfields
  | some run =>
    obtain ⟨i, n⟩ := run
    obtain ⟨hn, hsplit⟩ := zeroRun_spec hrun
    have hlength := congrArg List.length hsplit
    rw [fields.toList_length, List.length_append, List.length_append, List.length_replicate] at hlength
    have hlt : (fields.toList.take i).length + (fields.toList.drop (i + n)).length < 8 := by omega
    have hzeros : 8 - ((fields.toList.take i).length + (fields.toList.drop (i + n)).length) = n := by
      omega
    show parseIPv6 (IP.joinFields _ ++ ':' :: ':' :: IP.joinFields _) = some fields
    rw [parseIPv6, cutEllipsis_joinFields]
    show (do
      let before ← parseFields _
      let after ← parseTail _
      if before.length + after.length < 8 then
        fieldsOf (before ++ List.replicate (8 - (before.length + after.length)) 0 ++ after)
      else none) = some fields
    rw [parseFields_joinFields, parseTail_joinFields]
    simp only [Option.bind_eq_bind, Option.bind_some]
    rw [if_pos hlt, hzeros, ← hsplit]
    exact hfields

theorem parseAddr_fieldsText (fields : Fields) :
    parseAddr (IP.fieldsText fields.toList) = some ⟨.v6 fields, []⟩ := by
  have hfind : (IP.fieldsText fields.toList).find? (· ∈ ['.', ':', '%']) = some ':' := by
    cases hfind : (IP.fieldsText fields.toList).find? (· ∈ ['.', ':', '%']) with
    | none =>
      have hcolon := List.find?_eq_none.mp hfind ':' (colon_mem_fieldsText fields)
      simp at hcolon
    | some c =>
      have hc : c ∈ ['.', ':', '%'] := by simpa using List.find?_some hfind
      rcases mem_fieldsText (List.mem_of_find?_eq_some hfind) with rfl | hdigit
      · rfl
      · exact absurd hc (not_special_of_hexDigit hdigit)
  have hzone : (IP.fieldsText fields.toList).dropWhile (· ≠ '%') = [] := by
    rw [List.dropWhile_eq_nil_iff]
    intro c hc
    rcases mem_fieldsText hc with rfl | hdigit
    · decide
    · have hne : c ≠ '%' := by
        rintro rfl
        exact not_special_of_hexDigit hdigit (by simp)
      exact decide_eq_true hne
  rw [parseAddr, hfind]
  show (match (IP.fieldsText fields.toList).dropWhile (· ≠ '%') with
    | [] => _
    | _ :: _ => _) = _
  rw [hzone]
  show (parseIPv6 (IP.fieldsText fields.toList)).map _ = _
  rw [parseIPv6_fieldsText]
  rfl

theorem isDigit_of_mem_appendDecimal {x : UInt8} {c : Char} (h : c ∈ IP.appendDecimal x) :
    c.isDigit = true := Nat.isDigit_of_mem_toDigits (by omega) (by omega) h

theorem parseIPv4Fields_join (a b c d : UInt8) :
    parseIPv4Fields (['.'].intercalate ([a, b, c, d].map IP.appendDecimal)) = some (a, b, c, d) := by
  have hsplit : (['.'].intercalate ([a, b, c, d].map IP.appendDecimal)).splitOn '.' =
      [a, b, c, d].map IP.appendDecimal := by
    refine List.splitOn_intercalate '.' ?_ (by simp)
    intro l hl hdot
    obtain ⟨x, -, rfl⟩ := List.mem_map.mp hl
    have hdigit := isDigit_of_mem_appendDecimal hdot
    simp at hdigit
  have hfields : ([a, b, c, d].map IP.appendDecimal).mapM parseDecimal = some [a, b, c, d] := by
    simp only [List.map_cons, List.map_nil, List.mapM_cons, List.mapM_nil,
      parseDecimal_appendDecimal]
    rfl
  rw [parseIPv4Fields, hsplit, hfields]

theorem mem_dotted {a b c d : UInt8} {e : Char}
    (h : e ∈ ['.'].intercalate ([a, b, c, d].map IP.appendDecimal)) :
    e = '.' ∨ e.isDigit = true := by
  simp only [List.intercalate, List.map_cons, List.map_nil, List.intersperse,
    List.flatten_cons, List.flatten_nil, List.mem_append, List.mem_singleton] at h
  rcases h with h | h | h | h | h | h | h | h
  · exact .inr (isDigit_of_mem_appendDecimal h)
  · exact .inl h
  · exact .inr (isDigit_of_mem_appendDecimal h)
  · exact .inl h
  · exact .inr (isDigit_of_mem_appendDecimal h)
  · exact .inl h
  · exact .inr (isDigit_of_mem_appendDecimal h)
  · cases h

theorem parseAddr_dotted (a b c d : UInt8) :
    parseAddr (['.'].intercalate ([a, b, c, d].map IP.appendDecimal)) =
      some ⟨.v4 a b c d, []⟩ := by
  have hfind : (['.'].intercalate ([a, b, c, d].map IP.appendDecimal)).find?
      (· ∈ ['.', ':', '%']) = some '.' := by
    cases hfind : (['.'].intercalate ([a, b, c, d].map IP.appendDecimal)).find?
      (· ∈ ['.', ':', '%']) with
    | none =>
      have hdot := List.find?_eq_none.mp hfind '.' (by simp [List.intercalate])
      simp at hdot
    | some e =>
      have he : e ∈ ['.', ':', '%'] := by simpa using List.find?_some hfind
      rcases mem_dotted (List.mem_of_find?_eq_some hfind) with rfl | hdigit
      · rfl
      · have hall : ∀ e ∈ ['.', ':', '%'], e.isDigit = false := by
          intro e hmem
          simp only [List.mem_cons, List.not_mem_nil, or_false] at hmem
          rcases hmem with rfl | rfl | rfl <;> rfl
        rw [hall e he] at hdigit
        cases hdigit
  rw [parseAddr, hfind]
  show (parseIPv4Fields _).map _ = _
  rw [parseIPv4Fields_join]
  rfl

/-- The text of an address is read as the address, without a zone. -/
theorem parseAddr_string (ip : IP) : parseAddr ip.string = some ⟨ip.canonical, []⟩ := by
  unfold IP.string IP.canonical
  cases hv4 : ip.to4 with
  | some bytes =>
    obtain ⟨a, b, c, d⟩ := bytes
    exact parseAddr_dotted a b c d
  | none =>
    cases ip with
    | v4 a b c d => cases hv4
    | v6 fields => exact parseAddr_fieldsText fields

theorem bracket_not_mem_string (ip : IP) : '[' ∉ ip.string ∧ ']' ∉ ip.string := by
  unfold IP.string
  cases hv4 : ip.to4 with
  | some bytes =>
    obtain ⟨a, b, c, d⟩ := bytes
    constructor
    · intro hmem
      exact absurd (mem_dotted hmem) (by decide)
    · intro hmem
      exact absurd (mem_dotted hmem) (by decide)
  | none =>
    cases ip with
    | v4 a b c d => cases hv4
    | v6 fields =>
      constructor
      · intro hmem
        exact absurd (mem_fieldsText hmem) (by decide)
      · intro hmem
        exact absurd (mem_fieldsText hmem) (by decide)

end roundTrip

section canonical

/-- The canonical form of an address has its IPv4 bytes, and else its fields. -/
@[simp] theorem to4_canonical (ip : IP) : ip.canonical.to4 = ip.to4 := by
  rw [IP.canonical]
  cases hv4 : ip.to4 with
  | some bytes => rfl
  | none => exact hv4

theorem canonical_cases (ip : IP) :
    ip.canonical = ip ∨ ∃ bytes, ip.to4 = some bytes ∧ ip.canonical.to4 = some bytes := by
  cases hv4 : ip.to4 with
  | some bytes => exact .inr ⟨bytes, rfl, (to4_canonical ip).trans hv4⟩
  | none =>
    left
    rw [IP.canonical, hv4]

@[simp] theorem isLoopback_canonical (ip : IP) : ip.canonical.isLoopback = ip.isLoopback := by
  rcases canonical_cases ip with h | ⟨bytes, h, hc⟩
  · rw [h]
  · unfold IP.isLoopback
    rw [h, hc]

@[simp] theorem isPrivate_canonical (ip : IP) : ip.canonical.isPrivate = ip.isPrivate := by
  rcases canonical_cases ip with h | ⟨bytes, h, hc⟩
  · rw [h]
  · unfold IP.isPrivate
    rw [h, hc]

@[simp] theorem isLinkLocalUnicast_canonical (ip : IP) :
    ip.canonical.isLinkLocalUnicast = ip.isLinkLocalUnicast := by
  rcases canonical_cases ip with h | ⟨bytes, h, hc⟩
  · rw [h]
  · unfold IP.isLinkLocalUnicast
    rw [h, hc]

@[simp] theorem isUnspecified_canonical (ip : IP) :
    ip.canonical.isUnspecified = ip.isUnspecified := by
  rcases canonical_cases ip with h | ⟨bytes, h, hc⟩
  · rw [h]
  · unfold IP.isUnspecified
    rw [h, hc]

end canonical

end Memoark.Net
