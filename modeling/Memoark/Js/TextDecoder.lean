import Memoark.Js.Strings

/-! The streaming `TextDecoder`, which reads UTF-8 byte by byte. -/
namespace Memoark.Js

/-- The UTF-8 decoder of the Encoding Standard, and whether the byte order mark is behind it. -/
structure TextDecoder where
  codePoint : Nat
  bytesSeen : Nat
  bytesNeeded : Nat
  lowerBoundary : Nat
  upperBoundary : Nat
  bomSeen : Bool

namespace TextDecoder

def ready (bomSeen : Bool) : TextDecoder := ⟨0, 0, 0, 0x80, 0xBF, bomSeen⟩

def new : TextDecoder := ready false

def emit (d : TextDecoder) (c : Char) : TextDecoder × List Char :=
  ({ d with bomSeen := true }, if d.bomSeen = false ∧ c = '\uFEFF' then [] else [c])

def lead (d : TextDecoder) (byte : Nat) : TextDecoder × List Char :=
  if byte ≤ 0x7F then d.emit (Char.ofNat byte)
  else if 0xC2 ≤ byte ∧ byte ≤ 0xDF then
    ({ d with bytesNeeded := 1, codePoint := byte % 0x20 }, [])
  else if 0xE0 ≤ byte ∧ byte ≤ 0xEF then
    ({ d with
      lowerBoundary := if byte = 0xE0 then 0xA0 else d.lowerBoundary
      upperBoundary := if byte = 0xED then 0x9F else d.upperBoundary
      bytesNeeded := 2
      codePoint := byte % 0x10 }, [])
  else if 0xF0 ≤ byte ∧ byte ≤ 0xF4 then
    ({ d with
      lowerBoundary := if byte = 0xF0 then 0x90 else d.lowerBoundary
      upperBoundary := if byte = 0xF4 then 0x8F else d.upperBoundary
      bytesNeeded := 3
      codePoint := byte % 0x08 }, [])
  else d.emit '\uFFFD'

def push (d : TextDecoder) (byte : Nat) : TextDecoder × List Char :=
  if d.bytesNeeded = 0 then d.lead byte
  else if byte < d.lowerBoundary ∨ d.upperBoundary < byte then
    -- The byte is read again, as the first one of a character.
    let (d, error) := (ready d.bomSeen).emit '\uFFFD'
    let (d, chars) := d.lead byte
    (d, error ++ chars)
  else
    let codePoint := d.codePoint * 0x40 + byte % 0x40
    if d.bytesSeen + 1 = d.bytesNeeded then (ready d.bomSeen).emit (Char.ofNat codePoint)
    else
      ({ d with
        lowerBoundary := 0x80
        upperBoundary := 0xBF
        codePoint := codePoint
        bytesSeen := d.bytesSeen + 1 }, [])

def decode (d : TextDecoder) : List UInt8 → TextDecoder × List Char
  | [] => (d, [])
  | byte :: bytes =>
    let pushed := d.push byte.toNat
    let rest := pushed.1.decode bytes
    (rest.1, pushed.2 ++ rest.2)

theorem decode_append (d : TextDecoder) (as bs : List UInt8) : d.decode (as ++ bs) =
    (((d.decode as).1.decode bs).1, (d.decode as).2 ++ ((d.decode as).1.decode bs).2) := by
  induction as generalizing d with
  | nil => rfl
  | cons a as ih =>
    rw [List.cons_append, decode, ih, decode]
    simp only [List.append_assoc]

section character

variable {d d' : TextDecoder} {b : Bool} {c : Char} {m n codePoint seen needed lower upper : Nat}

theorem toNat_byte (h : n < 256) : (UInt8.ofNat n).toNat = n := UInt8.toNat_ofNat_of_lt h

theorem decode_cons (hn : n < 256) (h : d.push n = (d', [])) (bytes : List UInt8) :
    d.decode (UInt8.ofNat n :: bytes) = d'.decode bytes := by
  rw [decode, toNat_byte hn, h]
  rfl

theorem decode_single (hn : n < 256) (h : d.push n = (ready b).emit c) :
    d.decode [UInt8.ofNat n] = (ready b).emit c := by
  rw [decode, toNat_byte hn, h]
  exact Prod.ext rfl (List.append_nil _)

theorem push_ascii (h : n ≤ 0x7F) : (ready b).push n = (ready b).emit (Char.ofNat n) := by
  rw [push, if_pos (by rfl), lead, if_pos h]

theorem push_lead2 (hlower : 0xC2 ≤ n) (hupper : n ≤ 0xDF) : (ready b).push n =
    (⟨n % 0x20, 0, 1, 0x80, 0xBF, b⟩, []) := by
  rw [push, if_pos (by rfl), lead, if_neg (by omega), if_pos ⟨hlower, hupper⟩]
  rfl

theorem push_lead3 (hlower : 0xE0 ≤ n) (hupper : n ≤ 0xEF) : (ready b).push n =
    (⟨n % 0x10, 0, 2, if n = 0xE0 then 0xA0 else 0x80, if n = 0xED then 0x9F else 0xBF, b⟩, []) := by
  rw [push, if_pos (by rfl), lead, if_neg (by omega), if_neg (by omega), if_pos ⟨hlower, hupper⟩]
  rfl

theorem push_lead4 (hlower : 0xF0 ≤ n) (hupper : n ≤ 0xF4) : (ready b).push n =
    (⟨n % 0x08, 0, 3, if n = 0xF0 then 0x90 else 0x80, if n = 0xF4 then 0x8F else 0xBF, b⟩, []) := by
  rw [push, if_pos (by rfl), lead, if_neg (by omega), if_neg (by omega), if_neg (by omega),
    if_pos ⟨hlower, hupper⟩]
  rfl

theorem push_middle (hneeded : seen + 1 < needed) (hlower : lower ≤ n) (hupper : n ≤ upper) :
    push ⟨codePoint, seen, needed, lower, upper, b⟩ n =
      (⟨codePoint * 0x40 + n % 0x40, seen + 1, needed, 0x80, 0xBF, b⟩, []) := by
  unfold push
  dsimp only
  rw [if_neg (by omega), if_neg (by omega), if_neg (by omega)]

theorem push_last (hneeded : seen + 1 = needed) (hlower : lower ≤ n) (hupper : n ≤ upper)
    (hm : codePoint * 0x40 + n % 0x40 = m) :
    push ⟨codePoint, seen, needed, lower, upper, b⟩ n = (ready b).emit (Char.ofNat m) := by
  unfold push
  dsimp only
  rw [if_neg (by omega), if_neg (by omega), if_pos hneeded, hm]

theorem decode_char (b : Bool) (c : Char) :
    (ready b).decode (String.utf8EncodeChar c) = (ready b).emit c := by
  obtain ⟨v, hv⟩ : ∃ v, c.toNat = v := ⟨_, rfl⟩
  have hvalid := toNat_lt_of_valid c
  have hc : Char.ofNat v = c := hv ▸ Char.ofNat_toNat c
  have hnat : c.val.toNat = v := hv
  unfold String.utf8EncodeChar
  dsimp only
  rw [hv] at hvalid
  rw [hnat, ← hc]
  split
  · exact decode_single (by omega) (push_ascii (by omega))
  · split
    · have hone := push_lead2 (b := b) (n := v / 64 % 0x20 + 0xc0) (by omega) (by omega)
      rw [decode_cons (by omega) hone]
      exact decode_single (by omega) (push_last rfl (by omega) (by omega) (by omega))
    · split
      · have hone := push_lead3 (b := b) (n := v / 4096 % 0x10 + 0xe0) (by omega) (by omega)
        rw [decode_cons (by omega) hone, decode_cons (by omega)
          (push_middle (by omega) (by split <;> omega) (by split <;> omega))]
        exact decode_single (by omega) (push_last rfl (by omega) (by omega) (by omega))
      · have hone := push_lead4 (b := b) (n := v / 262144 % 0x08 + 0xf0) (by omega) (by omega)
        rw [decode_cons (by omega) hone, decode_cons (by omega)
          (push_middle (by omega) (by split <;> omega) (by split <;> omega)),
          decode_cons (by omega) (push_middle (by omega) (by omega) (by omega))]
        exact decode_single (by omega) (push_last rfl (by omega) (by omega) (by omega))

theorem emit_ready (c : Char) : (ready true).emit c = (ready true, [c]) := rfl

theorem decode_utf8 (cs : List Char) :
    (ready true).decode (cs.flatMap String.utf8EncodeChar) = (ready true, cs) := by
  induction cs with
  | nil => rfl
  | cons c cs ih =>
    rw [List.flatMap_cons, decode_append, decode_char, emit_ready, ih]
    rfl

theorem decode_new {c : Char} (h : c ≠ '\uFEFF') (cs : List Char) :
    new.decode ((c :: cs).flatMap String.utf8EncodeChar) = (ready true, c :: cs) := by
  have hemit : (ready false).emit c = (ready true, [c]) := by
    rw [emit, if_neg fun hbom => h hbom.2]
    rfl
  rw [List.flatMap_cons, decode_append, new, decode_char, hemit, decode_utf8]
  rfl

/-- The bytes of ASCII never continue a character. -/
theorem lower_push (h : 0x80 ≤ d.lowerBoundary) (n : Nat) : 0x80 ≤ (d.push n).1.lowerBoundary := by
  have hlead : ∀ d : TextDecoder, 0x80 ≤ d.lowerBoundary → 0x80 ≤ (d.lead n).1.lowerBoundary := by
    intro d h
    unfold lead
    split
    · exact h
    · split
      · exact h
      · split
        · dsimp only
          split
          · decide
          · exact h
        · split
          · dsimp only
            split
            · decide
            · exact h
          · exact h
  unfold push
  split
  · exact hlead d h
  · split
    · exact hlead _ (Nat.le_refl 0x80)
    · dsimp only
      split <;> exact Nat.le_refl 0x80

theorem lower_decode (h : 0x80 ≤ d.lowerBoundary) (bytes : List UInt8) :
    0x80 ≤ (d.decode bytes).1.lowerBoundary := by
  induction bytes generalizing d with
  | nil => exact h
  | cons byte bytes ih => exact ih (lower_push h byte.toNat)

theorem decode_newline (h : 0x80 ≤ d.lowerBoundary) : (d.decode [10]).2 ≠ [] := by
  have hlead : ∀ d : TextDecoder, (d.lead 10).2 = ['\n'] := by
    intro d
    rw [lead, if_pos (by decide), emit]
    exact if_neg fun hbom => absurd hbom.2 (by decide)
  change (d.push 10).2 ++ [] ≠ []
  rw [List.append_nil, push]
  split
  · rw [hlead]
    exact List.cons_ne_nil _ _
  · rw [if_pos (.inl (by omega))]
    dsimp only
    rw [hlead]
    exact List.append_ne_nil_of_right_ne_nil _ (List.cons_ne_nil _ _)

end character

end TextDecoder

end Memoark.Js
