/-! `StdEncoding` of Go's `encoding/base64`. -/
namespace Memoark.Go.Base64

def alphabet : List Char :=
  "ABCDEFGHIJKLMNOPQRSTUVWXYZabcdefghijklmnopqrstuvwxyz0123456789+/".toList

def encodeMap (n : Nat) : Char := alphabet.getD n '='

def decodeMap (c : Char) : Option Nat :=
  if c ∈ alphabet then some (alphabet.idxOf c) else none

def encode : List UInt8 → List Char
  | [] => []
  | [a] => [encodeMap (a.toNat / 4), encodeMap (a.toNat % 4 * 16), '=', '=']
  | [a, b] =>
    [encodeMap (a.toNat / 4), encodeMap (a.toNat % 4 * 16 + b.toNat / 16),
      encodeMap (b.toNat % 16 * 4), '=']
  | a :: b :: c :: rest =>
    encodeMap (a.toNat / 4) :: encodeMap (a.toNat % 4 * 16 + b.toNat / 16) ::
      encodeMap (b.toNat % 16 * 4 + c.toNat / 64) :: encodeMap (c.toNat % 64) :: encode rest

def encodeToString (bytes : List UInt8) : String := String.ofList (encode bytes)

def isNewline (c : Char) : Bool := c = '\n' || c = '\r'

def decodeEnd : Nat → List Char → Except Nat Unit
  | _, [] => .ok ()
  | si, c :: rest => if isNewline c then decodeEnd (si + 1) rest else .error si

def decodePad : Nat → List Char → Except Nat Unit
  | si, [] => .error si
  | si, c :: rest =>
    if isNewline c then decodePad (si + 1) rest
    else if c = '=' then decodeEnd (si + 1) rest
    else .error (si - 1)

def quantum : List Nat → List UInt8
  | [a, b] => [UInt8.ofNat (a * 4 + b / 16)]
  | [a, b, c] => [UInt8.ofNat (a * 4 + b / 16), UInt8.ofNat (b % 16 * 16 + c / 4)]
  | [a, b, c, d] =>
    [UInt8.ofNat (a * 4 + b / 16), UInt8.ofNat (b % 16 * 16 + c / 4),
      UInt8.ofNat (c % 4 * 64 + d)]
  | _ => []

/-- The loop over the text from an offset, with the values read of the present quantum. An error is
the offset of a `CorruptInputError`. -/
def decodeQuanta : Nat → List Char → List Nat → Except Nat (List UInt8)
  | _, [], [] => .ok []
  | si, [], dbuf => .error (si - dbuf.length)
  | si, c :: rest, dbuf =>
    match decodeMap c with
    | some v =>
      if dbuf.length = 3 then
        (decodeQuanta (si + 1) rest []).map (quantum (dbuf ++ [v]) ++ ·)
      else decodeQuanta (si + 1) rest (dbuf ++ [v])
    | none =>
      if isNewline c then decodeQuanta (si + 1) rest dbuf
      else if c ≠ '=' then .error si
      else
        match dbuf.length with
        | 2 => (decodePad (si + 1) rest).map fun _ => quantum dbuf
        | 3 => (decodeEnd (si + 1) rest).map fun _ => quantum dbuf
        | _ => .error si

def decodeString (s : String) : Except String (List UInt8) :=
  (decodeQuanta 0 s.toList []).mapError
    fun offset => "illegal base64 data at input byte " ++ toString offset

theorem nodup_alphabet : alphabet.Nodup := by decide +kernel

theorem decodeMap_encodeMap {n : Nat} (h : n < 64) : decodeMap (encodeMap n) = some n := by
  have hlength : n < alphabet.length := h
  have hchar : encodeMap n = alphabet[n] := by
    rw [encodeMap, List.getD_eq_getElem?_getD, List.getElem?_eq_getElem hlength, Option.getD_some]
  rw [hchar, decodeMap, if_pos (List.getElem_mem hlength), nodup_alphabet.idxOf_getElem]

section steps

variable (si : Nat) (rest : List Char) {dbuf : List Nat} {n : Nat}

theorem decodeQuanta_digit (h : n < 64) : decodeQuanta si (encodeMap n :: rest) dbuf =
    if dbuf.length = 3 then (decodeQuanta (si + 1) rest []).map (quantum (dbuf ++ [n]) ++ ·)
    else decodeQuanta (si + 1) rest (dbuf ++ [n]) := by
  rw [decodeQuanta, decodeMap_encodeMap h]

theorem decodeQuanta_char (h : n < 64) (hlength : dbuf.length ≠ 3) :
    decodeQuanta si (encodeMap n :: rest) dbuf = decodeQuanta (si + 1) rest (dbuf ++ [n]) :=
  (decodeQuanta_digit si rest h).trans (if_neg hlength)

theorem decodeQuanta_last (h : n < 64) (hlength : dbuf.length = 3) :
    decodeQuanta si (encodeMap n :: rest) dbuf =
      (decodeQuanta (si + 1) rest []).map (quantum (dbuf ++ [n]) ++ ·) :=
  (decodeQuanta_digit si rest h).trans (if_pos hlength)

theorem decodeQuanta_full {a b c d : Nat} (ha : a < 64) (hb : b < 64) (hc : c < 64) (hd : d < 64) :
    decodeQuanta si (encodeMap a :: encodeMap b :: encodeMap c :: encodeMap d :: rest) [] =
      (decodeQuanta (si + 4) rest []).map (quantum [a, b, c, d] ++ ·) := by
  rw [decodeQuanta_char _ _ ha (by simp), decodeQuanta_char _ _ hb (by simp),
    decodeQuanta_char _ _ hc (by simp), decodeQuanta_last _ _ hd (by simp)]
  rfl

theorem decodeQuanta_pad2 (a b : Nat) :
    decodeQuanta si ['=', '='] [a, b] = .ok (quantum [a, b]) := rfl

theorem decodeQuanta_pad1 (a b c : Nat) :
    decodeQuanta si ['='] [a, b, c] = .ok (quantum [a, b, c]) := rfl

end steps

theorem ofNat_eq {a : UInt8} {n : Nat} (h : n = a.toNat) : UInt8.ofNat n = a := by
  rw [h, UInt8.ofNat_toNat]

theorem decodeQuanta_encode (bytes : List UInt8) (si : Nat) :
    decodeQuanta si (encode bytes) [] = .ok bytes := by
  induction bytes using encode.induct generalizing si with
  | case1 => rfl
  | case2 a =>
    have ha := a.toNat_lt
    have hbyte : UInt8.ofNat (a.toNat / 4 * 4 + a.toNat % 4 * 16 / 16) = a := ofNat_eq (by omega)
    rw [encode, decodeQuanta_char _ _ (by omega) (by simp),
      decodeQuanta_char _ _ (by omega) (by simp), List.nil_append, List.singleton_append,
      decodeQuanta_pad2, quantum, hbyte]
  | case3 a b =>
    have ha := a.toNat_lt
    have hb := b.toNat_lt
    have hfirst : UInt8.ofNat (a.toNat / 4 * 4 + (a.toNat % 4 * 16 + b.toNat / 16) / 16) = a :=
      ofNat_eq (by omega)
    have hsecond : UInt8.ofNat ((a.toNat % 4 * 16 + b.toNat / 16) % 16 * 16 +
        b.toNat % 16 * 4 / 4) = b := ofNat_eq (by omega)
    rw [encode, decodeQuanta_char _ _ (by omega) (by simp),
      decodeQuanta_char _ _ (by omega) (by simp), decodeQuanta_char _ _ (by omega) (by simp),
      List.nil_append, List.singleton_append, List.cons_append, List.singleton_append,
      decodeQuanta_pad1, quantum, hfirst, hsecond]
  | case4 a b c rest ih =>
    have ha := a.toNat_lt
    have hb := b.toNat_lt
    have hc := c.toNat_lt
    rw [encode, decodeQuanta_full si _ (by omega) (by omega) (by omega) (by omega), ih]
    have hfirst : UInt8.ofNat (a.toNat / 4 * 4 + (a.toNat % 4 * 16 + b.toNat / 16) / 16) = a :=
      ofNat_eq (by omega)
    have hsecond : UInt8.ofNat ((a.toNat % 4 * 16 + b.toNat / 16) % 16 * 16 +
        (b.toNat % 16 * 4 + c.toNat / 64) / 4) = b := ofNat_eq (by omega)
    have hthird : UInt8.ofNat ((b.toNat % 16 * 4 + c.toNat / 64) % 4 * 64 + c.toNat % 64) = c :=
      ofNat_eq (by omega)
    change Except.ok ([_, _, _] ++ rest) = _
    rw [hfirst, hsecond, hthird]
    rfl

theorem decodeString_encodeToString (bytes : List UInt8) :
    decodeString (encodeToString bytes) = .ok bytes := by
  rw [decodeString, encodeToString, String.toList_ofList, decodeQuanta_encode]
  rfl

example : encodeToString [8, 2, 16, 6] = "CAIQBg==" := by decide

end Memoark.Go.Base64
