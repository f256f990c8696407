/-! JSON values as a syntax tree: number literals and the order and repetition of members are
kept. -/
namespace Memoark

inductive Json where
  | null
  | bool (b : Bool)
  | num (literal : String)
  | str (text : String)
  | arr (items : List Json)
  | obj (members : List (String × Json))

namespace Json

def lookup (key : String) : List (String × Json) → Option Json
  | [] => none
  | (k, v) :: members =>
    match lookup key members with
    | some w => some w
    | none => if k = key then some v else none

def size : Json → Nat
  | .arr items => 1 + sizeItems items
  | .obj members => 1 + sizeMembers members
  | _ => 1
where
  sizeItems : List Json → Nat
    | [] => 0
    | v :: vs => size v + sizeItems vs
  sizeMembers : List (String × Json) → Nat
    | [] => 0
    | (_, v) :: ms => size v + sizeMembers ms

theorem one_le_size (v : Json) : 1 ≤ v.size := by
  cases v <;> simp only [size] <;> omega

theorem length_le_sizeItems (items : List Json) : items.length ≤ size.sizeItems items := by
  induction items with
  | nil => simp
  | cons v vs ih =>
    have hv := one_le_size v
    simp only [List.length_cons, size.sizeItems]
    omega

end Json

end Memoark

/-! The tokens of RFC 8259 as `encoding/json` reads them. -/
namespace Memoark.Json

def isSpace (c : Char) : Bool := c = ' ' || c = '\t' || c = '\n' || c = '\r'

def skipSpace (cs : List Char) : List Char := cs.dropWhile isSpace

/-- A character of a string, or a `\u` escape: a UTF-16 code unit. -/
inductive Piece where
  | char (c : Char)
  | unit (u : Nat)

def hexDigit (c : Char) : Option Nat :=
  if '0' ≤ c ∧ c ≤ '9' then some (c.toNat - '0'.toNat)
  else if 'a' ≤ c ∧ c ≤ 'f' then some (c.toNat - 'a'.toNat + 10)
  else if 'A' ≤ c ∧ c ≤ 'F' then some (c.toNat - 'A'.toNat + 10)
  else none

def hexUnit (a b c d : Char) : Option Nat := do
  let a ← hexDigit a
  let b ← hexDigit b
  let c ← hexDigit c
  let d ← hexDigit d
  pure (((a * 16 + b) * 16 + c) * 16 + d)

def unescape : Char → Option Char
  | '"' => some '"'
  | '\\' => some '\\'
  | '/' => some '/'
  | 'b' => some '\x08'
  | 'f' => some '\x0c'
  | 'n' => some '\n'
  | 'r' => some '\r'
  | 't' => some '\t'
  | _ => none

def plain (c : Char) : Option Piece := if c.toNat < 0x20 then none else some (.char c)

def push (piece : Option Piece) (scanned : Option (List Piece × List Char)) :
    Option (List Piece × List Char) :=
  match piece, scanned with
  | some p, some (pieces, rest) => some (p :: pieces, rest)
  | _, _ => none

def scanPieces : List Char → Option (List Piece × List Char)
  | [] => none
  | '"' :: cs => some ([], cs)
  | '\\' :: 'u' :: a :: b :: c :: d :: cs => push ((hexUnit a b c d).map .unit) (scanPieces cs)
  | '\\' :: e :: cs => push ((unescape e).map .char) (scanPieces cs)
  | c :: cs => push (plain c) (scanPieces cs)

def isHighSurrogate (u : Nat) : Bool := 0xD800 ≤ u && u < 0xDC00

def isLowSurrogate (u : Nat) : Bool := 0xDC00 ≤ u && u < 0xE000

def unitChar (u : Nat) : Char :=
  if isHighSurrogate u || isLowSurrogate u then '\uFFFD' else Char.ofNat u

def joinPieces : List Piece → List Char
  | [] => []
  | .char c :: pieces => c :: joinPieces pieces
  | .unit u :: .unit v :: pieces =>
    if isHighSurrogate u && isLowSurrogate v then
      Char.ofNat (0x10000 + (u - 0xD800) * 0x400 + (v - 0xDC00)) :: joinPieces pieces
    else unitChar u :: joinPieces (.unit v :: pieces)
  | .unit u :: pieces => unitChar u :: joinPieces pieces

def scanString (cs : List Char) : Option (String × List Char) :=
  (scanPieces cs).map fun (pieces, rest) => (String.ofList (joinPieces pieces), rest)

def isDigit (c : Char) : Bool := '0' ≤ c && c ≤ '9'

def scanDigits (cs : List Char) : List Char × List Char :=
  (cs.takeWhile isDigit, cs.dropWhile isDigit)

def scanInt : List Char → Option (List Char × List Char)
  | '0' :: cs => some (['0'], cs)
  | c :: cs => if isDigit c then some (c :: (scanDigits cs).1, (scanDigits cs).2) else none
  | [] => none

def scanDigits1 (cs : List Char) : Option (List Char × List Char) :=
  if (scanDigits cs).1.isEmpty then none else some (scanDigits cs)

def scanFrac : List Char → Option (List Char × List Char)
  | '.' :: cs => (scanDigits1 cs).map fun (ds, rest) => ('.' :: ds, rest)
  | cs => some ([], cs)

def scanExp : List Char → Option (List Char × List Char)
  | e :: cs =>
    if e = 'e' ∨ e = 'E' then
      match cs with
      | s :: ds =>
        if s = '+' ∨ s = '-' then
          (scanDigits1 ds).map fun (ds, rest) => (e :: s :: ds, rest)
        else (scanDigits1 cs).map fun (ds, rest) => (e :: ds, rest)
      | [] => none
    else some ([], e :: cs)
  | [] => some ([], [])

def scanUnsigned (cs : List Char) : Option (List Char × List Char) := do
  let (int, cs) ← scanInt cs
  let (frac, cs) ← scanFrac cs
  let (exp, cs) ← scanExp cs
  pure (int ++ frac ++ exp, cs)

def scanNumber : List Char → Option (String × List Char)
  | '-' :: cs => (scanUnsigned cs).map fun (ds, rest) => (String.ofList ('-' :: ds), rest)
  | cs => (scanUnsigned cs).map fun (ds, rest) => (String.ofList ds, rest)

theorem length_skipSpace_le (cs : List Char) : (skipSpace cs).length ≤ cs.length :=
  (List.dropWhile_sublist _).length_le

theorem push_eq_some {piece : Option Piece} {scanned : Option (List Piece × List Char)}
    {pieces : List Piece} {rest : List Char} (h : push piece scanned = some (pieces, rest)) :
    ∃ p ps, piece = some p ∧ scanned = some (ps, rest) ∧ pieces = p :: ps := by
  unfold push at h
  split at h
  · cases h
    exact ⟨_, _, rfl, rfl, rfl⟩
  · cases h

theorem length_scanPieces_lt {cs rest : List Char} {pieces : List Piece}
    (h : scanPieces cs = some (pieces, rest)) : rest.length < cs.length := by
  induction cs using scanPieces.induct generalizing pieces with
  | case1 => cases h
  | case2 cs =>
    cases h
    exact Nat.lt_succ_self _
  | case3 a b c d cs ih =>
    obtain ⟨_, _, _, hrest, _⟩ := push_eq_some h
    have hlt := ih hrest
    simp only [List.length_cons]
    omega
  | case4 e cs hne ih =>
    rw [scanPieces] at h
    · obtain ⟨_, _, _, hrest, _⟩ := push_eq_some h
      have hlt := ih hrest
      simp only [List.length_cons]
      omega
    · exact hne
  | case5 c cs h1 h2 h3 ih =>
    rw [scanPieces] at h
    · obtain ⟨_, _, _, hrest, _⟩ := push_eq_some h
      have hlt := ih hrest
      simp only [List.length_cons]
      omega
    all_goals assumption

theorem length_scanDigits_le (cs : List Char) : (scanDigits cs).2.length ≤ cs.length :=
  (List.dropWhile_sublist _).length_le

theorem length_scanInt_lt {cs ds rest : List Char} (h : scanInt cs = some (ds, rest)) :
    rest.length < cs.length := by
  unfold scanInt at h
  split at h
  · cases h
    exact Nat.lt_succ_self _
  · rename_i c cs _
    have hle := length_scanDigits_le cs
    split at h <;> cases h
    simp only [List.length_cons]
    omega
  · cases h

theorem length_scanDigits1_le {cs ds rest : List Char} (h : scanDigits1 cs = some (ds, rest)) :
    rest.length ≤ cs.length := by
  unfold scanDigits1 at h
  have hle := length_scanDigits_le cs
  split at h <;> cases h
  exact hle

theorem length_scanFrac_le {cs ds rest : List Char} (h : scanFrac cs = some (ds, rest)) :
    rest.length ≤ cs.length := by
  unfold scanFrac at h
  split at h
  · obtain ⟨⟨_, _⟩, hds, heq⟩ := Option.map_eq_some_iff.mp h
    have hle := length_scanDigits1_le hds
    cases heq
    simp only [List.length_cons]
    omega
  · cases h
    exact Nat.le_refl _

theorem length_scanExp_le {cs ds rest : List Char} (h : scanExp cs = some (ds, rest)) :
    rest.length ≤ cs.length := by
  unfold scanExp at h
  split at h
  · split at h
    · split at h
      · split at h
        all_goals
          obtain ⟨⟨_, _⟩, hds, heq⟩ := Option.map_eq_some_iff.mp h
          have hle := length_scanDigits1_le hds
          cases heq
          simp only [List.length_cons] at hle ⊢
          omega
      · cases h
    · cases h
      exact Nat.le_refl _
  · cases h
    exact Nat.le_refl _

theorem length_scanUnsigned_lt {cs ds rest : List Char} (h : scanUnsigned cs = some (ds, rest)) :
    rest.length < cs.length := by
  simp only [scanUnsigned, Option.bind_eq_bind, Option.bind_eq_some_iff] at h
  obtain ⟨⟨_, _⟩, hint, ⟨_, _⟩, hfrac, ⟨_, _⟩, hexp, heq⟩ := h
  have h1 := length_scanInt_lt hint
  have h2 := length_scanFrac_le hfrac
  have h3 := length_scanExp_le hexp
  cases heq
  exact Nat.lt_of_le_of_lt (Nat.le_trans h3 h2) h1

theorem length_scanNumber_lt {cs rest : List Char} {s : String}
    (h : scanNumber cs = some (s, rest)) : rest.length < cs.length := by
  unfold scanNumber at h
  split at h
  · obtain ⟨⟨_, _⟩, hds, heq⟩ := Option.map_eq_some_iff.mp h
    have hlt := length_scanUnsigned_lt hds
    cases heq
    exact Nat.lt_succ_of_lt hlt
  · obtain ⟨⟨_, _⟩, hds, heq⟩ := Option.map_eq_some_iff.mp h
    cases heq
    exact length_scanUnsigned_lt hds

theorem length_scanString_lt {cs rest : List Char} {s : String}
    (h : scanString cs = some (s, rest)) : rest.length < cs.length := by
  obtain ⟨⟨_, _⟩, hpieces, heq⟩ := Option.map_eq_some_iff.mp h
  cases heq
  exact length_scanPieces_lt hpieces

end Memoark.Json
