import Memoark.Js.Strings
import Memoark.Json.Parse

/-! JSON texts with their strings as they are written, and what a string means: a sequence of
UTF-16 code units, which has an encoding in UTF-8 only if its surrogates are paired. -/
namespace Memoark

/-- A JSON value whose strings are still the pieces of their literals. -/
inductive Written where
  | null
  | bool (b : Bool)
  | num (literal : String)
  | str (pieces : List Json.Piece)
  | arr (items : List Written)
  | obj (members : List (List Json.Piece × Written))

namespace Written

def members : Written → List (List Json.Piece × Written)
  | .obj members => members
  | _ => []

def text (pieces : List Json.Piece) : String := String.ofList (Json.joinPieces pieces)

mutual

def decode : Written → Json
  | .null => .null
  | .bool b => .bool b
  | .num literal => .num literal
  | .str pieces => .str (text pieces)
  | .arr items => .arr (decodeItems items)
  | .obj members => .obj (decodeMembers members)

def decodeItems : List Written → List Json
  | [] => []
  | v :: vs => v.decode :: decodeItems vs

def decodeMembers : List (List Json.Piece × Written) → List (String × Json)
  | [] => []
  | (key, v) :: members => (text key, v.decode) :: decodeMembers members

end

def codeUnits : List Json.Piece → List Nat
  | [] => []
  | .char c :: pieces => (Js.charUnits c).map UInt16.toNat ++ codeUnits pieces
  | .unit u :: pieces => u :: codeUnits pieces

def stringUnits (s : String) : List Nat := (Js.utf16 s).map UInt16.toNat

/-- The literal denotes a string that has an encoding in UTF-8. -/
def Encodable (pieces : List Json.Piece) : Prop := ∃ s, codeUnits pieces = stringUnits s

end Written

namespace Json

def beforeColon {α : Type} (key : α) (cs : List Char) : Option (α × List Char) :=
  match skipSpace cs with
  | ':' :: rest => some (key, rest)
  | _ => none

def readKey (cs : List Char) : Option (List Piece × List Char) :=
  match skipSpace cs with
  | '"' :: rest => (scanPieces rest).bind fun scanned => beforeColon scanned.1 scanned.2
  | _ => none

def enclosed {α : Type} (close : Char) (empty : α)
    (inner : Nat → List Char → Option (α × List Char)) : Nat → List Char → Option (α × List Char)
  | 0, _ => none
  | depth + 1, cs =>
    if (skipSpace cs).head? = some close then some (empty, (skipSpace cs).tail)
    else inner depth (skipSpace cs)

mutual

def readValue : Nat → Nat → List Char → Option (Written × List Char)
  | 0, _, _ => none
  | fuel + 1, depth, cs =>
    match skipSpace cs with
    | 'n' :: 'u' :: 'l' :: 'l' :: rest => some (.null, rest)
    | 't' :: 'r' :: 'u' :: 'e' :: rest => some (.bool true, rest)
    | 'f' :: 'a' :: 'l' :: 's' :: 'e' :: rest => some (.bool false, rest)
    | '"' :: rest => (scanPieces rest).map fun (pieces, rest) => (.str pieces, rest)
    | '[' :: rest =>
      (enclosed ']' [] (readItems fuel) depth rest).map fun (vs, rest) => (.arr vs, rest)
    | '\x7b' :: rest =>
      (enclosed '\x7d' [] (readMembers fuel) depth rest).map fun (ms, rest) => (.obj ms, rest)
    | rest => (scanNumber rest).map fun (s, rest) => (.num s, rest)

def readItems : Nat → Nat → List Char → Option (List Written × List Char)
  | 0, _, _ => none
  | fuel + 1, depth, cs =>
    match readValue fuel depth cs with
    | none => none
    | some (v, rest) =>
      match skipSpace rest with
      | ']' :: rest => some ([v], rest)
      | ',' :: rest => (readItems fuel depth rest).map fun (vs, rest) => (v :: vs, rest)
      | _ => none

def readMembers : Nat → Nat → List Char → Option (List (List Piece × Written) × List Char)
  | 0, _, _ => none
  | fuel + 1, depth, cs =>
    match readKey cs with
    | none => none
    | some (key, rest) =>
      match readValue fuel depth rest with
      | none => none
      | some (v, rest) =>
        match skipSpace rest with
        | '\x7d' :: rest => some ([(key, v)], rest)
        | ',' :: rest =>
          (readMembers fuel depth rest).map fun (ms, rest) => ((key, v) :: ms, rest)
        | _ => none

end

def read (cs : List Char) : Option Written :=
  match readValue (2 * cs.length + 2) maxNestingDepth cs with
  | some (v, rest) => if (skipSpace rest).isEmpty then some v else none
  | none => none

theorem parseKey_eq (cs : List Char) :
    parseKey cs = (readKey cs).map fun (key, rest) => (Written.text key, rest) := by
  unfold parseKey readKey
  generalize skipSpace cs = ds
  rcases ds with _ | ⟨d, rest⟩
  · rfl
  by_cases hquote : d = '"'
  · subst hquote
    cases hscan : scanPieces rest with
    | none => simp [scanString, hscan]
    | some scanned =>
      rcases hrest : skipSpace scanned.2 with _ | ⟨d, rest⟩
      · simp [scanString, hscan, beforeColon, hrest]
      · by_cases hcolon : d = ':' <;>
          simp [scanString, hscan, beforeColon, hrest, hcolon, Written.text]
  · simp [hquote]

def ValueReads (fuel : Nat) : Prop := ∀ depth cs,
  parseValue fuel depth cs = (readValue fuel depth cs).map fun (v, rest) => (v.decode, rest)

def ItemsRead (fuel : Nat) : Prop := ∀ depth cs,
  parseItems fuel depth cs =
    (readItems fuel depth cs).map fun (vs, rest) => (Written.decodeItems vs, rest)

def MembersRead (fuel : Nat) : Prop := ∀ depth cs,
  parseMembers fuel depth cs =
    (readMembers fuel depth cs).map fun (ms, rest) => (Written.decodeMembers ms, rest)

theorem itemsRead_succ {fuel : Nat} (hv : ValueReads fuel) (hi : ItemsRead fuel) :
    ItemsRead (fuel + 1) := by
  intro depth cs
  simp only [parseItems, readItems, hv depth cs]
  cases readValue fuel depth cs with
  | none => rfl
  | some result =>
    obtain ⟨v, rest⟩ := result
    dsimp only [Option.map_some]
    generalize skipSpace rest = ds
    split
    · rfl
    · rename_i rest
      rw [hi]
      refine Eq.trans ?_ (Option.map_map _ _ _).symm
      rw [Option.map_map]
      rfl
    · simp_all only [Option.map_none]

theorem membersRead_succ {fuel : Nat} (hv : ValueReads fuel) (hm : MembersRead fuel) :
    MembersRead (fuel + 1) := by
  intro depth cs
  simp only [parseMembers, readMembers, parseKey_eq]
  cases readKey cs with
  | none => rfl
  | some read =>
    obtain ⟨key, rest⟩ := read
    dsimp only [Option.map_some]
    rw [hv]
    cases readValue fuel depth rest with
    | none => rfl
    | some result =>
      obtain ⟨v, rest⟩ := result
      dsimp only [Option.map_some]
      generalize skipSpace rest = ds
      split
      · rfl
      · rename_i rest
        rw [hm]
        refine Eq.trans ?_ (Option.map_map _ _ _).symm
        rw [Option.map_map]
        rfl
      · simp_all only [Option.map_none]

theorem enclosed_succ {α : Type} {close : Char} {empty : α}
    {inner : Nat → List Char → Option (α × List Char)} {depth : Nat} {cs : List Char} :
    (∀ rest, skipSpace cs = close :: rest →
        enclosed close empty inner (depth + 1) cs = some (empty, rest)) ∧
      ((∀ rest, skipSpace cs = close :: rest → False) →
        enclosed close empty inner (depth + 1) cs = inner depth (skipSpace cs)) := by
  rw [enclosed]
  constructor
  · intro rest hrest
    rw [hrest, if_pos (show (close :: rest).head? = some close from rfl)]
    rfl
  · intro hother
    rw [if_neg]
    intro hhead
    obtain ⟨rest, hrest⟩ := List.head?_eq_some_iff.mp hhead
    exact hother rest hrest

theorem valueReads_succ {fuel : Nat} (hi : ItemsRead fuel) (hm : MembersRead fuel) :
    ValueReads (fuel + 1) := by
  intro depth cs
  simp only [parseValue, readValue]
  generalize skipSpace cs = ds
  split
  · rfl
  · rfl
  · rfl
  · unfold scanString
    refine Eq.trans ?_ (Option.map_map _ _ _).symm
    rw [Option.map_map]
    rfl
  · rename_i rest
    refine Eq.trans ?_ (Option.map_map _ _ _).symm
    cases depth with
    | zero => rfl
    | succ depth =>
      dsimp only
      split
      · rename_i hclose
        rw [enclosed_succ.1 _ hclose]
        rfl
      · rename_i hother
        rw [enclosed_succ.2 hother, hi, Option.map_map]
        rfl
  · rename_i rest
    refine Eq.trans ?_ (Option.map_map _ _ _).symm
    cases depth with
    | zero => rfl
    | succ depth =>
      dsimp only
      split
      · rename_i hclose
        rw [enclosed_succ.1 _ hclose]
        rfl
      · rename_i hother
        rw [enclosed_succ.2 hother, hm, Option.map_map]
        rfl
  · have hnumber : (scanNumber ds).map (fun (s, rest) => (Json.num s, rest)) =
        ((scanNumber ds).map fun (s, rest) => (Written.num s, rest)).map
          fun (v, rest) => (v.decode, rest) := by
      rw [Option.map_map]
      rfl
    simp_all only

theorem reads (fuel : Nat) : ValueReads fuel ∧ ItemsRead fuel ∧ MembersRead fuel := by
  induction fuel with
  | zero => exact ⟨fun _ _ => rfl, fun _ _ => rfl, fun _ _ => rfl⟩
  | succ fuel ih =>
    obtain ⟨hv, hi, hm⟩ := ih
    exact ⟨valueReads_succ hi hm, itemsRead_succ hv hi, membersRead_succ hv hm⟩

theorem parse_eq_read (cs : List Char) : parse cs = (read cs).map Written.decode := by
  unfold parse first read
  rw [(reads _).1]
  cases readValue (2 * cs.length + 2) maxNestingDepth cs with
  | none => rfl
  | some result =>
    dsimp only [Option.map_some]
    split <;> rfl

end Json

namespace Written
open Json Js

def listUnits (cs : List Char) : List Nat := (cs.flatMap charUnits).map UInt16.toNat

theorem stringUnits_eq (s : String) : stringUnits s = listUnits s.toList := rfl

theorem listUnits_cons (c : Char) (cs : List Char) :
    listUnits (c :: cs) = (charUnits c).map UInt16.toNat ++ listUnits cs := by
  rw [listUnits, List.flatMap_cons, List.map_append]
  rfl

theorem charUnits_small {c : Char} (h : c.toNat < 0x10000) :
    (charUnits c).map UInt16.toNat = [c.toNat] := by
  rw [charUnits, if_pos h, List.map_singleton, toNat_ofNat_lt h]

theorem charUnits_large {c : Char} (h : ¬c.toNat < 0x10000) :
    (charUnits c).map UInt16.toNat =
      [0xD800 + (c.toNat - 0x10000) / 0x400, 0xDC00 + (c.toNat - 0x10000) % 0x400] := by
  have hc := toNat_lt_of_valid c
  rw [charUnits, if_neg h, List.map_cons, List.map_singleton, toNat_ofNat_lt (by omega),
    toNat_ofNat_lt (by omega)]

/-- The first character can be told from the numbers of the code units. -/
theorem charUnits_append_cancel {c d : Char} {us vs : List Nat}
    (h : (charUnits c).map UInt16.toNat ++ us = (charUnits d).map UInt16.toNat ++ vs) :
    c = d ∧ us = vs := by
  have hc := toNat_lt_of_valid c
  have hd := toNat_lt_of_valid d
  by_cases hsmall : c.toNat < 0x10000
  · by_cases hsmall' : d.toNat < 0x10000
    · rw [charUnits_small hsmall, charUnits_small hsmall'] at h
      obtain ⟨hnat, hrest⟩ := List.cons.inj h
      exact ⟨Char.toNat_inj.mp hnat, hrest⟩
    · rw [charUnits_small hsmall, charUnits_large hsmall'] at h
      have hnat := (List.cons.inj h).1
      omega
  · by_cases hsmall' : d.toNat < 0x10000
    · rw [charUnits_large hsmall, charUnits_small hsmall'] at h
      have hnat := (List.cons.inj h).1
      omega
    · rw [charUnits_large hsmall, charUnits_large hsmall'] at h
      obtain ⟨hhigh, hrest⟩ := List.cons.inj h
      obtain ⟨hlow, hrest⟩ := List.cons.inj hrest
      have hnat : c.toNat = d.toNat := by omega
      exact ⟨Char.toNat_inj.mp hnat, hrest⟩

theorem unit_append_cancel {u : Nat} {us vs : List Nat} {d : Char}
    (h : u :: us = (charUnits d).map UInt16.toNat ++ vs) :
    (u = d.toNat ∧ us = vs ∧ u < 0x10000) ∨
      ∃ low, us = low :: vs ∧ Json.isHighSurrogate u ∧ Json.isLowSurrogate low ∧
        d.toNat = 0x10000 + (u - 0xD800) * 0x400 + (low - 0xDC00) := by
  have hd := toNat_lt_of_valid d
  by_cases hsmall : d.toNat < 0x10000
  · rw [charUnits_small hsmall] at h
    obtain ⟨rfl, hrest⟩ := List.cons.inj h
    exact .inl ⟨rfl, hrest, hsmall⟩
  · rw [charUnits_large hsmall] at h
    obtain ⟨rfl, hrest⟩ := List.cons.inj h
    refine .inr ⟨_, hrest, ?_, ?_, by omega⟩
    · simp only [Json.isHighSurrogate, Bool.and_eq_true, decide_eq_true_eq]
      omega
    · simp only [Json.isLowSurrogate, Bool.and_eq_true, decide_eq_true_eq]
      omega

theorem charUnits_ne_nil (c : Char) : (charUnits c).map UInt16.toNat ≠ [] := by
  unfold charUnits
  split <;> exact List.cons_ne_nil _ _

theorem listUnits_eq_append {us vs : List Nat} {cs : List Char} (hne : us ≠ [])
    (h : us ++ vs = listUnits cs) : ∃ d cs', cs = d :: cs' ∧
      us ++ vs = (charUnits d).map UInt16.toNat ++ listUnits cs' := by
  cases cs with
  | nil => exact absurd (List.append_eq_nil_iff.mp h).1 hne
  | cons d cs => exact ⟨d, cs, rfl, h.trans (listUnits_cons d cs)⟩

theorem unitChar_toNat {d : Char} : unitChar d.toNat = d := by
  have hd := toNat_lt_of_valid d
  have hsurrogate : (Json.isHighSurrogate d.toNat || Json.isLowSurrogate d.toNat) = false := by
    simp only [Json.isHighSurrogate, Json.isLowSurrogate, Bool.or_eq_false_iff,
      Bool.and_eq_false_iff, decide_eq_false_iff_not]
    omega
  rw [unitChar, hsurrogate, if_neg Bool.false_ne_true, Char.ofNat_toNat]

theorem joinPieces_of_units {pieces : List Piece} {cs : List Char}
    (h : codeUnits pieces = listUnits cs) : joinPieces pieces = cs := by
  induction pieces using joinPieces.induct generalizing cs with
  | case1 =>
    cases cs with
    | nil => rfl
    | cons d cs =>
      rw [listUnits_cons] at h
      exact absurd (List.append_eq_nil_iff.mp h.symm).1 (charUnits_ne_nil d)
  | case2 c pieces ih =>
    obtain ⟨d, cs, rfl, hcons⟩ := listUnits_eq_append (charUnits_ne_nil c) h
    obtain ⟨rfl, hrest⟩ := charUnits_append_cancel hcons
    rw [joinPieces, ih hrest]
  | case3 u v pieces hpair ih =>
    obtain ⟨d, cs, rfl, hcons⟩ := listUnits_eq_append (List.cons_ne_nil u []) h
    rw [joinPieces, if_pos hpair]
    have hd := toNat_lt_of_valid d
    obtain ⟨hhigh, -⟩ := Bool.and_eq_true_iff.mp hpair
    simp only [Json.isHighSurrogate, Bool.and_eq_true, decide_eq_true_eq] at hhigh
    rcases unit_append_cancel hcons with ⟨rfl, -, -⟩ | ⟨low, hrest, -, -, hnat⟩
    · omega
    · obtain ⟨rfl, hunits⟩ := List.cons.inj hrest
      rw [← hnat, Char.ofNat_toNat, ih hunits]
  | case4 u v pieces hpair ih =>
    obtain ⟨d, cs, rfl, hcons⟩ := listUnits_eq_append (List.cons_ne_nil u []) h
    rw [joinPieces, if_neg hpair]
    rcases unit_append_cancel hcons with ⟨rfl, hrest, -⟩ | ⟨low, hrest, hhigh, hlow, -⟩
    · rw [unitChar_toNat, ih hrest]
    · obtain ⟨rfl, -⟩ := List.cons.inj hrest
      exact absurd (Bool.and_eq_true_iff.mpr ⟨hhigh, hlow⟩) hpair
  | case5 u pieces hother ih =>
    obtain ⟨d, cs, rfl, hcons⟩ := listUnits_eq_append (List.cons_ne_nil u []) h
    rw [joinPieces]
    · rcases unit_append_cancel hcons with ⟨rfl, hrest, -⟩ | ⟨low, hrest, -, hlow, -⟩
      · rw [unitChar_toNat, ih hrest]
      · -- no character starts with a low surrogate
        cases pieces with
        | nil => cases hrest
        | cons piece pieces =>
          cases piece with
          | unit v => exact absurd rfl (hother v pieces)
          | char c =>
            have hc := toNat_lt_of_valid c
            simp only [Json.isLowSurrogate, Bool.and_eq_true, decide_eq_true_eq] at hlow
            rcases unit_append_cancel hrest.symm with ⟨rfl, -, -⟩ | ⟨-, -, hhigh, -, -⟩
            · omega
            · simp only [Json.isHighSurrogate, Bool.and_eq_true, decide_eq_true_eq] at hhigh
              omega
    · exact hother

/-- A literal is kept if it denotes a string that has an encoding in UTF-8. -/
theorem stringUnits_text {pieces : List Piece} (h : Encodable pieces) :
    stringUnits (text pieces) = codeUnits pieces := by
  obtain ⟨s, hs⟩ := h
  rw [hs, stringUnits_eq, stringUnits_eq, text, String.toList_ofList, joinPieces_of_units hs]

end Written

end Memoark
