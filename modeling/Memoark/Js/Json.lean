import Mathlib.Tactic.SplitIfs
import Memoark.Cel.Grammar

/-! `JSON.stringify` of a string, and that CEL reads its result as the string. -/
namespace Memoark.Js

def unicodeEscape (n : Nat) : List Char :=
  ['\\', 'u', (n / 4096 % 16).digitChar, (n / 256 % 16).digitChar, (n / 16 % 16).digitChar,
    (n % 16).digitChar]

def quoteChar (c : Char) : List Char :=
  if c = Char.ofNat 8 then ['\\', 'b']
  else if c = '\t' then ['\\', 't']
  else if c = '\n' then ['\\', 'n']
  else if c = Char.ofNat 12 then ['\\', 'f']
  else if c = '\r' then ['\\', 'r']
  else if c = '"' then ['\\', '"']
  else if c = '\\' then ['\\', '\\']
  else if c.toNat < 32 then unicodeEscape c.toNat
  else [c]

def stringify (s : String) : String :=
  "\"" ++ String.ofList (s.toList.flatMap quoteChar) ++ "\""

theorem hexValue_unicodeEscape {n : Nat} (h : n < 32) :
    Cel.hexValue ((unicodeEscape n).drop 2) = some n := by
  have hall : ∀ m : Fin 32, Cel.hexValue ((unicodeEscape m).drop 2) = some m.val := by decide
  exact hall ⟨n, h⟩

theorem piece_quoteChar (c : Char) : Cel.Piece (quoteChar c) c := by
  unfold quoteChar
  split_ifs with hb ht hn hf hr hq hs hcontrol
  · rw [hb]
    exact .escape rfl
  · rw [ht]
    exact .escape rfl
  · rw [hn]
    exact .escape rfl
  · rw [hf]
    exact .escape rfl
  · rw [hr]
    exact .escape rfl
  · rw [hq]
    exact .escape rfl
  · rw [hs]
    exact .escape rfl
  · have hvalue := hexValue_unicodeEscape hcontrol
    have hpiece := Cel.Piece.unicode rfl hvalue c.valid
    rwa [Char.ofNat_toNat] at hpiece
  · exact .plain (by simp [hq, hs, hn, hr])

theorem literal_quote (cs : List Char) : Cel.Literal (cs.flatMap quoteChar) cs := by
  induction cs with
  | nil => exact .nil
  | cons c cs ih => exact .cons (piece_quoteChar c) ih

theorem newline_quoteChar (c : Char) : '\n' ∉ quoteChar c := by
  have hcontrol : ∀ m : Fin 32, '\n' ∉ unicodeEscape m := by decide
  unfold quoteChar
  split_ifs with hb ht hn hf hr hq hs hlt
  · decide
  · decide
  · decide
  · decide
  · decide
  · decide
  · decide
  · exact hcontrol ⟨c.toNat, hlt⟩
  · simpa using Ne.symm hn

theorem newline_stringify (s : String) : '\n' ∉ (stringify s).toList := by
  have hquote : '\n' ∉ s.toList.flatMap quoteChar := by
    intro h
    obtain ⟨c, -, hc⟩ := List.mem_flatMap.mp h
    exact newline_quoteChar c hc
  simp [stringify, String.toList_append, hquote]

end Memoark.Js
