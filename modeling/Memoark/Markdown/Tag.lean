import Mathlib.Data.List.TakeWhile
import Memoark.Markdown.InlineLoop

/-! The `#tag` parser of the server (`parser/tag.go`). -/
namespace Memoark.Markdown
open Syntax (lastOf atEach Scans)

variable (U : Categories)

def maxTagLength : Nat := 100

def isValidTagRune (r : Char) : Bool :=
  U.letter r || U.number r || U.symbol r || U.mark r || r == '\u200D' ||
    (r == '_' || r == '-' || r == '/' || r == '&')

def tagRunes : Nat → List Char → List Char
  | _, [] => []
  | runeCount, r :: line =>
    if !isValidTagRune U r then []
    else if runeCount + 1 > maxTagLength then []
    else r :: tagRunes (runeCount + 1) line

def parseTag : InlineParser := fun _ block =>
  match peekLine block with
  | ['#'] => none
  | '#' :: '#' :: _ => none
  | '#' :: ' ' :: _ => none
  | '#' :: line =>
    let tag := tagRunes U 0 line
    if tag = [] then none else some (String.ofList tag, block.drop (1 + tag.length))
  | _ => none

/-- The tag behind a `#`: its valid runes, at most a hundred. -/
def tagBehind (_ : Option Char) (after : List Char) : Option String :=
  let tag := (after.takeWhile (isValidTagRune U)).take maxTagLength
  if tag = [] then none else some (String.ofList tag)

section spec

theorem tagRunes_eq (runeCount : Nat) (line : List Char) :
    tagRunes U runeCount line =
      (line.takeWhile (isValidTagRune U)).take (maxTagLength - runeCount) := by
  induction line generalizing runeCount with
  | nil => simp [tagRunes]
  | cons r line ih =>
    rw [tagRunes]
    cases hr : isValidTagRune U r with
    | false => simp [hr]
    | true =>
      rw [List.takeWhile_cons_of_pos hr]
      by_cases hlen : runeCount + 1 > maxTagLength
      · have hzero : maxTagLength - runeCount = 0 := by omega
        simp [hlen, hzero]
      · obtain ⟨n, hn⟩ : ∃ n, maxTagLength - runeCount = n + 1 := ⟨maxTagLength - runeCount - 1, by omega⟩
        have hn' : maxTagLength - (runeCount + 1) = n := by omega
        simp [hlen, hn, ih, hn']

theorem isValidTagRune_ascii {r : Char} (h : r.toNat < 128) :
    isValidTagRune U r = (r.isAlpha || r.isDigit || "$+<=>^`|~".toList.contains r || r == '\u200D' ||
      (r == '_' || r == '-' || r == '/' || r == '&')) := by
  rw [isValidTagRune, U.ascii_letter r h, U.ascii_number r h, U.ascii_symbol r h, U.ascii_mark r h,
    Bool.or_false]

theorem hash_not_valid : isValidTagRune U '#' = false := by
  rw [isValidTagRune_ascii U (by decide)]
  decide

theorem space_not_valid : isValidTagRune U ' ' = false := by
  rw [isValidTagRune_ascii U (by decide)]
  decide

theorem newline_not_valid : isValidTagRune U '\n' = false := by
  rw [isValidTagRune_ascii U (by decide)]
  decide

theorem parseTag_eq (prev : Option Char) (after : List Char) :
    parseTag U prev ('#' :: after) =
      (tagBehind U prev after).map fun tag => (tag, after.drop tag.toList.length) := by
  have hline : tagRunes U 0 (peekLine after) =
      (after.takeWhile (isValidTagRune U)).take maxTagLength := by
    rw [tagRunes_eq, takeWhile_peekLine (newline_not_valid U)]
    rfl
  have hnone : tagRunes U 0 (peekLine after) = [] → tagBehind U prev after = none := by
    intro h
    exact if_pos (hline.symm.trans h)
  have hpeek : peekLine ('#' :: after) = '#' :: peekLine after := rfl
  have hstop : ∀ {r line}, isValidTagRune U r = false → tagRunes U 0 (r :: line) = [] := by
    intro r line hr
    simp [tagRunes, hr]
  unfold parseTag
  rw [hpeek]
  split
  · rename_i heq
    rw [List.cons.injEq] at heq
    rw [hnone (by rw [heq.2]; rfl)]
    rfl
  · rename_i heq
    rw [List.cons.injEq] at heq
    rw [hnone (by rw [heq.2]; exact hstop (hash_not_valid U))]
    rfl
  · rename_i heq
    rw [List.cons.injEq] at heq
    rw [hnone (by rw [heq.2]; exact hstop (space_not_valid U))]
    rfl
  · rename_i line _ _ _ heq
    obtain rfl : peekLine after = line := (List.cons.inj heq).2
    rw [hline, tagBehind]
    dsimp only
    split
    · rfl
    · rw [Option.map_some, String.toList_ofList, Nat.add_comm, List.drop_succ_cons]
  · rename_i hother
    exact absurd rfl (hother (peekLine after))

theorem hash_notMem_tag (after : List Char) :
    '#' ∉ (after.takeWhile (isValidTagRune U)).take maxTagLength := by
  intro h
  have hvalid := List.mem_takeWhile_imp (List.mem_of_mem_take h)
  rw [hash_not_valid] at hvalid
  cases hvalid

theorem parseTag_scans (loop : InlineLoop '#') :
    Scans '#' (tagBehind U) loop.plain (loop.run (parseTag U)) := by
  refine loop.scans (fun prev cs hread => ?_) fun prev cs node hread => ?_
  · rw [parseTag_eq, hread]
    rfl
  · have hparse := parseTag_eq U prev cs
    rw [hread, Option.map_some] at hparse
    have hnode : node.toList = (cs.takeWhile (isValidTagRune U)).take maxTagLength := by
      dsimp only [tagBehind] at hread
      split at hread
      · cases hread
      · cases hread
        exact String.toList_ofList
    refine ⟨node.toList, cs.drop node.toList.length, append_drop_of_take hnode, ?_, hparse⟩
    rw [hnode]
    exact hash_notMem_tag U cs

end spec

end Memoark.Markdown
