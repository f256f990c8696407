import Mathlib.Data.List.TakeWhile
import Memoark.Go.Strings
import Memoark.Markdown.InlineLoop

/-! The `@mention` parser of the server (`parser/mention.go`), and the user names that
`ExtractAll` collects before it removes duplicates. -/
namespace Memoark.Markdown
open Syntax (lastOf atEach Scans)

variable (U : Categories)

def maxMentionLength : Nat := 32

def isLetterOrNumber (r : Char) : Bool := U.letter r || U.number r

def isValidMentionRune (r : Char) : Bool := U.letter r || U.number r || r == '-'

def isMentionBoundary (r : Char) : Bool := Go.isSpace r || U.punct r || U.symbol r

/-- The loop over the runes behind the `@`: the name, and whether there is a letter or a number. -/
def mentionRunes : Nat → Bool → List Char → List Char × Bool
  | _, hasLetterOrNumber, [] => ([], hasLetterOrNumber)
  | runeCount, hasLetterOrNumber, r :: line =>
    if !isValidMentionRune U r then ([], hasLetterOrNumber)
    else
      let hasLetterOrNumber := hasLetterOrNumber || isLetterOrNumber U r
      if runeCount + 1 > maxMentionLength then ([], hasLetterOrNumber)
      else
        let (name, found) := mentionRunes (runeCount + 1) hasLetterOrNumber line
        (r :: name, found)

/-- The character before the reader; before a block it is a line break. -/
def precedingCharacter (prev : Option Char) : Char := prev.getD '\n'

def parseMention : InlineParser := fun prev block =>
  match peekLine block with
  | '@' :: line =>
    let prev := precedingCharacter prev
    if prev ≠ '\n' ∧ isMentionBoundary U prev = false then none
    else
      let (username, hasLetterOrNumber) := mentionRunes U 0 false line
      if username = [] ∨ hasLetterOrNumber = false then none
      else some (String.ofList username, block.drop (1 + username.length))
  | _ => none

def toLower (s : String) : String := String.ofList (s.toList.map U.lower)

def extractMentions (loop : InlineLoop '@') (text : List Char) : List String :=
  (loop.run (parseMention U) none text).map (toLower U)

/-- The `@` stands at the start of a line or behind a boundary. -/
def startsMention (prev : Option Char) : Bool :=
  precedingCharacter prev == '\n' || isMentionBoundary U (precedingCharacter prev)

/-- The letters, numbers and hyphens behind the `@`. -/
def mentionRun (after : List Char) : List Char := after.takeWhile (isValidMentionRune U)

def readsMention (prev : Option Char) (after : List Char) : Bool :=
  startsMention U prev && ((mentionRun U after).take (maxMentionLength + 1)).any (isLetterOrNumber U)

def mentionBehind (prev : Option Char) (after : List Char) : Option String :=
  if readsMention U prev after then
    some (String.ofList ((mentionRun U after).take maxMentionLength))
  else none

section spec

theorem mentionRunes_eq (runeCount : Nat) (has : Bool) (h : runeCount ≤ maxMentionLength)
    (line : List Char) : mentionRunes U runeCount has line =
      ((mentionRun U line).take (maxMentionLength - runeCount),
        has || ((mentionRun U line).take (maxMentionLength + 1 - runeCount)).any
          (isLetterOrNumber U)) := by
  induction line generalizing runeCount has with
  | nil => simp [mentionRunes, mentionRun]
  | cons r line ih =>
    rw [mentionRunes]
    cases hr : isValidMentionRune U r with
    | false => simp [mentionRun, hr]
    | true =>
      obtain ⟨n, hn⟩ : ∃ n, maxMentionLength + 1 - runeCount = n + 1 :=
        ⟨maxMentionLength - runeCount, by omega⟩
      have hn' : maxMentionLength - runeCount = n := by omega
      have hrun : mentionRun U (r :: line) = r :: mentionRun U line :=
        List.takeWhile_cons_of_pos hr
      rw [hrun, hn, hn', List.take_succ_cons, List.any_cons, Bool.not_true]
      dsimp only
      by_cases hlen : runeCount + 1 > maxMentionLength
      · have hzero : n = 0 := by omega
        simp [hlen, hzero]
      · obtain ⟨m, rfl⟩ : ∃ m, n = m + 1 := ⟨n - 1, by omega⟩
        have hm : maxMentionLength - (runeCount + 1) = m := by omega
        have hm' : maxMentionLength + 1 - (runeCount + 1) = m + 1 := by omega
        rw [if_neg (by simp), if_neg hlen, ih _ _ (by omega), hm, hm', List.take_succ_cons,
          Bool.or_assoc]

theorem isValidMentionRune_ascii {r : Char} (h : r.toNat < 128) :
    isValidMentionRune U r = (r.isAlpha || r.isDigit || r == '-') := by
  rw [isValidMentionRune, U.ascii_letter r h, U.ascii_number r h]

theorem newline_not_mention : isValidMentionRune U '\n' = false := by
  rw [isValidMentionRune_ascii U (by decide)]
  decide

theorem at_not_mention : isValidMentionRune U '@' = false := by
  rw [isValidMentionRune_ascii U (by decide)]
  decide

theorem parseMention_eq (prev : Option Char) (after : List Char) :
    parseMention U prev ('@' :: after) =
      (mentionBehind U prev after).map fun name => (name, after.drop name.toList.length) := by
  have hrun : mentionRun U (peekLine after) = mentionRun U after :=
    takeWhile_peekLine (newline_not_mention U) after
  have hpeek : peekLine ('@' :: after) = '@' :: peekLine after := rfl
  have hruns := mentionRunes_eq U 0 false (Nat.zero_le _) (peekLine after)
  rw [hrun, Bool.false_or] at hruns
  unfold parseMention
  rw [hpeek]
  split
  · rename_i line heq
    obtain rfl : peekLine after = line := (List.cons.inj heq).2
    rw [hruns, mentionBehind, readsMention, startsMention]
    dsimp only [Nat.sub_zero]
    by_cases hstart :
        precedingCharacter prev = '\n' ∨ isMentionBoundary U (precedingCharacter prev) = true
    · have hstarts : (precedingCharacter prev == '\n' ||
          isMentionBoundary U (precedingCharacter prev)) = true := by simpa using hstart
      rw [if_neg (by simpa [← or_iff_not_imp_left] using hstart), hstarts, Bool.true_and]
      cases hany : ((mentionRun U after).take (maxMentionLength + 1)).any
          (isLetterOrNumber U) with
      | false => simp
      | true =>
        have hne : (mentionRun U after).take maxMentionLength ≠ [] := by
          intro hnil
          rcases List.take_eq_nil_iff.mp hnil with hzero | hnone
          · cases hzero
          · rw [hnone] at hany
            cases hany
        rw [if_neg (by simp [hne]), if_pos rfl, Option.map_some, String.toList_ofList,
          Nat.add_comm, List.drop_succ_cons]
    · have hstarts : (precedingCharacter prev == '\n' ||
          isMentionBoundary U (precedingCharacter prev)) = false := by simpa using hstart
      rw [if_pos (by simpa using hstart), hstarts]
      rfl
  · rename_i hother
    exact absurd rfl (hother (peekLine after))

theorem at_notMem_mention (after : List Char) : '@' ∉ (mentionRun U after).take maxMentionLength := by
  intro h
  have hvalid := List.mem_takeWhile_imp (List.mem_of_mem_take h)
  rw [at_not_mention] at hvalid
  cases hvalid

theorem parseMention_scans (loop : InlineLoop '@') :
    Scans '@' (mentionBehind U) loop.plain (loop.run (parseMention U)) := by
  refine loop.scans (fun prev cs hread => ?_) fun prev cs node hread => ?_
  · rw [parseMention_eq, hread]
    rfl
  · have hparse := parseMention_eq U prev cs
    rw [hread, Option.map_some] at hparse
    have hnode : node.toList = (mentionRun U cs).take maxMentionLength := by
      dsimp only [mentionBehind] at hread
      split at hread
      · cases hread
        exact String.toList_ofList
      · cases hread
    refine ⟨node.toList, cs.drop node.toList.length, append_drop_of_take hnode, ?_, hparse⟩
    rw [hnode]
    exact at_notMem_mention U cs

end spec

end Memoark.Markdown
