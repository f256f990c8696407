import Mathlib.Data.List.TakeWhile
import Memoark.Web.TaskActions

/-! The shortcuts for bold and italic in the editor of a memo (`index.tsx`, `shortcuts.ts`). -/
namespace Memoark.Web.EditorKeys
open Js (Units ascii utf16)

section textarea

structure Textarea where
  value : Units
  selectionStart : Nat
  selectionEnd : Nat
  ordered : selectionStart ≤ selectionEnd
  inside : selectionEnd ≤ value.length

namespace Textarea

def setValue (value : Units) : Textarea := ⟨value, value.length, value.length, by simp, by simp⟩

def setSelectionRange (start stop : Nat) (editor : Textarea) : Textarea :=
  ⟨editor.value, min start (min stop editor.value.length), min stop editor.value.length,
    Nat.min_le_right start _, Nat.min_le_right stop _⟩

def getSelectedContent (editor : Textarea) : Units :=
  slice editor.value editor.selectionStart editor.selectionEnd

def insertText (content : Units) (editor : Textarea) : Textarea :=
  let cursorPos := editor.selectionStart
  let prev := editor.value
  let actual := if content ≠ [] then content else slice prev cursorPos editor.selectionEnd
  (setValue (prev.take cursorPos ++ actual ++ prev.drop editor.selectionEnd)).setSelectionRange
    (cursorPos + actual.length) (cursorPos + actual.length)

def removeText (start length : Nat) (editor : Textarea) : Textarea :=
  (setValue (editor.value.take start ++ editor.value.drop (start + length))).setSelectionRange
    start start

end Textarea

end textarea

section shortcuts

inductive Shortcut where
  | BOLD | ITALIC
  deriving DecidableEq

def Shortcut.delimiter : Shortcut → Units
  | .BOLD => [ascii '*', ascii '*']
  | .ITALIC => [ascii '*']

inductive Position where
  | start | stop

def countConsecutive (text : Units) (character : UInt16) : Position → Nat
  | .start => (text.takeWhile (· = character)).length
  | .stop => (text.reverse.takeWhile (· = character)).length

def isTextStyled (text delimiter : Units) : Bool :=
  if ¬(delimiter <+: text ∧ delimiter <:+ text) then false
  else if delimiter ≠ [ascii '*'] then true
  else
    countConsecutive text (ascii '*') .start % 2 = 1 &&
      countConsecutive text (ascii '*') .stop % 2 = 1

def toggleTextStyle (delimiter : Units) (editor : Textarea) : Textarea :=
  let cursorPosition := editor.selectionStart
  let selectedContent := editor.getSelectedContent
  if isTextStyled selectedContent delimiter then
    let unstyled :=
      slice selectedContent delimiter.length (selectedContent.length - delimiter.length)
    (editor.insertText unstyled).setSelectionRange cursorPosition (cursorPosition + unstyled.length)
  else
    (editor.insertText (delimiter ++ selectedContent ++ delimiter)).setSelectionRange
      (cursorPosition + delimiter.length)
      (cursorPosition + delimiter.length + selectedContent.length)

end shortcuts

section undo

def toggled (delimiter text : Units) : Units :=
  let content :=
    if isTextStyled text delimiter then
      slice text delimiter.length (text.length - delimiter.length)
    else delimiter ++ text ++ delimiter
  if content ≠ [] then content else text

def pressedAgain (delimiter : Units) (editor : Textarea) : Textarea :=
  toggleTextStyle delimiter <|
    (toggleTextStyle delimiter editor).setSelectionRange editor.selectionStart
      (editor.selectionStart + (delimiter ++ editor.getSelectedContent ++ delimiter).length)

def Undoable : Shortcut → Units → Prop
  | .BOLD, text => text ≠ []
  | .ITALIC, text => (∃ u ∈ text, u ≠ ascii '*') ∧
    countConsecutive text (ascii '*') .start % 2 = 0 ∧
    countConsecutive text (ascii '*') .stop % 2 = 0

instance (shortcut : Shortcut) (text : Units) : Decidable (Undoable shortcut text) :=
  match shortcut with
  | .BOLD => inferInstanceAs (Decidable (text ≠ []))
  | .ITALIC => inferInstanceAs (Decidable (_ ∧ _ ∧ _))

variable {editor : Textarea} {delimiter text : Units}

theorem delimiter_ne_nil (shortcut : Shortcut) : shortcut.delimiter ≠ [] := by
  cases shortcut <;> exact List.cons_ne_nil _ _

/-- Text between two others is what is found between their positions. -/
theorem slice_append (before text after : Units) :
    slice (before ++ text ++ after) before.length (before.length + text.length) = text := by
  unfold slice
  rw [List.append_assoc, List.drop_left, Nat.add_sub_cancel_left, List.take_left]

theorem split_value (editor : Textarea) : editor.value =
    editor.value.take editor.selectionStart ++ editor.getSelectedContent ++
      editor.value.drop editor.selectionEnd := by
  have hordered := editor.ordered
  have hdrop : (editor.value.drop editor.selectionStart).drop
      (editor.selectionEnd - editor.selectionStart) = editor.value.drop editor.selectionEnd := by
    rw [List.drop_drop]
    congr 1
    omega
  unfold Textarea.getSelectedContent slice
  rw [List.append_assoc, ← hdrop, List.take_append_drop, List.take_append_drop]

theorem value_toggle (editor : Textarea) : (toggleTextStyle delimiter editor).value =
    editor.value.take editor.selectionStart ++ toggled delimiter editor.getSelectedContent ++
      editor.value.drop editor.selectionEnd := by
  unfold toggleTextStyle toggled
  by_cases hstyled : isTextStyled editor.getSelectedContent delimiter = true
  · simp only [hstyled, if_true]
    rfl
  · simp only [hstyled]
    rfl

theorem toggled_of_not_styled (hwraps : isTextStyled text delimiter = false)
    (hdelimiter : delimiter ≠ []) : toggled delimiter text = delimiter ++ text ++ delimiter := by
  unfold toggled
  simp [hwraps, hdelimiter]

theorem select_part {before part after : Units} (h : editor.value = before ++ part ++ after) :
    let chosen := editor.setSelectionRange before.length (before.length + part.length)
    chosen.value.take chosen.selectionStart = before ∧ chosen.getSelectedContent = part ∧
      chosen.value.drop chosen.selectionEnd = after := by
  have hstop : min (before.length + part.length) editor.value.length =
      before.length + part.length := by
    rw [h]
    simp only [List.length_append]
    omega
  have hstart : min before.length (before.length + part.length) = before.length := by omega
  unfold Textarea.setSelectionRange Textarea.getSelectedContent
  dsimp only
  rw [hstop, hstart, h]
  have htake : (before ++ part ++ after).take before.length = before := by
    rw [List.append_assoc, List.take_left]
  have hdrop : (before ++ part ++ after).drop (before.length + part.length) = after := by
    rw [← List.length_append, List.drop_left]
  exact ⟨htake, slice_append before part after, hdrop⟩

/-- The second press changes the wrapped range alone. -/
theorem value_pressedAgain (hdelimiter : delimiter ≠ [])
    (hwraps : isTextStyled editor.getSelectedContent delimiter = false) :
    (pressedAgain delimiter editor).value = editor.value.take editor.selectionStart ++
      toggled delimiter (delimiter ++ editor.getSelectedContent ++ delimiter) ++
        editor.value.drop editor.selectionEnd := by
  have hordered := editor.ordered
  have hinside := editor.inside
  have hvalue := @value_toggle delimiter editor
  rw [toggled_of_not_styled hwraps hdelimiter] at hvalue
  have hbefore : (editor.value.take editor.selectionStart).length = editor.selectionStart := by
    rw [List.length_take]
    omega
  obtain ⟨htake, hselected, hdrop⟩ := select_part hvalue
  rw [hbefore] at htake hselected hdrop
  unfold pressedAgain
  rw [value_toggle, htake, hselected, hdrop]

theorem toggled_wrapped (hdelimiter : delimiter ≠ []) :
    toggled delimiter (delimiter ++ text ++ delimiter) = text ↔
      isTextStyled (delimiter ++ text ++ delimiter) delimiter = true ∧ text ≠ [] := by
  have hlength : 0 < delimiter.length := List.length_pos_iff.mpr hdelimiter
  cases hstyled : isTextStyled (delimiter ++ text ++ delimiter) delimiter with
  | true =>
    have hinner : slice (delimiter ++ text ++ delimiter) delimiter.length
        ((delimiter ++ text ++ delimiter).length - delimiter.length) = text := by
      have hstop : (delimiter ++ text ++ delimiter).length - delimiter.length =
          delimiter.length + text.length := by
        simp only [List.length_append]
        omega
      rw [hstop, slice_append]
    unfold toggled
    simp only [hstyled, if_true, hinner]
    by_cases htext : text = []
    · simp [htext, hdelimiter]
    · simp [htext]
  | false =>
    rw [toggled_of_not_styled hstyled hdelimiter]
    have hne : delimiter ++ (delimiter ++ text ++ delimiter) ++ delimiter ≠ text := by
      intro heq
      have hlengths := congrArg List.length heq
      simp only [List.length_append] at hlengths
      omega
    constructor
    · intro heq
      exact absurd heq hne
    · intro h
      cases h.1

/-- The text need not be looked at for the delimiter: an odd run is not empty. -/
theorem isTextStyled_italic (text : Units) : isTextStyled text [ascii '*'] = true ↔
    countConsecutive text (ascii '*') .start % 2 = 1 ∧
      countConsecutive text (ascii '*') .stop % 2 = 1 := by
  have hhead : ∀ us : Units, (us.takeWhile (· = ascii '*')).length % 2 = 1 →
      [ascii '*'] <+: us := by
    intro us hodd
    cases us with
    | nil => cases hodd
    | cons u us =>
      by_cases hu : u = ascii '*'
      · rw [hu]
        exact ⟨us, rfl⟩
      · simp [hu] at hodd
  unfold isTextStyled
  constructor
  · intro h
    split at h
    · cases h
    · simpa using h
  · intro ⟨hstart, hstop⟩
    have hfirst : [ascii '*'] <+: text := hhead text hstart
    have hlast : [ascii '*'] <:+ text := by
      rw [← List.reverse_prefix]
      exact hhead text.reverse hstop
    simp [hfirst, hlast, hstart, hstop]

theorem length_run (us : Units) : ((us ++ [ascii '*']).takeWhile (· = ascii '*')).length =
    if us.all (· = ascii '*') then us.length + 1 else (us.takeWhile (· = ascii '*')).length := by
  induction us with
  | nil => rfl
  | cons u us ih =>
    by_cases hu : u = ascii '*'
    · simp only [hu, List.cons_append, List.takeWhile_cons, List.all_cons, decide_true, if_true,
        List.length_cons, Bool.true_and, ih]
      split <;> rfl
    · simp [hu]

/-- Between two asterisks, both runs are one longer, or two if there is nothing else. -/
theorem isTextStyled_wrapped (text : Units) :
    isTextStyled ([ascii '*'] ++ text ++ [ascii '*']) [ascii '*'] = true ↔
      if text.all (· = ascii '*') then text.length % 2 = 1
      else countConsecutive text (ascii '*') .start % 2 = 0 ∧
        countConsecutive text (ascii '*') .stop % 2 = 0 := by
  have hreverse : ([ascii '*'] ++ text ++ [ascii '*']).reverse =
      [ascii '*'] ++ text.reverse ++ [ascii '*'] := by simp
  have hrun : ∀ us : Units, (([ascii '*'] ++ us ++ [ascii '*']).takeWhile (· = ascii '*')).length =
      ((us ++ [ascii '*']).takeWhile (· = ascii '*')).length + 1 := by
    intro us
    rfl
  rw [isTextStyled_italic]
  simp only [countConsecutive]
  rw [hreverse, hrun, hrun, length_run, length_run, List.all_reverse, List.length_reverse]
  split
  · omega
  · omega

theorem countConsecutive_of_all {text : Units} (h : text.all (· = ascii '*') = true)
    (position : Position) : countConsecutive text (ascii '*') position = text.length := by
  have hrun : ∀ us : Units, us.all (· = ascii '*') = true →
      (us.takeWhile (· = ascii '*')).length = us.length := by
    intro us hall
    rw [List.takeWhile_eq_self_iff.mpr (List.all_eq_true.mp hall)]
  cases position with
  | start => exact hrun text h
  | stop =>
    have hlength := hrun text.reverse (by rw [List.all_reverse, h])
    rw [List.length_reverse] at hlength
    exact hlength

theorem isTextStyled_bold (text : Units) : isTextStyled
    ([ascii '*', ascii '*'] ++ text ++ [ascii '*', ascii '*']) [ascii '*', ascii '*'] = true := by
  have hother : [ascii '*', ascii '*'] ≠ [ascii '*'] := by decide
  generalize [ascii '*', ascii '*'] = delimiter at hother
  have hfirst : delimiter <+: delimiter ++ text ++ delimiter :=
    ⟨text ++ delimiter, (List.append_assoc delimiter text delimiter).symm⟩
  have hlast : delimiter <:+ delimiter ++ text ++ delimiter :=
    List.suffix_append (delimiter ++ text) delimiter
  unfold isTextStyled
  rw [if_neg (not_not_intro ⟨hfirst, hlast⟩), if_pos hother]

theorem toggled_iff (shortcut : Shortcut) (hwraps : isTextStyled text shortcut.delimiter = false) :
    toggled shortcut.delimiter (shortcut.delimiter ++ text ++ shortcut.delimiter) = text ↔
      Undoable shortcut text := by
  rw [toggled_wrapped (delimiter_ne_nil shortcut)]
  cases shortcut with
  | BOLD =>
    constructor
    · intro h
      exact h.2
    · intro htext
      exact ⟨isTextStyled_bold text, htext⟩
  | ITALIC =>
    have hitalic := isTextStyled_italic text
    have hwrapped := isTextStyled_wrapped text
    unfold Shortcut.delimiter at hwraps ⊢
    unfold Undoable
    dsimp only at hwraps ⊢
    rw [hwraps] at hitalic
    rw [hwrapped]
    cases hall : text.all (· = ascii '*') with
    | true =>
      rw [countConsecutive_of_all hall, countConsecutive_of_all hall] at hitalic
      constructor
      · intro h
        have hodd : text.length % 2 = 1 := by simpa using h.1
        exact absurd (hitalic.mpr ⟨hodd, hodd⟩) Bool.false_ne_true
      · intro ⟨⟨u, hu, hother⟩, _⟩
        have hsame := List.all_eq_true.mp hall u hu
        exact absurd (of_decide_eq_true hsame) hother
    | false =>
      obtain ⟨u, hu, hother⟩ := List.all_eq_false.mp hall
      have hne : u ≠ ascii '*' := by simpa using hother
      constructor
      · intro h
        have heven := h.1
        rw [if_neg Bool.false_ne_true] at heven
        exact ⟨⟨u, hu, hne⟩, heven⟩
      · intro ⟨_, heven⟩
        rw [if_neg Bool.false_ne_true]
        exact ⟨heven, List.ne_nil_of_mem hu⟩

/-- A shortcut that wraps the selection is undone by the same shortcut if and only if the text is
not empty and, for italics, its runs of asterisks are even and not all there is. -/
theorem pressedAgain_iff (shortcut : Shortcut) (editor : Textarea)
    (hwraps : isTextStyled editor.getSelectedContent shortcut.delimiter = false) :
    (pressedAgain shortcut.delimiter editor).value = editor.value ↔
      Undoable shortcut editor.getSelectedContent := by
  rw [← toggled_iff shortcut hwraps, value_pressedAgain (delimiter_ne_nil shortcut) hwraps]
  constructor
  · intro heq
    have hparts := heq.trans (split_value editor)
    exact List.append_cancel_left (List.append_cancel_right hparts)
  · intro heq
    rw [heq]
    exact (split_value editor).symm

/-- Bold in `read the docs`, where `docs` is selected. -/
theorem pressedAgain_docs :
    let editor : Textarea := ⟨utf16 "read the docs", 9, 13, by decide, by decide⟩
    (pressedAgain Shortcut.BOLD.delimiter editor).value = utf16 "read the docs" := by
  intro editor
  have hwraps : isTextStyled editor.getSelectedContent Shortcut.BOLD.delimiter = false := by decide
  exact (pressedAgain_iff .BOLD editor hwraps).mpr (by decide)

/-- Bold without a selection: the four asterisks stay. -/
theorem not_pressedAgain :
    let editor : Textarea := ⟨[], 0, 0, by decide, by decide⟩
    isTextStyled editor.getSelectedContent Shortcut.BOLD.delimiter = false ∧
      (pressedAgain Shortcut.BOLD.delimiter editor).value = utf16 "****" ∧
      (pressedAgain Shortcut.BOLD.delimiter editor).value ≠ editor.value := by
  decide

end undo

end Memoark.Web.EditorKeys
