import Mathlib.Data.List.Perm.Subperm
import Memoark.Web.TaskMarkers

/-! All task items are checked or unchecked (`markdown-task-actions.ts`). -/
namespace Memoark.Web
open Js (Units ascii isWhiteSpaceUnit utf16)
open Syntax (lineStart)

section actions

def isDigitUnit (u : UInt16) : Bool := 0x30 ≤ u.toNat && u.toNat ≤ 0x39

def ordinal (us : Units) : Option Nat :=
  let digits := us.takeWhile isDigitUnit
  match us.dropWhile isDigitUnit with
  | u :: _ =>
    if digits ≠ [] ∧ u ∈ [ascii '.', ascii ')'] then some (digits.length + 1) else none
  | [] => none

def taskLineRegexp (line : Units) : Option Brackets :=
  brackets (fun us => bullet us <|> ordinal us) line

structure LineInfo where
  text : Units
  startOffset : Nat
  endOffset : Nat

structure SourceRange where
  start : Nat
  stop : Nat

structure MarkdownEdit extends SourceRange where
  replacement : Units

structure ParsedTaskItem where
  checked : Bool
  checkboxMarker : SourceRange

def lineStartsFrom : Nat → Units → List Nat
  | _, [] => []
  | index, u :: us =>
    if u = ascii '\n' then (index + 1) :: lineStartsFrom (index + 1) us
    else lineStartsFrom (index + 1) us

def getLineStarts (markdown : Units) : List Nat := 0 :: lineStartsFrom 0 markdown

def slice (us : Units) (start stop : Nat) : Units := (us.drop start).take (stop - start)

def getLineInfo (markdown : Units) (lineStarts : List Nat) (lineNumber : Nat) : Option LineInfo :=
  (lineStarts[lineNumber]?).map fun startOffset =>
    let nextLineStart := lineStarts[lineNumber + 1]?
    let endOffset := (nextLineStart.map (· - 1)).getD markdown.length
    ⟨slice markdown startOffset endOffset, startOffset, endOffset⟩

variable (parser : Mdast)

def parseTaskItem (markdown : Units) (lineStarts : List Nat) (item : ListItem) :
    Option ParsedTaskItem :=
  item.task.bind fun task =>
    if item.startLine = 0 then none
    else
      (getLineInfo markdown lineStarts (item.startLine - 1)).bind fun lineInfo =>
        (taskLineRegexp lineInfo.text).map fun b =>
          let markerStart := lineInfo.startOffset + b.before.length + 1
          ⟨task.checked, markerStart, markerStart + 1⟩

def parseTaskItems (markdown : Units) : List ParsedTaskItem :=
  match parser.listItems markdown with
  | none => []
  | some items => items.filterMap (parseTaskItem markdown (getLineStarts markdown))

def editsFit (length : Nat) : Nat → List MarkdownEdit → Bool
  | _, [] => true
  | previousEnd, edit :: edits =>
    if edit.stop < edit.start ∨ length < edit.stop ∨ edit.start < previousEnd then false
    else editsFit length edit.stop edits

def applyEdit (edit : MarkdownEdit) (markdown : Units) : Units :=
  markdown.take edit.start ++ edit.replacement ++ markdown.drop edit.stop

def applyMarkdownEdits (markdown : Units) (edits : List MarkdownEdit) : Units :=
  if edits = [] then markdown
  else
    let sortedEdits := edits.mergeSort fun a b => a.start ≤ b.start
    if editsFit markdown.length 0 sortedEdits then sortedEdits.foldr applyEdit markdown
    else markdown

def setAllTaskMarkers (markdown : Units) (checked : Bool) : Units :=
  applyMarkdownEdits markdown <|
    ((parseTaskItems parser markdown).filter (·.checked ≠ checked)).map fun task =>
      ⟨task.checkboxMarker, [checkmark checked]⟩

def uncheckAllTasks (markdown : Units) : Units := setAllTaskMarkers parser markdown false

def checkAllTasks (markdown : Units) : Units := setAllTaskMarkers parser markdown true

end actions

section found

variable {parser : Mdast} {md : Units} {checked : Bool}

theorem taskLineRegexp_finds : Finds taskLineRegexp := fun _ _ h => brackets_eq h

theorem getElem?_lineStartsFrom (k : Nat) (md : Units) (n : Nat) :
    (k :: lineStartsFrom k md)[n]? =
      if n < (textLines md).length then some (k + lineStart (textLines md) n) else none := by
  induction md generalizing k n with
  | nil => cases n <;> simp [lineStartsFrom, textLines]
  | cons u us ih =>
    by_cases hu : u = ascii '\n'
    · have hlines : textLines (u :: us) = [] :: textLines us := by
        unfold textLines
        rw [List.splitOn_cons_eq_if_modifyHead, if_pos (by simpa using hu)]
      rw [lineStartsFrom, if_pos hu, hlines]
      cases n with
      | zero => simp
      | succ n =>
        rw [List.getElem?_cons_succ, ih, Syntax.lineStart_cons]
        simp [Nat.add_assoc]
    · have hlines : textLines (u :: us) = (textLines us).modifyHead (u :: ·) := by
        unfold textLines
        rw [List.splitOn_cons_eq_if_modifyHead, if_neg (by simpa using hu)]
      have hrest := ih (k + 1) n
      rw [lineStartsFrom, if_neg hu, hlines]
      cases hus : textLines us with
      | nil => exact absurd hus (List.splitOn_ne_nil _ _)
      | cons line lines =>
        rw [hus] at hrest
        cases n with
        | zero => simp
        | succ n =>
          rw [List.getElem?_cons_succ] at hrest ⊢
          rw [hrest, List.modifyHead_cons, Syntax.lineStart_cons,
            Syntax.lineStart_cons]
          simp only [List.length_cons]
          congr 2
          omega

theorem getLineInfo_eq (md : Units) (n : Nat) :
    getLineInfo md (getLineStarts md) n = ((textLines md)[n]?).map fun line =>
      ⟨line, lineStart (textLines md) n, lineStart (textLines md) n + line.length⟩ := by
  have hstart := getElem?_lineStartsFrom 0 md n
  have hnext := getElem?_lineStartsFrom 0 md (n + 1)
  unfold getLineInfo getLineStarts
  cases hline : (textLines md)[n]? with
  | none =>
    have hn : ¬n < (textLines md).length := by
      rw [List.getElem?_eq_none_iff] at hline
      omega
    rw [hstart, if_neg hn]
    rfl
  | some line =>
    have hn := (List.getElem?_eq_some_iff.mp hline).1
    have htext := Syntax.take_drop_lineStart (ascii '\n') hline
    rw [intercalate_textLines] at htext
    have hend : (((if n + 1 < (textLines md).length
          then some (0 + lineStart (textLines md) (n + 1)) else none).map (· - 1)).getD md.length) =
        lineStart (textLines md) n + line.length := by
      have hsucc := Syntax.lineStart_succ hline
      split
      · rw [Option.map_some, Option.getD_some]
        omega
      · rename_i hlast
        have hall : md.length + 1 = lineStart (textLines md) (textLines md).length := by
          have hlength := Syntax.length_intercalate (ascii '\n')
            (List.splitOn_ne_nil (ascii '\n') md)
          rw [List.intercalate_splitOn] at hlength
          exact hlength
        have hcount : (textLines md).length = n + 1 := by omega
        rw [hcount, hsucc] at hall
        rw [Option.map_none, Option.getD_none]
        omega
    rw [hstart, if_pos hn, Option.map_some, Option.map_some]
    dsimp only
    rw [hnext, hend, Nat.zero_add, slice, Nat.add_sub_cancel_left, htext]

theorem parseTaskItem_eq {item : ListItem} (h : 0 < item.startLine) :
    parseTaskItem md (getLineStarts md) item = item.task.bind fun task =>
      (lineMark taskLineRegexp md (item.startLine - 1)).map fun p =>
        ⟨task.checked, p, p + 1⟩ := by
  unfold parseTaskItem
  cases item.task with
  | none => rfl
  | some task =>
    rw [Option.bind_some, Option.bind_some, if_neg (by omega), getLineInfo_eq]
    unfold lineMark
    cases (textLines md)[item.startLine - 1]? with
    | none => rfl
    | some line =>
      simp only [Option.map_some, Option.bind_some]
      cases taskLineRegexp line <;> rfl

def reported (parser : Mdast) (md : Units) : List (Nat × TaskCheck) :=
  taskItems ((parser.listItems md).getD [])

def pending (parser : Mdast) (md : Units) (checked : Bool) : List (Nat × TaskCheck) :=
  (reported parser md).filter (·.2.checked ≠ checked)

def found (parser : Mdast) (md : Units) (checked : Bool) : List Nat :=
  (pending parser md checked).filterMap fun item => lineMark taskLineRegexp md item.1

def markEdit (checked : Bool) (p : Nat) : MarkdownEdit := ⟨⟨p, p + 1⟩, [checkmark checked]⟩

theorem parseTaskItems_eq (h : parser.Documented) :
    parseTaskItems parser md = (reported parser md).filterMap fun item =>
      (lineMark taskLineRegexp md item.1).map fun p => ⟨item.2.checked, p, p + 1⟩ := by
  unfold parseTaskItems reported
  cases hitems : parser.listItems md with
  | none => rfl
  | some items =>
    dsimp only
    rw [Option.getD_some, taskItems, List.filterMap_filterMap]
    apply List.filterMap_congr
    intro item hitem
    rw [parseTaskItem_eq (h.startLine md items hitems item hitem)]
    cases item.task <;> rfl

theorem setAllTaskMarkers_eq (h : parser.Documented) :
    setAllTaskMarkers parser md checked =
      applyMarkdownEdits md ((found parser md checked).map (markEdit checked)) := by
  unfold setAllTaskMarkers found pending
  rw [parseTaskItems_eq h, List.filter_filterMap, List.map_filterMap, List.filterMap_filter,
    List.map_filterMap]
  congr 2
  funext item
  cases lineMark taskLineRegexp md item.1 with
  | none => simp
  | some p =>
    by_cases hchecked : item.2.checked = checked
    · simp [hchecked]
    · simp [hchecked, markEdit]

theorem isMark_of_mem_found {p : Nat} (h : p ∈ found parser md checked) :
    (md[p]?).any isMark = true := by
  obtain ⟨item, -, hitem⟩ := List.mem_filterMap.mp h
  exact isMark_of_lineMark taskLineRegexp_finds hitem

end found

section written

variable {md : Units} {checked : Bool} {ps qs : List Nat}

def setMarks (ps : List Nat) (checked : Bool) (md : Units) : Units :=
  ps.foldr (fun p us => us.set p (checkmark checked)) md

theorem length_setMarks (ps : List Nat) : (setMarks ps checked md).length = md.length := by
  induction ps with
  | nil => rfl
  | cons p ps ih =>
    change ((setMarks ps checked md).set p _).length = _
    rw [List.length_set, ih]

theorem getElem?_setMarks (ps : List Nat) (j : Nat) : (setMarks ps checked md)[j]? =
    if j ∈ ps then (md[j]?).map fun _ => checkmark checked else md[j]? := by
  induction ps with
  | nil => rfl
  | cons p ps ih =>
    change ((setMarks ps checked md).set p _)[j]? = _
    rw [List.getElem?_set, length_setMarks, ih]
    by_cases hp : p = j
    · subst hp
      by_cases hlength : p < md.length
      · simp [hlength]
      · simp [hlength]
    · have hne : j ≠ p := Ne.symm hp
      simp [hp, hne]

theorem setMarks_congr (h : ∀ p, p ∈ ps ↔ p ∈ qs) :
    setMarks ps checked md = setMarks qs checked md := by
  apply List.ext_getElem?
  intro j
  rw [getElem?_setMarks, getElem?_setMarks]
  simp only [h]

theorem editsFit_iff {length previousEnd : Nat} (hsorted : ps.Pairwise (· ≤ ·))
    (hrange : ∀ p ∈ ps, p < length) :
    editsFit length previousEnd (ps.map (markEdit checked)) = true ↔
      (∀ p ∈ ps, previousEnd ≤ p) ∧ ps.Nodup := by
  induction ps generalizing previousEnd with
  | nil => simp [editsFit]
  | cons p ps ih =>
    rw [List.pairwise_cons] at hsorted
    have hp := hrange p List.mem_cons_self
    have hrest := @ih (p + 1) hsorted.2 fun q hq => hrange q (List.mem_cons_of_mem p hq)
    rw [List.map_cons, editsFit, List.nodup_cons]
    change (if p + 1 < p ∨ length < p + 1 ∨ p < previousEnd then false
      else editsFit length (p + 1) (ps.map (markEdit checked))) = true ↔ _
    split
    · constructor
      · intro h
        cases h
      · intro h
        have hprevious := h.1 p List.mem_cons_self
        omega
    · rw [hrest]
      constructor
      · intro h
        refine ⟨?_, ?_, h.2⟩
        · intro q hq
          rcases List.mem_cons.mp hq with rfl | hq
          · omega
          · have hle := h.1 q hq
            omega
        · intro hmem
          have hle := h.1 p hmem
          omega
      · intro h
        refine ⟨?_, h.2.2⟩
        intro q hq
        have hle := hsorted.1 q hq
        have hne : p ≠ q := by
          intro heq
          apply h.2.1
          rw [heq]
          exact hq
        omega

theorem foldr_applyEdit (hrange : ∀ p ∈ ps, p < md.length) :
    (ps.map (markEdit checked)).foldr applyEdit md = setMarks ps checked md := by
  induction ps with
  | nil => rfl
  | cons p ps ih =>
    have hp := hrange p List.mem_cons_self
    rw [List.map_cons, List.foldr_cons, ih fun q hq => hrange q (List.mem_cons_of_mem p hq)]
    change (setMarks ps checked md).take p ++ [checkmark checked] ++
      (setMarks ps checked md).drop (p + 1) = (setMarks ps checked md).set p (checkmark checked)
    rw [List.set_eq_take_append_cons_drop, if_pos (by rw [length_setMarks]; exact hp),
      List.append_assoc, List.singleton_append]

theorem pairwise_sortedEdits (edits : List MarkdownEdit) :
    (edits.mergeSort fun a b => a.start ≤ b.start).Pairwise fun a b => a.start ≤ b.start := by
  have hsorted := @List.pairwise_mergeSort _ (fun a b : MarkdownEdit => decide (a.start ≤ b.start))
    (by intro a b c hab hbc; simp at *; omega) (by intro a b; simp; omega) edits
  exact hsorted.imp of_decide_eq_true

theorem applyMarkdownEdits_eq (hrange : ∀ p ∈ ps, p < md.length) :
    applyMarkdownEdits md (ps.map (markEdit checked)) =
      if ps.Nodup then setMarks ps checked md else md := by
  unfold applyMarkdownEdits
  split
  · rename_i hnil
    obtain rfl := List.map_eq_nil_iff.mp hnil
    simp [setMarks]
  · let edits := (ps.map (markEdit checked)).mergeSort fun a b => a.start ≤ b.start
    let qs := edits.map (·.start)
    have hperm : edits.Perm (ps.map (markEdit checked)) := List.mergeSort_perm _ _
    have hqs : qs.Perm ps := by
      have hmap := hperm.map (·.start)
      rw [List.map_map] at hmap
      exact hmap.trans (.of_eq (List.map_id ps))
    have hedits : edits = qs.map (markEdit checked) := by
      have hself : ∀ edit ∈ edits, (markEdit checked ∘ (·.start)) edit = id edit := by
        intro edit hedit
        obtain ⟨p, -, rfl⟩ := List.mem_map.mp (hperm.mem_iff.mp hedit)
        rfl
      rw [List.map_map, List.map_congr_left hself, List.map_id]
    have hsorted : qs.Pairwise (· ≤ ·) := by
      exact List.pairwise_map.mpr (pairwise_sortedEdits _)
    have hrangeQs : ∀ q ∈ qs, q < md.length := fun q hq => hrange q (hqs.mem_iff.mp hq)
    have hfit := @editsFit_iff checked qs md.length 0 hsorted hrangeQs
    have hall : ∀ q ∈ qs, 0 ≤ q := fun q _ => Nat.zero_le q
    change (if editsFit md.length 0 edits then edits.foldr applyEdit md else md) = _
    rw [hedits, foldr_applyEdit hrangeQs, setMarks_congr fun p => hqs.mem_iff]
    by_cases hnodup : ps.Nodup
    · rw [if_pos hnodup, if_pos (hfit.mpr ⟨hall, hqs.nodup_iff.mpr hnodup⟩)]
    · rw [if_neg hnodup, if_neg fun h => hnodup (hqs.nodup_iff.mp (hfit.mp h).2)]

end written

section allSet

variable {parser : Mdast} {md : Units} {checked : Bool}

theorem checkmark_isMark (checked : Bool) : isMark (checkmark checked) = true := by
  cases checked <;> decide

theorem reported_set (h : parser.Documented) {item : Nat × TaskCheck}
    (hitem : item ∈ reported parser md) (hmark : (md[item.2.marker]?).any isMark = true) :
    reported parser (md.set item.2.marker (checkmark checked)) =
      (reported parser md).map fun other => (other.1, other.2.marked item.2.marker checked) := by
  unfold reported at hitem ⊢
  cases hitems : parser.listItems md with
  | none =>
    rw [hitems] at hitem
    cases hitem
  | some items =>
    rw [hitems, Option.getD_some] at hitem
    have htask : item.2 ∈ tasksOf items := by
      rw [tasksOf_eq]
      exact List.mem_map_of_mem hitem
    rw [h.rewrite md items hitems item.2 htask hmark checked, Option.getD_some, Option.getD_some,
      taskItems_marked]

def TaskCheck.markedAt (ps : List Nat) (checked : Bool) (task : TaskCheck) : TaskCheck :=
  if task.marker ∈ ps then { task with checked } else task

theorem markedAt_marker (ps : List Nat) (task : TaskCheck) :
    (task.markedAt ps checked).marker = task.marker := by
  unfold TaskCheck.markedAt
  split <;> rfl

theorem markedAt_cons (p : Nat) (ps : List Nat) (task : TaskCheck) :
    (task.markedAt ps checked).marked p checked = task.markedAt (p :: ps) checked := by
  unfold TaskCheck.marked
  rw [markedAt_marker]
  unfold TaskCheck.markedAt
  by_cases hp : task.marker = p
  · by_cases hps : task.marker ∈ ps <;> simp [hp]
  · by_cases hps : task.marker ∈ ps <;> simp [hp, hps]

theorem reported_setMarks (h : parser.Documented) (ps : List Nat)
    (hps : ∀ p ∈ ps, (md[p]?).any isMark = true ∧ ∃ item ∈ reported parser md, item.2.marker = p) :
    reported parser (setMarks ps checked md) =
      (reported parser md).map fun item => (item.1, item.2.markedAt ps checked) := by
  induction ps with
  | nil => exact (List.map_id _).symm
  | cons p ps ih =>
    have hrest := ih fun q hq => hps q (List.mem_cons_of_mem p hq)
    obtain ⟨hmark, item, hitem, hp⟩ := hps p List.mem_cons_self
    have hitem' : (item.1, item.2.markedAt ps checked) ∈ reported parser (setMarks ps checked md) := by
      rw [hrest]
      exact List.mem_map_of_mem hitem
    have hmarker : (item.2.markedAt ps checked).marker = p := (markedAt_marker ps item.2).trans hp
    have hmark' : ((setMarks ps checked md)[p]?).any isMark = true := by
      rw [getElem?_setMarks]
      split
      · cases hget : md[p]? with
        | none =>
          rw [hget] at hmark
          cases hmark
        | some u => exact checkmark_isMark checked
      · exact hmark
    have hset := @reported_set parser (setMarks ps checked md) checked h _ hitem'
      (by rw [hmarker]; exact hmark')
    rw [hmarker, hrest, List.map_map] at hset
    refine hset.trans (List.map_congr_left fun other _ => ?_)
    exact Prod.ext rfl (markedAt_cons p ps other.2)

/-- The text is as before but for markers of task items, all task items of it are in the requested
state, and the same is not done again. -/
structure AllSet (parser : Mdast) (action : Units → Units) (md : Units) (checked : Bool) : Prop where
  length : (action md).length = md.length
  others : ∀ j, (∀ item ∈ reported parser md, item.2.marker ≠ j) → (action md)[j]? = md[j]?
  code : ∀ j, parser.inCode md j = true → (action md)[j]? = md[j]?
  idempotent : action (action md) = action md
  states : ∀ item ∈ reported parser (action md), item.2.checked = checked

theorem setAllTaskMarkers_found (h : parser.Documented) : setAllTaskMarkers parser md checked =
    if (found parser md checked).Nodup then setMarks (found parser md checked) checked md else md := by
  rw [setAllTaskMarkers_eq h]
  exact applyMarkdownEdits_eq fun p hp => lt_length_of_isMark (isMark_of_mem_found hp)

theorem setAllTaskMarkers_of_states (h : parser.Documented)
    (hstates : ∀ item ∈ reported parser md, item.2.checked = checked) :
    setAllTaskMarkers parser md checked = md := by
  have hpending : pending parser md checked = [] := by
    apply List.filter_eq_nil_iff.mpr
    intro item hitem
    simp [hstates item hitem]
  have hfound : found parser md checked = [] := by
    unfold found
    rw [hpending]
    rfl
  rw [setAllTaskMarkers_found h, hfound, if_pos List.nodup_nil]
  rfl

theorem markers_nodup (h : parser.Documented) (md : Units) :
    ((reported parser md).map (·.2.marker)).Nodup := by
  unfold reported
  cases hitems : parser.listItems md with
  | none => exact List.nodup_nil
  | some items =>
    have hmarkers := h.markers md items hitems
    rw [tasksOf_eq, List.map_map] at hmarkers
    exact hmarkers

theorem not_inCode (h : parser.Documented) {item : Nat × TaskCheck}
    (hitem : item ∈ reported parser md) : parser.inCode md item.2.marker = false := by
  unfold reported at hitem
  cases hitems : parser.listItems md with
  | none =>
    rw [hitems] at hitem
    cases hitem
  | some items =>
    rw [hitems, Option.getD_some] at hitem
    apply h.code md items hitems
    rw [tasksOf_eq]
    exact List.mem_map_of_mem hitem

theorem mem_found_iff (h : parser.Documented)
    (hall : ∀ item ∈ pending parser md checked, item.2.marker ∈ found parser md checked) :
    (found parser md checked).Nodup ∧ ∀ p, p ∈ found parser md checked ↔
      ∃ item ∈ pending parser md checked, item.2.marker = p := by
  have hnodup : ((pending parser md checked).map (·.2.marker)).Nodup :=
    (markers_nodup h md).sublist (List.filter_sublist.map _)
  have hsubset : (pending parser md checked).map (·.2.marker) ⊆ found parser md checked := by
    intro p hp
    obtain ⟨item, hitem, rfl⟩ := List.mem_map.mp hp
    exact hall item hitem
  have hlength : (found parser md checked).length ≤
      ((pending parser md checked).map (·.2.marker)).length := by
    rw [List.length_map]
    exact List.length_filterMap_le _ _
  have hperm := (List.subperm_of_subset hnodup hsubset).perm_of_length_le hlength
  refine ⟨hperm.nodup_iff.mp hnodup, fun p => ?_⟩
  rw [← hperm.mem_iff, List.mem_map]

theorem allSet_iff (h : parser.Documented) (md : Units) (checked : Bool) :
    AllSet parser (setAllTaskMarkers parser · checked) md checked ↔
      ∀ item ∈ pending parser md checked, item.2.marker ∈ found parser md checked := by
  constructor
  · intro hset item hitem
    obtain ⟨hitem, hstate⟩ := List.mem_filter.mp hitem
    have hothers := hset.others
    have hstates := hset.states
    rw [setAllTaskMarkers_found h] at hothers hstates
    split at hstates
    · rename_i hnodup
      rw [if_pos hnodup] at hothers
      -- a mark that belongs to no task item stands there already
      let ps := (found parser md checked).filter fun p =>
        (reported parser md).any fun other => other.2.marker = p
      have hmem : ∀ p, p ∈ ps ↔ p ∈ found parser md checked ∧
          ∃ other ∈ reported parser md, other.2.marker = p := by
        intro p
        simp [ps]
      have hsame : setMarks (found parser md checked) checked md = setMarks ps checked md := by
        apply List.ext_getElem?
        intro j
        rw [getElem?_setMarks ps]
        split
        · rename_i hj
          rw [getElem?_setMarks, if_pos ((hmem j).mp hj).1]
        · rename_i hj
          by_cases hfound : j ∈ found parser md checked
          · apply hothers
            intro other hother hmarker
            exact hj ((hmem j).mpr ⟨hfound, other, hother, hmarker⟩)
          · rw [getElem?_setMarks, if_neg hfound]
      have hreported := @reported_setMarks parser md checked h ps fun p hp =>
        ⟨isMark_of_mem_found ((hmem p).mp hp).1, ((hmem p).mp hp).2⟩
      rw [hsame, hreported] at hstates
      have himage := hstates _ (List.mem_map_of_mem hitem)
      unfold TaskCheck.markedAt at himage
      split at himage
      · rename_i hmarker
        exact ((hmem _).mp hmarker).1
      · exact absurd himage (of_decide_eq_true hstate)
    · exact absurd (hstates item hitem) (of_decide_eq_true hstate)
  · intro hall
    obtain ⟨hnodup, hmem⟩ := mem_found_iff h hall
    have hreport : ∀ p ∈ found parser md checked, ∃ item ∈ reported parser md, item.2.marker = p := by
      intro p hp
      obtain ⟨item, hitem, hmarker⟩ := (hmem p).mp hp
      exact ⟨item, (List.mem_filter.mp hitem).1, hmarker⟩
    have hrun : setAllTaskMarkers parser md checked =
        setMarks (found parser md checked) checked md := by
      rw [setAllTaskMarkers_found h, if_pos hnodup]
    have hstates : ∀ item ∈ reported parser (setAllTaskMarkers parser md checked),
        item.2.checked = checked := by
      intro item hitem
      rw [hrun, reported_setMarks h _ fun p hp => ⟨isMark_of_mem_found hp, hreport p hp⟩] at hitem
      obtain ⟨other, hother, rfl⟩ := List.mem_map.mp hitem
      unfold TaskCheck.markedAt
      split
      · rfl
      · rename_i hmarker
        by_contra hstate
        apply hmarker
        exact hall other (List.mem_filter.mpr ⟨hother, decide_eq_true hstate⟩)
    have hothers : ∀ j, (∀ item ∈ reported parser md, item.2.marker ≠ j) →
        (setAllTaskMarkers parser md checked)[j]? = md[j]? := by
      intro j hj
      have hnot : j ∉ found parser md checked := by
        intro hfound
        obtain ⟨item, hitem, hmarker⟩ := hreport j hfound
        exact hj item hitem hmarker
      rw [hrun, getElem?_setMarks, if_neg hnot]
    constructor
    · rw [hrun]
      exact length_setMarks _
    · exact hothers
    · intro j hj
      apply hothers
      intro item hitem hmarker
      have hcode := not_inCode h hitem
      rw [hmarker, hj] at hcode
      cases hcode
    · exact setAllTaskMarkers_of_states h hstates
    · exact hstates

/-- All tasks are set exactly if the pattern finds the marker of each task that is not in the
requested state, on the line of such a task. -/
theorem allTasks_exact (h : parser.Documented) (md : Units) :
    (AllSet parser (checkAllTasks parser) md true ↔ ∀ item ∈ pending parser md true,
      ∃ other ∈ pending parser md true,
        lineMark taskLineRegexp md other.1 = some item.2.marker) ∧
    (AllSet parser (uncheckAllTasks parser) md false ↔ ∀ item ∈ pending parser md false,
      ∃ other ∈ pending parser md false,
        lineMark taskLineRegexp md other.1 = some item.2.marker) := by
  have hset : ∀ checked, AllSet parser (setAllTaskMarkers parser · checked) md checked ↔
      ∀ item ∈ pending parser md checked, ∃ other ∈ pending parser md checked,
        lineMark taskLineRegexp md other.1 = some item.2.marker := by
    intro checked
    rw [allSet_iff h]
    simp only [found, List.mem_filterMap]
  exact ⟨hset true, hset false⟩

theorem allTasks_exact_ordered :
    AllSet (twoTasks (utf16 "1. [") (utf16 "] milk\n- [") (utf16 "] tea"))
        (checkAllTasks (twoTasks (utf16 "1. [") (utf16 "] milk\n- [") (utf16 "] tea")))
        (utf16 "1. [ ] milk\n- [x] tea") true ∧
      AllSet (twoTasks (utf16 "1. [") (utf16 "] milk\n- [") (utf16 "] tea"))
        (uncheckAllTasks (twoTasks (utf16 "1. [") (utf16 "] milk\n- [") (utf16 "] tea")))
        (utf16 "1. [ ] milk\n- [x] tea") false := by
  obtain ⟨hcheck, huncheck⟩ := @allTasks_exact
    (twoTasks (utf16 "1. [") (utf16 "] milk\n- [") (utf16 "] tea")) twoTasks_documented
    (utf16 "1. [ ] milk\n- [x] tea")
  exact ⟨hcheck.mpr (by decide +kernel), huncheck.mpr (by decide +kernel)⟩

/-- A task in a block quote is not checked. -/
theorem quoted_not_checked :
    checkAllTasks (twoTasks (utf16 "> - [") (utf16 "] milk\n- [") (utf16 "] tea"))
        (utf16 "> - [ ] milk\n- [x] tea") = utf16 "> - [ ] milk\n- [x] tea" ∧
      ¬AllSet (twoTasks (utf16 "> - [") (utf16 "] milk\n- [") (utf16 "] tea"))
        (checkAllTasks (twoTasks (utf16 "> - [") (utf16 "] milk\n- [") (utf16 "] tea")))
        (utf16 "> - [ ] milk\n- [x] tea") true := by
  have hpending : pending (twoTasks (utf16 "> - [") (utf16 "] milk\n- [") (utf16 "] tea"))
      (utf16 "> - [ ] milk\n- [x] tea") true = [(0, ⟨false, 5⟩)] := by decide +kernel
  have hfound : found (twoTasks (utf16 "> - [") (utf16 "] milk\n- [") (utf16 "] tea"))
      (utf16 "> - [ ] milk\n- [x] tea") true = [] := by decide +kernel
  constructor
  · have hrun := @setAllTaskMarkers_found
      (twoTasks (utf16 "> - [") (utf16 "] milk\n- [") (utf16 "] tea"))
      (utf16 "> - [ ] milk\n- [x] tea") true twoTasks_documented
    rw [hfound, if_pos List.nodup_nil] at hrun
    exact hrun
  · intro hset
    have hall := (allSet_iff twoTasks_documented _ true).mp hset
    rw [hpending, hfound] at hall
    have hmem := hall _ (List.mem_singleton_self _)
    cases hmem

end allSet

end Memoark.Web
