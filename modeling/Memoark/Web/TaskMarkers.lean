import Mathlib.Data.List.Nodup
import Memoark.Js.TextDecoder
import Memoark.Syntax.Split

/-! A task item is toggled (`markdown-manipulation.ts`): the parser of mdast says on which line the
item starts, and a pattern finds the mark on that line. -/
namespace Memoark.Web
open Js (Units ascii isWhiteSpaceUnit utf16)
open Syntax (lineStart)

section parser

structure TaskCheck where
  checked : Bool
  /-- The offset of the character between the brackets. -/
  marker : Nat
  deriving DecidableEq

structure ListItem where
  startLine : Nat
  task : Option TaskCheck
  deriving DecidableEq

/-- `fromMarkdown` with the extensions of GFM: the list items of a text in the order of `visit`, if
it does not throw, and the offsets that are in code. -/
structure Mdast where
  listItems : Units → Option (List ListItem)
  inCode : Units → Nat → Bool

def checkmark (checked : Bool) : UInt16 := if checked then ascii 'x' else ascii ' '

def isMark (u : UInt16) : Bool := u ∈ [ascii ' ', ascii 'x', ascii 'X']

def tasksOf (items : List ListItem) : List TaskCheck := items.filterMap (·.task)

def TaskCheck.marked (marker : Nat) (checked : Bool) (task : TaskCheck) : TaskCheck :=
  if task.marker = marker then { task with checked } else task

def ListItem.marked (marker : Nat) (checked : Bool) (item : ListItem) : ListItem :=
  { item with task := item.task.map (TaskCheck.marked marker checked) }

/-- What is known of the parser: items start on lines, each task item has a checkbox of its own,
which is not in code, and another mark in it changes the state of the item alone. -/
structure Mdast.Documented (parser : Mdast) : Prop where
  startLine : ∀ md items, parser.listItems md = some items → ∀ item ∈ items, 0 < item.startLine
  markers : ∀ md items, parser.listItems md = some items → ((tasksOf items).map (·.marker)).Nodup
  code : ∀ md items, parser.listItems md = some items →
    ∀ task ∈ tasksOf items, parser.inCode md task.marker = false
  rewrite : ∀ md items, parser.listItems md = some items → ∀ task ∈ tasksOf items,
    (md[task.marker]?).any isMark → ∀ checked,
      parser.listItems (md.set task.marker (checkmark checked)) =
        some (items.map (ListItem.marked task.marker checked))

end parser

section patterns

def isLineTerminatorUnit (u : UInt16) : Bool := u.toNat ∈ [0x0A, 0x0D, 0x2028, 0x2029]

def bullet : Units → Option Nat
  | u :: _ => if u ∈ [ascii '-', ascii '*', ascii '+'] then some 1 else none
  | [] => none

structure Brackets where
  indent : Units
  marker : Units
  gap : Units
  mark : UInt16
  after : Units
  deriving DecidableEq

def Brackets.before (b : Brackets) : Units := b.indent ++ b.marker ++ b.gap

/-- `^(\s*)MARKER(\s+)\[([ xX])\]`. What follows a repetition is never one more of it, so that it
takes all that there is. -/
def brackets (marker : Units → Option Nat) (line : Units) : Option Brackets :=
  let rest := line.dropWhile isWhiteSpaceUnit
  match marker rest with
  | none => none
  | some n =>
    let gap := (rest.drop n).takeWhile isWhiteSpaceUnit
    match (rest.drop n).dropWhile isWhiteSpaceUnit with
    | l :: mark :: r :: after =>
      if gap ≠ [] ∧ l = ascii '[' ∧ isMark mark ∧ r = ascii ']' then
        some ⟨line.takeWhile isWhiteSpaceUnit, rest.take n, gap, mark, after⟩
      else none
    | _ => none

/-- `(\s+.*)$`: all white space first, which `.` need not take then. -/
def isSuffix (after : Units) : Bool :=
  after.takeWhile isWhiteSpaceUnit ≠ [] ∧
    (after.dropWhile isWhiteSpaceUnit).all fun u => !isLineTerminatorUnit u

def taskPattern (line : Units) : Option Brackets :=
  (brackets bullet line).filter fun b => isSuffix b.after

end patterns

section toggle

structure TaskInfo where
  lineNumber : Nat
  checked : Bool

variable (parser : Mdast)

def extractTasksFromAst (markdown : Units) : Option (List TaskInfo) :=
  (parser.listItems markdown).map fun items => items.filterMap fun item =>
    item.task.bind fun task =>
      if item.startLine ≠ 0 then some ⟨item.startLine - 1, task.checked⟩ else none

def toggleTaskAtLine (markdown : Units) (lineNumber : Int) (checked : Bool) : Units :=
  let lines := markdown.splitOn (ascii '\n')
  if lineNumber < 0 ∨ lineNumber ≥ lines.length then markdown
  else
    match (lines[lineNumber.toNat]?).bind taskPattern with
    | none => markdown
    | some b =>
      [ascii '\n'].intercalate (lines.set lineNumber.toNat
        (b.before ++ ascii '[' :: checkmark checked :: ascii ']' :: b.after))

def toggleTaskAtIndex (markdown : Units) (taskIndex : Int) (checked : Bool) : Option Units :=
  (extractTasksFromAst parser markdown).map fun tasks =>
    if taskIndex < 0 ∨ taskIndex ≥ tasks.length then markdown
    else
      match tasks[taskIndex.toNat]? with
      | none => markdown
      | some task => toggleTaskAtLine markdown task.lineNumber checked

end toggle

section marks

variable {md line : Units} {b : Brackets} {n p : Nat}

theorem brackets_inv {marker : Units → Option Nat} (h : brackets marker line = some b) :
    ∃ n, marker (line.dropWhile isWhiteSpaceUnit) = some n ∧
      b.indent = line.takeWhile isWhiteSpaceUnit ∧
      b.marker = (line.dropWhile isWhiteSpaceUnit).take n ∧
      b.gap = ((line.dropWhile isWhiteSpaceUnit).drop n).takeWhile isWhiteSpaceUnit ∧
      ((line.dropWhile isWhiteSpaceUnit).drop n).dropWhile isWhiteSpaceUnit =
        ascii '[' :: b.mark :: ascii ']' :: b.after ∧ isMark b.mark = true := by
  unfold brackets at h
  dsimp only at h
  cases hmarker : marker (line.dropWhile isWhiteSpaceUnit) with
  | none =>
    rw [hmarker] at h
    cases h
  | some n =>
    rw [hmarker] at h
    dsimp only at h
    cases hbrackets : ((line.dropWhile isWhiteSpaceUnit).drop n).dropWhile isWhiteSpaceUnit with
    | nil =>
      rw [hbrackets] at h
      cases h
    | cons l us =>
      cases us with
      | nil =>
        rw [hbrackets] at h
        cases h
      | cons mark us =>
        cases us with
        | nil =>
          rw [hbrackets] at h
          cases h
        | cons r after =>
          rw [hbrackets] at h
          dsimp only at h
          split at h
          · rename_i hmatch
            obtain ⟨-, rfl, hmark, rfl⟩ := hmatch
            obtain rfl := Option.some.inj h
            exact ⟨n, rfl, rfl, rfl, rfl, hbrackets, hmark⟩
          · cases h

theorem brackets_eq {marker : Units → Option Nat} (h : brackets marker line = some b) :
    line = b.before ++ ascii '[' :: b.mark :: ascii ']' :: b.after ∧ isMark b.mark = true := by
  obtain ⟨n, -, hindent, hmarker, hgap, hafter, hmark⟩ := brackets_inv h
  have hline := @List.takeWhile_append_dropWhile _ isWhiteSpaceUnit line
  have hrest := List.take_append_drop n (line.dropWhile isWhiteSpaceUnit)
  have hbrackets := @List.takeWhile_append_dropWhile _ isWhiteSpaceUnit
    ((line.dropWhile isWhiteSpaceUnit).drop n)
  refine ⟨?_, hmark⟩
  unfold Brackets.before
  rw [hindent, hmarker, hgap, ← hafter, List.append_assoc, List.append_assoc, hbrackets, hrest,
    hline]

def Finds (pattern : Units → Option Brackets) : Prop := ∀ line b, pattern line = some b →
  line = b.before ++ ascii '[' :: b.mark :: ascii ']' :: b.after ∧ isMark b.mark = true

theorem taskPattern_finds : Finds taskPattern := by
  intro line b h
  exact brackets_eq (Option.filter_eq_some_iff.mp h).1

def textLines (md : Units) : List Units := md.splitOn (ascii '\n')

def lineMark (pattern : Units → Option Brackets) (md : Units) (lineNumber : Nat) : Option Nat :=
  (((textLines md)[lineNumber]?).bind pattern).map fun b =>
    lineStart (textLines md) lineNumber + (b.before.length + 1)

theorem intercalate_textLines (md : Units) : [ascii '\n'].intercalate (textLines md) = md :=
  List.intercalate_splitOn (ascii '\n')

theorem lineMark_eq_some {pattern : Units → Option Brackets} :
    lineMark pattern md n = some p ↔ ∃ line b, (textLines md)[n]? = some line ∧
      pattern line = some b ∧ lineStart (textLines md) n + (b.before.length + 1) = p := by
  unfold lineMark
  simp [Option.map_eq_some_iff, Option.bind_eq_some_iff]

theorem getElem?_lineStart {row : Units} {k : Nat} (h : (textLines md)[n]? = some row)
    (hk : k < row.length) : md[lineStart (textLines md) n + k]? = row[k]? := by
  have htake := Syntax.take_drop_lineStart (ascii '\n') h
  rw [intercalate_textLines] at htake
  rw [← List.getElem?_drop]
  conv_rhs => rw [← htake]
  rw [List.getElem?_take_of_lt hk]

theorem isMark_of_lineMark {pattern : Units → Option Brackets} (hpattern : Finds pattern)
    (h : lineMark pattern md n = some p) : (md[p]?).any isMark = true := by
  obtain ⟨row, b, hrow, hb, rfl⟩ := lineMark_eq_some.mp h
  obtain ⟨hparts, hmark⟩ := hpattern row b hb
  have hlength : b.before.length + 1 < row.length := by
    rw [hparts]
    simp
  have hget : row[b.before.length + 1]? = some b.mark := by
    rw [hparts]
    simp
  rw [getElem?_lineStart hrow hlength, hget]
  exact hmark

theorem lt_length_of_isMark (h : (md[p]?).any isMark = true) : p < md.length := by
  apply Nat.lt_of_not_le
  intro hle
  rw [List.getElem?_eq_none hle] at h
  cases h

end marks

section toggled

variable {parser : Mdast} {md out : Units} {items : List ListItem} {checked : Bool}

theorem toggleTaskAtLine_eq (md : Units) (n : Nat) (checked : Bool) :
    toggleTaskAtLine md n checked =
      (lineMark taskPattern md n).elim md fun p => md.set p (checkmark checked) := by
  unfold toggleTaskAtLine lineMark
  change (if (n : Int) < 0 ∨ (n : Int) ≥ (textLines md).length then md else _) = _
  by_cases hn : n < (textLines md).length
  · rw [if_neg (by omega), Int.toNat_natCast]
    cases hpattern : ((textLines md)[n]?).bind taskPattern with
    | none =>
      have hpattern' : ((md.splitOn (ascii '\n'))[n]?).bind taskPattern = none := hpattern
      rw [hpattern']
      rfl
    | some b =>
      have hpattern' : ((md.splitOn (ascii '\n'))[n]?).bind taskPattern = some b := hpattern
      rw [hpattern']
      obtain ⟨line, hline, hb⟩ := Option.bind_eq_some_iff.mp hpattern
      obtain ⟨hparts, -⟩ := taskPattern_finds line b hb
      have hlength : b.before.length + 1 < line.length := by
        rw [hparts]
        simp
      have hset : line.set (b.before.length + 1) (checkmark checked) =
          b.before ++ ascii '[' :: checkmark checked :: ascii ']' :: b.after := by
        rw [hparts, List.set_append_right _ _ (by omega)]
        simp
      have hline' := Syntax.intercalate_set (ascii '\n') hline hlength (checkmark checked)
      rw [intercalate_textLines, hset] at hline'
      exact hline'
  · rw [if_pos (by omega), List.getElem?_eq_none (by omega)]
    rfl

def taskItems (items : List ListItem) : List (Nat × TaskCheck) :=
  items.filterMap fun item => item.task.map fun task => (item.startLine - 1, task)

theorem tasksOf_eq (items : List ListItem) : tasksOf items = (taskItems items).map Prod.snd := by
  unfold tasksOf taskItems
  rw [List.map_filterMap]
  congr 1
  funext item
  cases item.task <;> rfl

theorem taskItems_marked (marker : Nat) (checked : Bool) (items : List ListItem) :
    taskItems (items.map (ListItem.marked marker checked)) =
      (taskItems items).map fun item => (item.1, item.2.marked marker checked) := by
  unfold taskItems
  rw [List.filterMap_map, List.map_filterMap]
  congr 1
  funext item
  cases h : item.task <;> simp [ListItem.marked, h]

theorem extractTasksFromAst_eq (h : parser.Documented) (hitems : parser.listItems md = some items) :
    extractTasksFromAst parser md =
      some ((taskItems items).map fun item => ⟨item.1, item.2.checked⟩) := by
  unfold extractTasksFromAst taskItems
  rw [hitems, Option.map_some, List.map_filterMap]
  congr 1
  apply List.filterMap_congr
  intro item hitem
  have hline := h.startLine md items hitems item hitem
  cases item.task with
  | none => rfl
  | some task =>
    rw [Option.bind_some, if_pos (by omega)]
    rfl

/-- The text is as before but for the marker of the task, and the `i`-th task item of it is in the
requested state. -/
structure Toggled (parser : Mdast) (md out : Units) (i : Nat) (task : TaskCheck) (checked : Bool) :
    Prop where
  length : out.length = md.length
  others : ∀ j, j ≠ task.marker → out[j]? = md[j]?
  state : ∃ items t, parser.listItems out = some items ∧ (tasksOf items)[i]? = some t ∧
    t.checked = checked

variable {i line p : Nat} {task : TaskCheck}

theorem toggled_self (hitems : parser.listItems md = some items)
    (htask : (taskItems items)[i]? = some (line, task)) :
    Toggled parser md md i task checked ↔ task.checked = checked := by
  have hget : (tasksOf items)[i]? = some task := by
    rw [tasksOf_eq, List.getElem?_map, htask]
    rfl
  constructor
  · intro h
    obtain ⟨items', t, hitems', ht, hchecked⟩ := h.state
    obtain rfl := Option.some.inj (hitems.symm.trans hitems')
    obtain rfl := Option.some.inj (hget.symm.trans ht)
    exact hchecked
  · intro hchecked
    exact ⟨rfl, fun _ _ => rfl, items, task, hitems, hget, hchecked⟩

theorem toggled_marker (h : parser.Documented) (hitems : parser.listItems md = some items)
    (htask : (taskItems items)[i]? = some (line, task))
    (hmark : (md[task.marker]?).any isMark = true) :
    Toggled parser md (md.set task.marker (checkmark checked)) i task checked := by
  have hmem : task ∈ tasksOf items := by
    rw [tasksOf_eq]
    exact List.mem_map_of_mem (List.mem_of_getElem? htask)
  have hitems' := h.rewrite md items hitems task hmem hmark checked
  have hget : (tasksOf (items.map (ListItem.marked task.marker checked)))[i]? =
      some { task with checked } := by
    rw [tasksOf_eq, taskItems_marked, List.getElem?_map, List.getElem?_map, htask]
    simp [TaskCheck.marked]
  constructor
  · exact List.length_set
  · intro j hj
    exact List.getElem?_set_ne hj.symm
  · exact ⟨_, _, hitems', hget, rfl⟩

theorem set_eq_self {u : UInt16} (h : md[p]? = some u) : md.set p u = md := by
  obtain ⟨hp, hu⟩ := List.getElem?_eq_some_iff.mp h
  rw [← hu]
  exact List.set_getElem_self hp

/-- A task is toggled exactly if the pattern finds its own marker on the line where it starts, or
it is in the requested state and the pattern finds no mark there that is to be another one. -/
theorem toggle_exact (h : parser.Documented) (hitems : parser.listItems md = some items)
    (htask : (taskItems items)[i]? = some (line, task)) (checked : Bool) :
    ∃ out, toggleTaskAtIndex parser md i checked = some out ∧
      (Toggled parser md out i task checked ↔
        lineMark taskPattern md line = some task.marker ∨ task.checked = checked ∧
          ∀ p, lineMark taskPattern md line = some p → md[p]? = some (checkmark checked)) := by
  have hlength : i < (taskItems items).length := (List.getElem?_eq_some_iff.mp htask).1
  have hrun : toggleTaskAtIndex parser md i checked = some (toggleTaskAtLine md line checked) := by
    unfold toggleTaskAtIndex
    rw [extractTasksFromAst_eq h hitems, Option.map_some, List.length_map, if_neg (by omega),
      Int.toNat_natCast, List.getElem?_map, htask]
    rfl
  refine ⟨_, hrun, ?_⟩
  rw [toggleTaskAtLine_eq]
  cases hmark : lineMark taskPattern md line with
  | none =>
    rw [Option.elim_none, toggled_self hitems htask]
    simp
  | some p =>
    rw [Option.elim_some]
    by_cases hp : p = task.marker
    · subst hp
      have htoggled := @toggled_marker parser md items checked i line task h hitems htask
        (isMark_of_lineMark taskPattern_finds hmark)
      simp [htoggled]
    · have hrange := lt_length_of_isMark (isMark_of_lineMark taskPattern_finds hmark)
      constructor
      · intro htoggled
        have hsame := htoggled.others p hp
        rw [List.getElem?_set_self hrange] at hsame
        rw [set_eq_self hsame.symm, toggled_self hitems htask] at htoggled
        right
        refine ⟨htoggled, fun p' hp' => ?_⟩
        rw [← Option.some.inj hp']
        exact hsame.symm
      · intro hcondition
        rcases hcondition with hown | hstate
        · exact absurd (Option.some.inj hown) hp
        · rw [set_eq_self (hstate.2 p rfl), toggled_self hitems htask]
          exact hstate.1

section twoTasks

variable (before middle after : Units)

def taskText (marks : Bool × Bool) : Units :=
  before ++ checkmark marks.1 :: (middle ++ checkmark marks.2 :: after)

def taskPair (marks : Bool × Bool) : List ListItem :=
  [⟨1, some ⟨marks.1, before.length⟩⟩, ⟨2, some ⟨marks.2, before.length + 1 + middle.length⟩⟩]

/-- The parser on one text with a task item on each of its two lines, checked or not. -/
def twoTasks : Mdast where
  listItems md :=
    some (([(false, false), (false, true), (true, false), (true, true)].find? fun marks =>
      md = taskText before middle after marks).elim [] (taskPair before middle))
  inCode _ _ := false

variable {before middle after}

theorem checkmark_inj {a b : Bool} (h : checkmark a = checkmark b) : a = b := by
  revert a b
  decide

theorem taskText_inj {marks marks' : Bool × Bool}
    (h : taskText before middle after marks = taskText before middle after marks') :
    marks = marks' := by
  obtain ⟨hfirst, hrest⟩ := List.cons.inj (List.append_cancel_left h)
  exact Prod.ext (checkmark_inj hfirst)
    (checkmark_inj (List.cons.inj (List.append_cancel_left hrest)).1)

theorem twoTasks_listItems (marks : Bool × Bool) :
    (twoTasks before middle after).listItems (taskText before middle after marks) =
      some (taskPair before middle marks) := by
  have hiff : ∀ marks', taskText before middle after marks = taskText before middle after marks' ↔
      marks = marks' := fun marks' => ⟨taskText_inj, congrArg _⟩
  simp only [twoTasks, hiff]
  revert marks
  simp

theorem twoTasks_cases {md : Units} {items : List ListItem}
    (h : (twoTasks before middle after).listItems md = some items) :
    items = [] ∨ ∃ marks, md = taskText before middle after marks ∧
      items = taskPair before middle marks := by
  have hitems := Option.some.inj h
  rcases hfind : [(false, false), (false, true), (true, false), (true, true)].find? fun marks =>
    md = taskText before middle after marks with _ | marks
  · rw [hfind] at hitems
    exact .inl hitems.symm
  · have hfound := List.find?_some hfind
    rw [hfind] at hitems
    exact .inr ⟨marks, of_decide_eq_true hfound, hitems.symm⟩

theorem twoTasks_documented : (twoTasks before middle after).Documented := by
  constructor
  · intro md items h item hitem
    rcases twoTasks_cases h with rfl | ⟨marks, -, rfl⟩
    · cases hitem
    · rcases List.mem_pair.mp hitem with rfl | rfl
      · exact Nat.one_pos
      · exact Nat.two_pos
  · intro md items h
    rcases twoTasks_cases h with rfl | ⟨marks, -, rfl⟩
    · exact List.nodup_nil
    · simp [taskPair, tasksOf]
      omega
  · intro md items h task htask
    rfl
  · intro md items h task htask hmark checked
    rcases twoTasks_cases h with rfl | ⟨marks, rfl, rfl⟩
    · cases htask
    · rcases List.mem_pair.mp htask with rfl | rfl
      · have hset : (taskText before middle after marks).set before.length (checkmark checked) =
            taskText before middle after (checked, marks.2) := by
          simp [taskText]
        rw [hset, twoTasks_listItems]
        simp [taskPair, ListItem.marked, TaskCheck.marked]
        omega
      · have hset : (taskText before middle after marks).set (before.length + 1 + middle.length)
            (checkmark checked) = taskText before middle after (marks.1, checked) := by
          have hindex : before.length + 1 + middle.length - before.length = middle.length + 1 := by
            omega
          rw [taskText, List.set_append_right _ _ (by omega), hindex, List.set_cons_succ,
            List.set_append_right _ _ (Nat.le_refl _), Nat.sub_self]
          rfl
        rw [hset, twoTasks_listItems]
        simp [taskPair, ListItem.marked, TaskCheck.marked]
        omega

end twoTasks

theorem toggle_exact_bullets : ∃ out,
    toggleTaskAtIndex (twoTasks (utf16 "- [") (utf16 "] milk\n* [") (utf16 "] tea"))
        (utf16 "- [ ] milk\n* [x] tea") 1 false = some out ∧
      Toggled (twoTasks (utf16 "- [") (utf16 "] milk\n* [") (utf16 "] tea"))
        (utf16 "- [ ] milk\n* [x] tea") out 1 ⟨true, 14⟩ false := by
  have hitems : (twoTasks (utf16 "- [") (utf16 "] milk\n* [") (utf16 "] tea")).listItems
      (utf16 "- [ ] milk\n* [x] tea") = _ := twoTasks_listItems (false, true)
  obtain ⟨out, hout, hexact⟩ := toggle_exact (i := 1) twoTasks_documented hitems rfl false
  exact ⟨out, hout, hexact.mpr (.inl (by decide +kernel))⟩

/-- A task in an ordered list is not toggled. -/
theorem ordered_not_toggled : ∃ out,
    toggleTaskAtIndex (twoTasks (utf16 "1. [") (utf16 "] milk\n2. [") (utf16 "] tea"))
        (utf16 "1. [ ] milk\n2. [x] tea") 0 true = some out ∧
      out = utf16 "1. [ ] milk\n2. [x] tea" ∧
      ¬Toggled (twoTasks (utf16 "1. [") (utf16 "] milk\n2. [") (utf16 "] tea"))
        (utf16 "1. [ ] milk\n2. [x] tea") out 0 ⟨false, 4⟩ true := by
  have hitems : (twoTasks (utf16 "1. [") (utf16 "] milk\n2. [") (utf16 "] tea")).listItems
      (utf16 "1. [ ] milk\n2. [x] tea") = _ := twoTasks_listItems (false, true)
  have hrun : toggleTaskAtIndex (twoTasks (utf16 "1. [") (utf16 "] milk\n2. [") (utf16 "] tea"))
      (utf16 "1. [ ] milk\n2. [x] tea") 0 true = some (utf16 "1. [ ] milk\n2. [x] tea") := by
    decide +kernel
  refine ⟨_, hrun, rfl, fun h => ?_⟩
  have hstate := (toggled_self (i := 0) hitems rfl).mp h
  cases hstate

end toggled

end Memoark.Web
