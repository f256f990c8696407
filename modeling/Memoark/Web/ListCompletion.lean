import Mathlib.Data.List.TakeWhile
import Memoark.Js.Number
import Memoark.Web.EditorKeys

/-! Enter in a list in the editor of a memo (`useListCompletion.ts`, `markdown-list-detection.ts`),
and whether a Markdown parser takes the new line for the next item of the list. -/
namespace Memoark.Web.ListCompletion
open EditorKeys (Textarea)
open Js (Units Number ascii decimal digitsValue isWhiteSpaceUnit utf16)

section lists

inductive ListType where
  | task | unordered | ordered
  deriving DecidableEq

structure ListItemInfo where
  type : Option ListType
  symbol : Option Units
  number : Option Number
  indent : Units

def lastLine (content : Units) : Units := (content.splitOn (ascii '\n')).getLast?.getD []

def markerBefore (marker : Units → Option Nat) (line : Units) : Option Units :=
  let rest := line.dropWhile isWhiteSpaceUnit
  (marker rest).bind fun n =>
    if (rest.drop n).takeWhile isWhiteSpaceUnit ≠ [] then some (rest.take n) else none

def markerAlone (marker : Units → Option Nat) (line : Units) : Bool :=
  let rest := line.dropWhile isWhiteSpaceUnit
  (marker rest).any fun n => (rest.drop n).all isWhiteSpaceUnit

def detectLastListItem (contentBeforeCursor : Units) : ListItemInfo :=
  let line := lastLine contentBeforeCursor
  let indent := line.takeWhile isWhiteSpaceUnit
  match (brackets bullet line).filter fun b => b.after.takeWhile isWhiteSpaceUnit ≠ [] with
  | some taskMatch => ⟨some .task, some taskMatch.marker, none, indent⟩
  | none =>
    match markerBefore bullet line with
    | some unorderedMatch => ⟨some .unordered, some unorderedMatch, none, indent⟩
    | none =>
      match markerBefore ordinal line with
      | some orderedMatch =>
        ⟨some .ordered, none, some (Js.parseInt orderedMatch.dropLast), indent⟩
      | none => ⟨none, none, none, indent⟩

def generateListContinuation (listInfo : ListItemInfo) : Units :=
  let symbol := listInfo.symbol.getD (utf16 "undefined")
  match listInfo.type with
  | some .task => listInfo.indent ++ symbol ++ utf16 " [ ] "
  | some .unordered => listInfo.indent ++ symbol ++ utf16 " "
  | some .ordered =>
    listInfo.indent ++ ((listInfo.number.getD (.finite 0)).plus 1).toString ++ utf16 ". "
  | none => listInfo.indent

def isEmptyListItem (line : Units) : Bool :=
  markerAlone bullet line ||
    (brackets bullet line).any (fun b => b.after.all isWhiteSpaceUnit) ||
    markerAlone ordinal line

structure KeyEvent where
  key : String
  isInIME : Bool
  shiftKey : Bool
  ctrlKey : Bool
  metaKey : Bool
  altKey : Bool
  /-- The milliseconds since a composition ended. -/
  sinceComposition : Int

def KeyEvent.ignored (event : KeyEvent) : Bool :=
  event.key ≠ "Enter" || event.isInIME || event.shiftKey || event.ctrlKey || event.metaKey ||
    event.altKey || event.sinceComposition < 100

def handleKeyDown (event : KeyEvent) (editor : Textarea) : Option Textarea :=
  if event.ignored then none
  else
    let cursorPosition := editor.selectionStart
    let contentBeforeCursor := editor.value.take cursorPosition
    let listInfo := detectLastListItem contentBeforeCursor
    if listInfo.type = none then none
    else
      let currentLine := lastLine contentBeforeCursor
      if isEmptyListItem currentLine then
        some (editor.removeText (cursorPosition - currentLine.length) currentLine.length)
      else some (editor.insertText (ascii '\n' :: generateListContinuation listInfo))

end lists

section markdown

inductive Marker where
  | bullet (symbol : UInt16)
  | ordered (number : Nat) (delimiter : UInt16)
  deriving DecidableEq

def Marker.next : Marker → Marker
  | .bullet symbol => .bullet symbol
  | .ordered number delimiter => .ordered (number + 1) delimiter

def isBlankUnit (u : UInt16) : Bool := u = ascii ' ' || u = ascii '\t'

def isBullet (u : UInt16) : Bool := u = ascii '-' || u = ascii '*' || u = ascii '+'

def isDelimiter (u : UInt16) : Bool := u = ascii '.' || u = ascii ')'

def endsMarker (contents : Units) : Bool := contents.head?.all isBlankUnit

/-- The parts of a line that has the form of a list item of Markdown: its indentation, its marker,
which has at most nine digits, and what follows. Whether the line is an item depends on the block in
which it stands: a parser says so. -/
def itemParts (line : Units) : Option (Units × Marker × Units) :=
  let indent := line.takeWhile isBlankUnit
  let rest := line.dropWhile isBlankUnit
  let digits := rest.takeWhile isDigitUnit
  match rest.drop digits.length with
  | [] => none
  | u :: contents =>
    if digits = [] then
      if isBullet u ∧ endsMarker contents then some (indent, .bullet u, contents) else none
    else if digits.length ≤ 9 ∧ isDelimiter u ∧ endsMarker contents then
      some (indent, .ordered (digitsValue digits) u, contents)
    else none

/-- A line with the indentation of another, its bullet or the next number with its delimiter, and a
box for a task. -/
def NextParts (task : Bool) (line newLine : Units) : Prop :=
  ∃ indent marker contents, itemParts line = some (indent, marker, contents) ∧
    itemParts newLine =
      some (indent, marker.next, if task then utf16 " [ ] " else utf16 " ")

def Marker.type : Marker → Bool × UInt16
  | .bullet symbol => (false, symbol)
  | .ordered _ delimiter => (true, delimiter)

/-- A Markdown parser, by what it says of a line of a text: where the list begins of which an item
begins on the line, the outer one where there are two. -/
abbrev ListParser := Units → Nat → Option Nat

def lastLineNumber (content : Units) : Nat := (content.splitOn (ascii '\n')).length - 1

def AtLineEnd (after : Units) : Prop := ∀ u ∈ after.head?, u = ascii '\n'

/-- What is documented of a parser. Blocks are read line by line. A list is a sequence of items whose
markers are of one type: a line with the indentation of an item and a marker of its type, and
nothing else but a box, is an item of the list. -/
structure ListParser.Documented (parse : ListParser) : Prop where
  lines : ∀ before after, AtLineEnd after →
    parse (before ++ after) (lastLineNumber before) = parse before (lastLineNumber before)
  items : ∀ before newLine list indent marker marker' contents box,
    parse before (lastLineNumber before) = some list →
      itemParts (lastLine before) = some (indent, marker, contents) → ascii '\n' ∉ newLine →
        itemParts newLine = some (indent, marker', utf16 box) → box = " " ∨ box = " [ ] " →
          marker'.type = marker.type →
            parse (before ++ ascii '\n' :: newLine) (lastLineNumber before + 1) = some list

def SameList (parse : ListParser) (text : Units) (line : Nat) : Prop :=
  ∃ list, parse text line = some list ∧ parse text (line + 1) = some list

def Marker.HasNext : Marker → Prop
  | .bullet _ => True
  | .ordered number delimiter => delimiter = ascii '.' ∧ number < 999999999

def Continuable (line : Units) : Prop :=
  ∃ indent marker contents, itemParts line = some (indent, marker, contents) ∧ marker.HasNext

variable {line indent contents digits : Units} {marker : Marker} {u : UInt16}

theorem not_blank_of_digit (h : isDigitUnit u = true) : isBlankUnit u = false := by
  have hspace : (ascii ' ').toNat = 0x20 := by decide
  have htab : (ascii '\t').toNat = 0x09 := by decide
  simp only [isDigitUnit, Bool.and_eq_true, decide_eq_true_eq] at h
  unfold isBlankUnit
  by_cases hblank : u = ascii ' ' ∨ u = ascii '\t'
  · rcases hblank with rfl | rfl
    · omega
    · omega
  · simpa using hblank

theorem itemParts_eq (hindent : indent.all isBlankUnit = true)
    (hdigits : digits.all isDigitUnit = true) (hblank : isBlankUnit u = false)
    (hdigit : isDigitUnit u = false) :
    itemParts (indent ++ (digits ++ u :: contents)) =
      if digits = [] then
        if isBullet u ∧ endsMarker contents then some (indent, .bullet u, contents) else none
      else if digits.length ≤ 9 ∧ isDelimiter u ∧ endsMarker contents then
        some (indent, .ordered (digitsValue digits) u, contents)
      else none := by
  have hrest : (digits ++ u :: contents).takeWhile isBlankUnit = [] ∧
      (digits ++ u :: contents).dropWhile isBlankUnit = digits ++ u :: contents := by
    cases digits with
    | nil => simp [hblank]
    | cons v vs =>
      have hv := not_blank_of_digit (List.all_eq_true.mp hdigits v List.mem_cons_self)
      simp [hv]
  have htake : (indent ++ (digits ++ u :: contents)).takeWhile isBlankUnit = indent := by
    rw [List.takeWhile_append_of_pos (List.all_eq_true.mp hindent), hrest.1, List.append_nil]
  have hdrop : (indent ++ (digits ++ u :: contents)).dropWhile isBlankUnit =
      digits ++ u :: contents := by
    rw [List.dropWhile_append_of_pos (List.all_eq_true.mp hindent), hrest.2]
  have hrun : (digits ++ u :: contents).takeWhile isDigitUnit = digits := by
    rw [List.takeWhile_append_of_pos (List.all_eq_true.mp hdigits)]
    simp [hdigit]
  unfold itemParts
  dsimp only
  rw [htake, hdrop, hrun, List.drop_left]

theorem itemParts_inv (h : itemParts line = some (indent, marker, contents)) :
    indent.all isBlankUnit = true ∧ ∃ u, endsMarker contents = true ∧
      (isBullet u = true ∧ marker = .bullet u ∧ line = indent ++ u :: contents ∨
        ∃ digits, digits ≠ [] ∧ digits.all isDigitUnit = true ∧ digits.length ≤ 9 ∧
          isDelimiter u = true ∧ marker = .ordered (digitsValue digits) u ∧
            line = indent ++ (digits ++ u :: contents)) := by
  have hline := @List.takeWhile_append_dropWhile _ isBlankUnit line
  have hrest := @List.takeWhile_append_dropWhile _ isDigitUnit (line.dropWhile isBlankUnit)
  have hindent : (line.takeWhile isBlankUnit).all isBlankUnit = true := List.all_takeWhile
  have hdigits : ((line.dropWhile isBlankUnit).takeWhile isDigitUnit).all isDigitUnit = true :=
    List.all_takeWhile
  have hafter :=
    congrArg (List.drop ((line.dropWhile isBlankUnit).takeWhile isDigitUnit).length) hrest
  rw [List.drop_left] at hafter
  rw [← hrest] at hline
  unfold itemParts at h
  dsimp only at h
  rw [← hafter] at h
  generalize (line.dropWhile isBlankUnit).takeWhile isDigitUnit = digits at hline hdigits h
  cases hcontents : (line.dropWhile isBlankUnit).dropWhile isDigitUnit with
  | nil =>
    rw [hcontents] at h
    cases h
  | cons u contents =>
    rw [hcontents] at h hline
    dsimp only at h
    by_cases hdigits' : digits = []
    · rw [if_pos hdigits'] at h
      by_cases hbullet : isBullet u = true ∧ endsMarker contents = true
      · rw [if_pos hbullet] at h
        cases h
        rw [hdigits'] at hline
        exact ⟨hindent, u, hbullet.2, .inl ⟨hbullet.1, rfl, hline.symm⟩⟩
      · rw [if_neg hbullet] at h
        cases h
    · rw [if_neg hdigits'] at h
      by_cases hnumber : digits.length ≤ 9 ∧ isDelimiter u = true ∧ endsMarker contents = true
      · rw [if_pos hnumber] at h
        cases h
        exact ⟨hindent, u, hnumber.2.2,
          .inr ⟨digits, hdigits', hdigits, hnumber.1, hnumber.2.1, rfl, hline.symm⟩⟩
      · rw [if_neg hnumber] at h
        cases h

end markdown

section continuation

variable {content line indent contents digits : Units} {u : UInt16}

theorem not_whiteSpace_of_digit (h : isDigitUnit u = true) : isWhiteSpaceUnit u = false := by
  simp only [isDigitUnit, Bool.and_eq_true, decide_eq_true_eq] at h
  simp [isWhiteSpaceUnit]
  omega

theorem isBullet_iff : isBullet u = true ↔ u ∈ [ascii '-', ascii '*', ascii '+'] := by
  simp [isBullet, or_assoc]

theorem not_of_bullet {p : UInt16 → Bool} (h : isBullet u = true)
    (hp : [ascii '-', ascii '*', ascii '+'].all (fun u => !p u) = true) : p u = false := by
  have hu := List.all_eq_true.mp hp u (isBullet_iff.mp h)
  simpa using hu

theorem not_whiteSpace_of_bullet (h : isBullet u = true) : isWhiteSpaceUnit u = false :=
  not_of_bullet h (by decide)

theorem not_digit_of_bullet (h : isBullet u = true) : isDigitUnit u = false :=
  not_of_bullet h (by decide)

theorem not_bullet_of_digit (h : isDigitUnit u = true) : isBullet u = false := by
  cases hbullet : isBullet u with
  | false => rfl
  | true =>
    rw [not_digit_of_bullet hbullet] at h
    cases h

theorem whiteSpace_of_blank (h : isBlankUnit u = true) : isWhiteSpaceUnit u = true := by
  have hspace : isWhiteSpaceUnit (ascii ' ') = true := by decide
  have htab : isWhiteSpaceUnit (ascii '\t') = true := by decide
  simp only [isBlankUnit, Bool.or_eq_true, decide_eq_true_eq] at h
  rcases h with rfl | rfl
  · exact hspace
  · exact htab

theorem indent_eq (hindent : indent.all isWhiteSpaceUnit = true) (hu : isWhiteSpaceUnit u = false) :
    (indent ++ u :: contents).takeWhile isWhiteSpaceUnit = indent ∧
      (indent ++ u :: contents).dropWhile isWhiteSpaceUnit = u :: contents := by
  rw [List.takeWhile_append_of_pos (List.all_eq_true.mp hindent),
    List.dropWhile_append_of_pos (List.all_eq_true.mp hindent)]
  simp [hu]

theorem bullet_inv {us : Units} {n : Nat} (h : bullet us = some n) :
    (∃ u vs, us = u :: vs ∧ isBullet u = true) ∧ n = 1 := by
  cases us with
  | nil => cases h
  | cons u us =>
    unfold bullet at h
    dsimp only at h
    by_cases hu : u ∈ [ascii '-', ascii '*', ascii '+']
    · rw [if_pos hu] at h
      exact ⟨⟨u, us, rfl, isBullet_iff.mpr hu⟩, (Option.some.inj h).symm⟩
    · rw [if_neg hu] at h
      cases h

theorem markerBefore_inv {marker : Units → Option Nat} {text : Units}
    (h : markerBefore marker line = some text) : ∃ n,
      marker (line.dropWhile isWhiteSpaceUnit) = some n ∧
        text = (line.dropWhile isWhiteSpaceUnit).take n := by
  unfold markerBefore at h
  obtain ⟨n, hmarker, hn⟩ := Option.bind_eq_some_iff.mp h
  refine ⟨n, hmarker, ?_⟩
  by_cases hgap : ((line.dropWhile isWhiteSpaceUnit).drop n).takeWhile isWhiteSpaceUnit ≠ []
  · rw [if_pos hgap] at hn
    exact (Option.some.inj hn).symm
  · rw [if_neg hgap] at hn
    cases hn

theorem isDelimiter_iff : isDelimiter u = true ↔ u ∈ [ascii '.', ascii ')'] := by
  simp [isDelimiter]

theorem not_digit_of_delimiter (h : isDelimiter u = true) : isDigitUnit u = false := by
  have hdot : isDigitUnit (ascii '.') = false := by decide
  have hbracket : isDigitUnit (ascii ')') = false := by decide
  simp only [isDelimiter, Bool.or_eq_true, decide_eq_true_eq] at h
  rcases h with rfl | rfl
  · exact hdot
  · exact hbracket

theorem ordinal_eq (hdigits : digits.all isDigitUnit = true) (hne : digits ≠ [])
    (hu : isDelimiter u = true) : ordinal (digits ++ u :: contents) = some (digits.length + 1) := by
  have hdigit := not_digit_of_delimiter hu
  have htake : (digits ++ u :: contents).takeWhile isDigitUnit = digits := by
    rw [List.takeWhile_append_of_pos (List.all_eq_true.mp hdigits)]
    simp [hdigit]
  have hdrop : (digits ++ u :: contents).dropWhile isDigitUnit = u :: contents := by
    rw [List.dropWhile_append_of_pos (List.all_eq_true.mp hdigits)]
    simp [hdigit]
  unfold ordinal
  dsimp only
  rw [htake, hdrop]
  exact if_pos ⟨hne, isDelimiter_iff.mp hu⟩

theorem detect_cases (hitem : (detectLastListItem content).type ≠ none) :
    (∃ type, (type = .task ∨ type = .unordered) ∧
      bullet ((lastLine content).dropWhile isWhiteSpaceUnit) = some 1 ∧
        detectLastListItem content = ⟨some type,
          some (((lastLine content).dropWhile isWhiteSpaceUnit).take 1), none,
            (lastLine content).takeWhile isWhiteSpaceUnit⟩) ∨
      ∃ n, ordinal ((lastLine content).dropWhile isWhiteSpaceUnit) = some n ∧
        detectLastListItem content = ⟨some .ordered, none,
          some (Js.parseInt (((lastLine content).dropWhile isWhiteSpaceUnit).take n).dropLast),
            (lastLine content).takeWhile isWhiteSpaceUnit⟩ := by
  unfold detectLastListItem at hitem ⊢
  dsimp only at hitem ⊢
  cases htask : (brackets bullet (lastLine content)).filter
      fun b => b.after.takeWhile isWhiteSpaceUnit ≠ [] with
  | some b =>
    obtain ⟨n, hbullet, -, hmarker, -⟩ := brackets_inv (Option.eq_some_of_filter_eq_some htask)
    obtain ⟨-, rfl⟩ := bullet_inv hbullet
    rw [← hmarker]
    exact .inl ⟨.task, .inl rfl, hbullet, rfl⟩
  | none =>
    rw [htask] at hitem
    dsimp only at hitem ⊢
    cases hunordered : markerBefore bullet (lastLine content) with
    | some text =>
      obtain ⟨n, hbullet, htext⟩ := markerBefore_inv hunordered
      obtain ⟨-, rfl⟩ := bullet_inv hbullet
      rw [← htext]
      exact .inl ⟨.unordered, .inr rfl, hbullet, rfl⟩
    | none =>
      rw [hunordered] at hitem
      dsimp only at hitem ⊢
      cases hordered : markerBefore ordinal (lastLine content) with
      | some text =>
        obtain ⟨n, hordinal, htext⟩ := markerBefore_inv hordered
        rw [htext]
        exact .inr ⟨n, hordinal, rfl⟩
      | none =>
        rw [hordered] at hitem
        exact absurd rfl hitem

theorem continuation_bullet (hline : lastLine content = indent ++ u :: contents)
    (hindent : indent.all isWhiteSpaceUnit = true) (hu : isBullet u = true)
    (hitem : (detectLastListItem content).type ≠ none) :
    generateListContinuation (detectLastListItem content) = indent ++ u ::
      if (detectLastListItem content).type = some .task then utf16 " [ ] " else utf16 " " := by
  obtain ⟨htake, hdrop⟩ := @indent_eq indent contents u hindent (not_whiteSpace_of_bullet hu)
  rcases detect_cases hitem with ⟨type, htype, -, hdetect⟩ | ⟨n, hordinal, -⟩
  · rw [hdetect, hline, hdrop, htake]
    rcases htype with rfl | rfl
    · simp [generateListContinuation]
    · simp [generateListContinuation]
  · rw [hline, hdrop] at hordinal
    have hdigit := not_digit_of_bullet hu
    simp [ordinal, hdigit] at hordinal

theorem continuation_ordered (hline : lastLine content = indent ++ (digits ++ u :: contents))
    (hindent : indent.all isWhiteSpaceUnit = true) (hdigits : digits.all isDigitUnit = true)
    (hne : digits ≠ []) (hlength : digits.length ≤ 9) (hu : isDelimiter u = true)
    (hitem : (detectLastListItem content).type ≠ none) :
    (detectLastListItem content).type = some .ordered ∧
      generateListContinuation (detectLastListItem content) =
        indent ++ (decimal (digitsValue digits + 1) ++ ascii '.' :: utf16 " ") := by
  obtain ⟨v, vs, rfl⟩ := List.exists_cons_of_ne_nil hne
  have hv := List.all_eq_true.mp hdigits v List.mem_cons_self
  obtain ⟨htake, hdrop⟩ := @indent_eq indent (vs ++ u :: contents) v hindent
    (not_whiteSpace_of_digit hv)
  rw [← List.cons_append] at htake hdrop
  rcases detect_cases hitem with ⟨-, -, hbullet, -⟩ | ⟨n, hordinal, hdetect⟩
  · rw [hline, hdrop] at hbullet
    obtain ⟨⟨w, ws, hfirst, hw⟩, -⟩ := bullet_inv hbullet
    obtain ⟨rfl, -⟩ := List.cons.inj hfirst
    rw [not_bullet_of_digit hv] at hw
    cases hw
  · have hnumber := @ordinal_eq contents (v :: vs) u hdigits hne hu
    rw [hline, hdrop, hnumber] at hordinal
    obtain rfl := Option.some.inj hordinal
    have htext : ((v :: vs ++ u :: contents).take ((v :: vs).length + 1)).dropLast = v :: vs := by
      have hsplit : v :: vs ++ u :: contents = (v :: vs ++ [u]) ++ contents := by simp
      have hsum : (v :: vs).length + 1 = (v :: vs ++ [u]).length := by simp
      rw [hsplit, hsum, List.take_left, List.dropLast_concat]
    have hvalue : digitsValue (v :: vs) < 10 ^ 13 := by
      have hlt := Js.digitsValue_lt (List.all_eq_true.mp hdigits)
      have hpow : 10 ^ (v :: vs).length ≤ 10 ^ 9 := Nat.pow_le_pow_right (by omega) hlength
      omega
    rw [hdetect, hline, hdrop, htake, htext]
    refine ⟨rfl, ?_⟩
    unfold generateListContinuation
    dsimp only [Option.getD_some]
    rw [Js.toString_plus_one hvalue, List.append_assoc]
    rfl

theorem whiteSpace_of_blanks (h : indent.all isBlankUnit = true) :
    indent.all isWhiteSpaceUnit = true :=
  List.all_eq_true.mpr fun v hv => whiteSpace_of_blank (List.all_eq_true.mp h v hv)

/-- What Markdown reads of the line after a number. -/
theorem itemParts_next (hindent : indent.all isBlankUnit = true) (n : Nat) :
    itemParts (indent ++ (decimal n ++ ascii '.' :: utf16 " ")) =
      if n < 10 ^ 9 then some (indent, .ordered n (ascii '.'), utf16 " ") else none := by
  have hdigits : (decimal n).all isDigitUnit = true := List.all_eq_true.mpr (Js.decimal_digits n)
  have hne : decimal n ≠ [] := by
    intro hnil
    exact Nat.toDigits_ne_nil (List.map_eq_nil_iff.mp hnil)
  have hend : endsMarker (utf16 " ") = true := by decide
  have hdot : isDelimiter (ascii '.') = true := by decide
  rw [itemParts_eq hindent hdigits (by decide) (by decide), if_neg hne, Js.digitsValue_decimal]
  by_cases hn : n < 10 ^ 9
  · have hlength := (Js.length_decimal_le_iff (by omega)).mpr hn
    rw [if_pos ⟨hlength, hdot, hend⟩, if_pos hn]
  · have hlength : ¬(decimal n).length ≤ 9 := by
      rw [Js.length_decimal_le_iff (by omega)]
      exact hn
    rw [if_neg fun h => hlength h.1, if_neg hn]

theorem itemParts_bullet (hindent : indent.all isBlankUnit = true) (hu : isBullet u = true)
    (hcontents : endsMarker contents = true) :
    itemParts (indent ++ u :: contents) = some (indent, .bullet u, contents) := by
  have hblank : isBlankUnit u = false := not_of_bullet hu (by decide)
  have hread := @itemParts_eq indent contents [] u hindent rfl hblank (not_digit_of_bullet hu)
  rw [if_pos rfl, if_pos ⟨hu, hcontents⟩] at hread
  exact hread

theorem nextParts_iff (hitem : (detectLastListItem content).type ≠ none) :
    NextParts ((detectLastListItem content).type = some .task) (lastLine content)
      (generateListContinuation (detectLastListItem content)) ↔ Continuable (lastLine content) := by
  unfold NextParts Continuable
  apply exists_congr
  intro indent
  apply exists_congr
  intro marker
  apply exists_congr
  intro contents
  rw [and_congr_right_iff]
  intro hread
  obtain ⟨hindent, u, -, ⟨hu, rfl, hline⟩ | ⟨digits, hne, hdigits, hlength, hu, rfl, hline⟩⟩ :=
    itemParts_inv hread
  · rw [continuation_bullet hline (whiteSpace_of_blanks hindent) hu hitem]
    apply iff_of_true
    · by_cases htask : (detectLastListItem content).type = some .task
      · have hend : endsMarker (utf16 " [ ] ") = true := by decide
        rw [if_pos htask, if_pos (decide_eq_true htask)]
        exact itemParts_bullet hindent hu hend
      · have hend : endsMarker (utf16 " ") = true := by decide
        rw [if_neg htask, if_neg fun h => htask (of_decide_eq_true h)]
        exact itemParts_bullet hindent hu hend
    · trivial
  · obtain ⟨htype, hcontinuation⟩ := continuation_ordered hline (whiteSpace_of_blanks hindent)
      hdigits hne hlength hu hitem
    have htask : ¬decide (some ListType.ordered = some .task) = true := by decide
    rw [hcontinuation, itemParts_next hindent, htype, if_neg htask]
    unfold Marker.next Marker.HasNext
    by_cases hn : digitsValue digits + 1 < 10 ^ 9
    · rw [if_pos hn]
      constructor
      · intro h
        have hmarker := (Prod.mk.inj (Prod.mk.inj (Option.some.inj h)).2).1
        injection hmarker with _ hdelimiter
        exact ⟨hdelimiter.symm, by omega⟩
      · intro h
        rw [h.1]
    · rw [if_neg hn]
      constructor
      · intro h
        cases h
      · intro h
        omega

end continuation

section enter

def IsMarker (text : Units) : Prop :=
  (∃ u, text = [u] ∧ isBullet u = true) ∨
    ∃ digits u, text = digits ++ [u] ∧ digits ≠ [] ∧ digits.all isDigitUnit = true ∧
      isDelimiter u = true

def IsBox (text : Units) : Prop :=
  ∃ before mark after, text = before ++ ascii '[' :: mark :: ascii ']' :: after ∧
    Js.blank before = true ∧ isMark mark = true ∧ Js.blank after = true

def OnlyMarker (line : Units) : Prop :=
  ∃ indent marker rest, line = indent ++ (marker ++ rest) ∧ Js.blank indent = true ∧
    IsMarker marker ∧ (Js.blank rest = true ∨ IsBox rest)

/-- What Enter is to do at the end of a list item, between the text before and after the caret. -/
structure ListContinued (parse : ListParser) (before after : Units) (result : Textarea) : Prop where
  /-- An empty item is taken away. -/
  empty : isEmptyListItem (lastLine before) = true → OnlyMarker (lastLine before) ∧
    ∃ kept, before = kept ++ lastLine before ∧ result.value = kept ++ after
  /-- Another item goes on on a line of its own. -/
  next : isEmptyListItem (lastLine before) = false → ∃ newLine, ascii '\n' ∉ newLine ∧
    result.value = before ++ ascii '\n' :: (newLine ++ after) ∧
      NextParts ((detectLastListItem before).type = some .task) (lastLine before) newLine ∧
        SameList parse result.value (lastLineNumber before)

variable {line : Units} {editor : Textarea} {event : KeyEvent}

theorem lastLine_spec (content : Units) : ∃ kept, content = kept ++ lastLine content ∧
    ascii '\n' ∉ lastLine content ∧ (kept = [] ∨ kept.getLast? = some (ascii '\n')) := by
  induction hn : content.length using Nat.strongRecOn generalizing content with
  | ind n ih =>
    by_cases hmem : ascii '\n' ∈ content
    · obtain ⟨xs, ys, rfl⟩ := List.append_of_mem hmem
      have hlast : lastLine (xs ++ ascii '\n' :: ys) = lastLine ys := by
        unfold lastLine
        rw [List.splitOn_append_cons_self,
          List.getLast?_append_of_ne_nil _ (List.splitOn_ne_nil _ _)]
      have hlength : ys.length < n := by
        rw [← hn, List.length_append, List.length_cons]
        omega
      obtain ⟨kept, hys, hfree, hkept⟩ := ih ys.length hlength ys rfl
      rw [hlast]
      refine ⟨xs ++ ascii '\n' :: kept, ?_, hfree, .inr ?_⟩
      · rw [List.append_assoc, List.cons_append, ← hys]
      · rw [List.getLast?_append_of_ne_nil _ (List.cons_ne_nil _ _)]
        rcases hkept with rfl | hkept
        · rfl
        · rw [List.getLast?_cons, hkept]
          rfl
    · have hlast : lastLine content = content := by
        unfold lastLine
        rw [List.splitOn_eq_singleton hmem]
        rfl
      rw [hlast]
      exact ⟨[], rfl, hmem, .inl rfl⟩

theorem isMarker_of_bullet {us : Units} {n : Nat} (h : bullet us = some n) :
    IsMarker (us.take n) := by
  obtain ⟨⟨u, vs, rfl, hu⟩, rfl⟩ := bullet_inv h
  exact .inl ⟨u, rfl, hu⟩

theorem isMarker_of_ordinal {us : Units} {n : Nat} (h : ordinal us = some n) :
    IsMarker (us.take n) := by
  have hus := @List.takeWhile_append_dropWhile _ isDigitUnit us
  have hdigits : (us.takeWhile isDigitUnit).all isDigitUnit = true := List.all_takeWhile
  unfold ordinal at h
  dsimp only at h
  generalize us.takeWhile isDigitUnit = digits at h hus hdigits
  cases hafter : us.dropWhile isDigitUnit with
  | nil =>
    rw [hafter] at h
    cases h
  | cons u contents =>
    rw [hafter] at h hus
    dsimp only at h
    by_cases hordinal : digits ≠ [] ∧ u ∈ [ascii '.', ascii ')']
    · rw [if_pos hordinal] at h
      obtain rfl := Option.some.inj h
      have htake : us.take (digits.length + 1) = digits ++ [u] := by
        have hsplit : us = (digits ++ [u]) ++ contents := by
          rw [← hus, List.append_assoc]
          rfl
        rw [hsplit, List.take_left' (by simp)]
      exact .inr ⟨digits, u, htake, hordinal.1, hdigits, isDelimiter_iff.mpr hordinal.2⟩
    · rw [if_neg hordinal] at h
      cases h

theorem onlyMarker_of_parts {n : Nat}
    (hmarker : IsMarker ((line.dropWhile isWhiteSpaceUnit).take n))
    (hrest : Js.blank ((line.dropWhile isWhiteSpaceUnit).drop n) = true ∨
      IsBox ((line.dropWhile isWhiteSpaceUnit).drop n)) : OnlyMarker line := by
  refine ⟨line.takeWhile isWhiteSpaceUnit, _, _, ?_, List.all_takeWhile, hmarker, hrest⟩
  rw [List.take_append_drop, List.takeWhile_append_dropWhile]

theorem markerAlone_inv {marker : Units → Option Nat} (h : markerAlone marker line = true) :
    ∃ n, marker (line.dropWhile isWhiteSpaceUnit) = some n ∧
      Js.blank ((line.dropWhile isWhiteSpaceUnit).drop n) = true := by
  unfold markerAlone at h
  dsimp only at h
  cases hmarker : marker (line.dropWhile isWhiteSpaceUnit) with
  | none =>
    rw [hmarker] at h
    cases h
  | some n =>
    rw [hmarker] at h
    exact ⟨n, rfl, h⟩

theorem onlyMarker_of_empty (h : isEmptyListItem line = true) : OnlyMarker line := by
  unfold isEmptyListItem at h
  rw [Bool.or_eq_true, Bool.or_eq_true] at h
  rcases h with (h | h) | h
  · obtain ⟨n, hbullet, hrest⟩ := markerAlone_inv h
    exact onlyMarker_of_parts (isMarker_of_bullet hbullet) (.inl hrest)
  · cases hbrackets : brackets bullet line with
    | none =>
      rw [hbrackets] at h
      cases h
    | some b =>
      rw [hbrackets] at h
      obtain ⟨n, hbullet, -, -, hgap, hafter, hmark⟩ := brackets_inv hbrackets
      have hblank : Js.blank b.gap = true := by
        rw [hgap]
        exact List.all_takeWhile
      have hrest : (line.dropWhile isWhiteSpaceUnit).drop n =
          b.gap ++ ascii '[' :: b.mark :: ascii ']' :: b.after := by
        rw [hgap, ← hafter, List.takeWhile_append_dropWhile]
      have hbox : IsBox ((line.dropWhile isWhiteSpaceUnit).drop n) :=
        ⟨b.gap, b.mark, b.after, hrest, hblank, hmark, h⟩
      exact onlyMarker_of_parts (isMarker_of_bullet hbullet) (.inr hbox)
  · obtain ⟨n, hordinal, hrest⟩ := markerAlone_inv h
    exact onlyMarker_of_parts (isMarker_of_ordinal hordinal) (.inl hrest)

theorem not_mem_of_all {us : Units} {p : UInt16 → Bool} (h : us.all p = true)
    (hp : p u = false) : u ∉ us := by
  intro hu
  rw [List.all_eq_true.mp h u hu] at hp
  cases hp

theorem NextParts.one_line {task : Bool} {newLine : Units} (h : NextParts task line newLine) :
    ascii '\n' ∉ newLine := by
  obtain ⟨indent, marker, contents, -, hnew⟩ := h
  have hcontents : ascii '\n' ∉ (if task then utf16 " [ ] " else utf16 " ") := by
    cases task <;> decide
  generalize (if task then utf16 " [ ] " else utf16 " ") = text at hnew hcontents
  obtain ⟨hindent, u, -, ⟨hu, -, hline⟩ | ⟨digits, -, hdigits, -, hu, -, hline⟩⟩ :=
    itemParts_inv hnew
  · have hbullet : ascii '\n' ≠ u := by
      rintro rfl
      exact absurd hu (by decide)
    have hblank : ascii '\n' ∉ indent := not_mem_of_all hindent (by decide)
    rw [hline, List.mem_append, List.mem_cons]
    simp [hblank, hbullet, hcontents]
  · have hdelimiter : ascii '\n' ≠ u := by
      rintro rfl
      exact absurd hu (by decide)
    have hblank : ascii '\n' ∉ indent := not_mem_of_all hindent (by decide)
    have hdigit : ascii '\n' ∉ digits := not_mem_of_all hdigits (by decide)
    rw [hline, List.mem_append, List.mem_append, List.mem_cons]
    simp [hblank, hdigit, hdelimiter, hcontents]

theorem removeText_value (before line after : Units) {editor : Textarea}
    (h : editor.value = before ++ line ++ after) :
    (editor.removeText before.length line.length).value = before ++ after := by
  unfold Textarea.removeText
  dsimp only [Textarea.setSelectionRange, Textarea.setValue]
  rw [h, ← List.length_append, List.drop_left, List.append_assoc, List.take_left]

theorem insertText_value {content : Units} (hcontent : content ≠ []) :
    (editor.insertText content).value = editor.value.take editor.selectionStart ++ content ++
      editor.value.drop editor.selectionEnd := by
  unfold Textarea.insertText
  dsimp only [Textarea.setSelectionRange, Textarea.setValue]
  rw [if_pos hcontent]

theorem splitOn_append_line (before : Units) {after : Units} (hafter : AtLineEnd after) :
    ∃ rest, (before ++ after).splitOn (ascii '\n') = before.splitOn (ascii '\n') ++ rest := by
  cases after with
  | nil => exact ⟨[], by rw [List.append_nil, List.append_nil]⟩
  | cons u after =>
    obtain rfl := hafter u rfl
    exact ⟨_, List.splitOn_append_cons_self _ _⟩

theorem exists_lines (content : Units) : ∃ earlier,
    content.splitOn (ascii '\n') = earlier ++ [lastLine content] ∧
      lastLineNumber content = earlier.length := by
  have hne := List.splitOn_ne_nil (ascii '\n') content
  refine ⟨(content.splitOn (ascii '\n')).dropLast, ?_, (List.length_dropLast ..).symm⟩
  unfold lastLine
  rw [List.getLast?_eq_some_getLast hne]
  exact (List.dropLast_append_getLast hne).symm

theorem lines_append {before newLine : Units} (hnewLine : ascii '\n' ∉ newLine) :
    (before ++ ascii '\n' :: newLine).splitOn (ascii '\n') =
      before.splitOn (ascii '\n') ++ [newLine] := by
  rw [List.splitOn_append_cons_self, List.splitOn_eq_singleton hnewLine]

theorem lastLine_append {before newLine : Units} (hnewLine : ascii '\n' ∉ newLine) :
    lastLine (before ++ ascii '\n' :: newLine) = newLine := by
  unfold lastLine
  rw [lines_append hnewLine, List.getLast?_concat]
  rfl

theorem lastLineNumber_append {before newLine : Units} (hnewLine : ascii '\n' ∉ newLine) :
    lastLineNumber (before ++ ascii '\n' :: newLine) = lastLineNumber before + 1 := by
  obtain ⟨earlier, hlines, hnumber⟩ := exists_lines before
  rw [hnumber, lastLineNumber, lines_append hnewLine, hlines]
  simp

theorem Marker.type_next (marker : Marker) : marker.next.type = marker.type := by
  cases marker with
  | bullet symbol => rfl
  | ordered number delimiter => rfl

theorem ListParser.Documented.sameList_iff {parse : ListParser} (hparse : parse.Documented)
    {before newLine after : Units} {task : Bool} (hafter : AtLineEnd after)
    (hnewLine : ascii '\n' ∉ newLine) (hnext : NextParts task (lastLine before) newLine) :
    SameList parse (before ++ ascii '\n' :: (newLine ++ after)) (lastLineNumber before) ↔
      (parse (before ++ after) (lastLineNumber before)).isSome := by
  have hsplit : before ++ ascii '\n' :: (newLine ++ after) =
      (before ++ ascii '\n' :: newLine) ++ after := by
    rw [List.append_assoc, List.cons_append]
  have hsecond := hparse.lines (before ++ ascii '\n' :: newLine) after hafter
  rw [lastLineNumber_append hnewLine, ← hsplit] at hsecond
  have hrest : AtLineEnd (ascii '\n' :: (newLine ++ after)) := fun u hu => (Option.some.inj hu).symm
  unfold SameList
  rw [hparse.lines before _ hrest, hsecond, hparse.lines before after hafter,
    Option.isSome_iff_exists]
  refine ⟨fun ⟨list, hlist, _⟩ => ⟨list, hlist⟩, fun ⟨list, hlist⟩ => ⟨list, hlist, ?_⟩⟩
  obtain ⟨indent, marker, contents, hparts, hparts'⟩ := hnext
  have hbox : (if task then utf16 " [ ] " else utf16 " ") =
      utf16 (if task then " [ ] " else " ") := by
    cases task
    · rfl
    · rfl
  rw [hbox] at hparts'
  refine hparse.items before newLine list indent marker marker.next contents _ hlist hparts hnewLine
    hparts' ?_ marker.type_next
  cases task
  · exact .inl rfl
  · exact .inr rfl

/-- Enter at the end of a list item takes the item away if it is empty, and goes on with the list
if and only if a parser reads an item there and its next number has a dot and at most nine digits. -/
theorem handleKeyDown_iff {parse : ListParser} (hparse : parse.Documented)
    (hkey : event.ignored = false) (hcaret : editor.selectionEnd = editor.selectionStart)
    (hend : AtLineEnd (editor.value.drop editor.selectionStart))
    (hitem : (detectLastListItem (editor.value.take editor.selectionStart)).type ≠ none) :
    (∃ result, handleKeyDown event editor = some result ∧
      ListContinued parse (editor.value.take editor.selectionStart)
        (editor.value.drop editor.selectionStart) result) ↔
      isEmptyListItem (lastLine (editor.value.take editor.selectionStart)) = true ∨
        Continuable (lastLine (editor.value.take editor.selectionStart)) ∧
          (parse editor.value
            (lastLineNumber (editor.value.take editor.selectionStart))).isSome := by
  have hinside := editor.inside
  have hbefore : (editor.value.take editor.selectionStart).length = editor.selectionStart := by
    rw [List.length_take]
    omega
  have hvalue := (List.take_append_drop editor.selectionStart editor.value).symm
  obtain ⟨kept, hkept, -, -⟩ := lastLine_spec (editor.value.take editor.selectionStart)
  unfold handleKeyDown
  rw [hkey, if_neg Bool.false_ne_true]
  dsimp only
  rw [if_neg hitem]
  generalize htake : editor.value.take editor.selectionStart = before
    at hitem hbefore hvalue hkept ⊢
  generalize hdrop : editor.value.drop editor.selectionStart = after at hend hvalue ⊢
  cases hempty : isEmptyListItem (lastLine before) with
  | true =>
    have hstart : editor.selectionStart - (lastLine before).length = kept.length := by
      have hlengths := congrArg List.length hkept
      rw [List.length_append] at hlengths
      omega
    have hparts : editor.value = kept ++ lastLine before ++ after := by
      rw [← hkept]
      exact hvalue
    have hresult := removeText_value kept (lastLine before) after hparts
    have hnot : isEmptyListItem (lastLine before) ≠ false := by
      rw [hempty]
      exact Bool.noConfusion
    rw [if_pos rfl, hstart]
    apply iff_of_true
    · exact ⟨_, rfl, fun _ => ⟨onlyMarker_of_empty hempty, kept, hkept, hresult⟩,
        fun hfalse => absurd hfalse hnot⟩
    · exact .inl rfl
  | false =>
    have hresult := @insertText_value editor
      (ascii '\n' :: generateListContinuation (detectLastListItem before)) (List.cons_ne_nil _ _)
    have hnot : isEmptyListItem (lastLine before) ≠ true := by
      rw [hempty]
      exact Bool.noConfusion
    rw [hcaret, htake, hdrop, List.append_assoc, List.cons_append] at hresult
    rw [if_neg Bool.false_ne_true, ← nextParts_iff hitem, hvalue]
    constructor
    · intro ⟨result, hsome, hcontinued⟩
      obtain rfl := Option.some.inj hsome
      obtain ⟨newLine, honeLine, hvalue', hnext, hlist⟩ := hcontinued.next hempty
      rw [hvalue'] at hlist
      have hread := (hparse.sameList_iff hend honeLine hnext).mp hlist
      rw [hresult] at hvalue'
      have hline := List.append_cancel_left hvalue'
      injection hline with _ hline
      rw [List.append_cancel_right hline]
      exact .inr ⟨hnext, hread⟩
    · intro h
      rcases h with h | ⟨hnext, hread⟩
      · cases h
      · refine ⟨_, rfl, fun htrue => absurd htrue hnot,
          fun _ => ⟨_, hnext.one_line, hresult, hnext, ?_⟩⟩
        rw [hresult]
        exact (hparse.sameList_iff hend hnext.one_line hnext).mpr hread

end enter

section flat

/-- The list of the last of some lines, the last one first: it goes on with the list of the line before
if that has the same indentation and type of marker. -/
def listOfLines : List Units → Option Nat
  | [] => none
  | line :: earlier =>
    match itemParts line, earlier.head?.bind itemParts with
    | none, _ => none
    | some _, none => some earlier.length
    | some (indent, marker, _), some (indent', marker', _) =>
      if indent' = indent ∧ marker'.type = marker.type then listOfLines earlier
      else some earlier.length

/-- A parser of texts that have nothing but items, one on each line, and paragraphs of one line. -/
def flatLists : ListParser := fun text n =>
  match (text.splitOn (ascii '\n')).drop n with
  | [] => none
  | line :: _ => listOfLines (line :: ((text.splitOn (ascii '\n')).take n).reverse)

theorem listOfLines_next {line newLine indent contents contents' : Units} {marker marker' : Marker}
    {earlier : List Units} (hparts : itemParts line = some (indent, marker, contents))
    (hparts' : itemParts newLine = some (indent, marker', contents'))
    (htype : marker'.type = marker.type) :
    listOfLines (newLine :: line :: earlier) = listOfLines (line :: earlier) := by
  rw [listOfLines, hparts', List.head?_cons, Option.bind_some, hparts]
  exact if_pos ⟨rfl, htype.symm⟩

theorem flatLists_eq {before after : Units} (hafter : AtLineEnd after) {earlier : List Units}
    (hlines : before.splitOn (ascii '\n') = earlier ++ [lastLine before]) :
    flatLists (before ++ after) earlier.length = listOfLines (lastLine before :: earlier.reverse) := by
  obtain ⟨rest, hsplit⟩ := splitOn_append_line before hafter
  rw [hlines, List.append_assoc] at hsplit
  unfold flatLists
  rw [hsplit, List.drop_left, List.take_left]
  rfl

theorem flatLists_documented : flatLists.Documented where
  lines before after hafter := by
    obtain ⟨earlier, hlines, hnumber⟩ := exists_lines before
    have hnone : AtLineEnd [] := fun u hu => by cases hu
    have hbefore := flatLists_eq hnone hlines
    rw [List.append_nil] at hbefore
    rw [hnumber, flatLists_eq hafter hlines, hbefore]
  items before newLine list indent marker marker' contents box hlist hparts hone hparts' _ htype := by
    obtain ⟨earlier, hlines, hnumber⟩ := exists_lines before
    have hnone : AtLineEnd [] := fun u hu => by cases hu
    have hbefore := flatLists_eq hnone hlines
    have hnew := @flatLists_eq (before ++ ascii '\n' :: newLine) [] hnone
      (earlier ++ [lastLine before]) (by rw [lines_append hone, hlines, lastLine_append hone])
    rw [List.append_nil] at hbefore hnew
    rw [hnumber, hbefore] at hlist
    rw [List.length_append, List.length_singleton] at hnew
    rw [hnumber, hnew, List.reverse_concat, lastLine_append hone]
    exact (listOfLines_next hparts hparts' htype).trans hlist

/-- Enter behind the second item of a list. -/
theorem handleKeyDown_second :
    let event : KeyEvent := ⟨"Enter", false, false, false, false, false, 1000⟩
    let editor : Textarea := ⟨utf16 "1. one\n2. two\nend", 13, 13, by decide, by decide⟩
    ∃ result, handleKeyDown event editor = some result ∧
      ListContinued flatLists (utf16 "1. one\n2. two") (utf16 "\nend") result := by
  intro event editor
  have hitem : (detectLastListItem (editor.value.take editor.selectionStart)).type ≠ none := by
    decide
  have hend : AtLineEnd (editor.value.drop editor.selectionStart) := by
    intro u hu
    exact (Option.some.inj hu).symm
  have hparts : itemParts (lastLine (editor.value.take editor.selectionStart)) =
      some ([], .ordered 2 (ascii '.'), utf16 " two") := by decide
  have hread : (flatLists editor.value
      (lastLineNumber (editor.value.take editor.selectionStart))).isSome = true := by decide
  exact (handleKeyDown_iff flatLists_documented rfl rfl hend hitem).mpr
    (.inr ⟨⟨_, _, _, hparts, rfl, by decide⟩, hread⟩)

/-- Behind `2) foo`, the next item has a dot, and Markdown begins another list. -/
theorem not_handleKeyDown :
    let event : KeyEvent := ⟨"Enter", false, false, false, false, false, 1000⟩
    let editor : Textarea := ⟨utf16 "2) foo", 6, 6, by decide, by decide⟩
    (detectLastListItem (utf16 "2) foo")).type = some .ordered ∧
      isEmptyListItem (lastLine (utf16 "2) foo")) = false ∧
      (handleKeyDown event editor).map (·.value) = some (utf16 "2) foo\n3. ") ∧
      ¬SameList flatLists (utf16 "2) foo\n3. ") 0 ∧
      ¬∃ result, handleKeyDown event editor = some result ∧
        ListContinued flatLists (utf16 "2) foo") [] result := by
  intro event editor
  have htype : (detectLastListItem (utf16 "2) foo")).type = some .ordered := by decide
  have hempty : isEmptyListItem (lastLine (utf16 "2) foo")) = false := by decide
  have hrun : (handleKeyDown event editor).map (·.value) = some (utf16 "2) foo\n3. ") := by
    decide +kernel
  have hother : ¬SameList flatLists (utf16 "2) foo\n3. ") 0 := by
    rintro ⟨list, hfirst, hsecond⟩
    have hlists : flatLists (utf16 "2) foo\n3. ") 0 = some 0 ∧
        flatLists (utf16 "2) foo\n3. ") 1 = some 1 := by decide
    rw [hlists.1] at hfirst
    rw [hlists.2, ← hfirst] at hsecond
    cases hsecond
  refine ⟨htype, hempty, hrun, hother, ?_⟩
  intro ⟨result, hsome, hcontinued⟩
  obtain ⟨newLine, -, -, -, hlist⟩ := hcontinued.next hempty
  rw [hsome] at hrun
  have hvalue : result.value = utf16 "2) foo\n3. " := Option.some.inj hrun
  rw [hvalue] at hlist
  exact hother hlist

end flat

end Memoark.Web.ListCompletion
