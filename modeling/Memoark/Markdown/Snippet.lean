import Mathlib.Algebra.GroupWithZero.Nat
import Memoark.Markdown.Extract

/-! `GenerateSnippet` of `markdown.go`: the plain text of a document, cut to a length. -/
namespace Memoark.Markdown

section snippet

/-- The text so far, and whether a block was left last. -/
structure SnippetWalk where
  buf : List Char
  lastNodeWasBlock : Bool

def Kind.isBlock : Kind → Bool
  | .Paragraph | .Heading _ | .ListItem | .TableCell | .TableRow | .TableHeader => true
  | _ => false

def Kind.isCode : Kind → Bool
  | .CodeBlock | .FencedCodeBlock => true
  | _ => false

def byteLen (cs : List Char) : Nat := (cs.map Char.utf8Size).sum

def nodeText : Kind → List Char
  | .Text segment softLineBreak => segment.toList ++ if softLineBreak then [' '] else []
  | .AutoLink url => url.toList
  | .Tag tag => '#' :: tag.toList
  | _ => []

def overBudget (budget : Option Nat) (buf : List Char) : Bool := budget.any (· < byteLen buf)

def snippetWalker (budget : Option Nat) : Walker Kind SnippetWalk := fun _ n entering s =>
  if !entering then
    ({ s with lastNodeWasBlock := s.lastNodeWasBlock || n.kind.isBlock }, .WalkContinue)
  else if n.kind.isCode then (s, .WalkSkipChildren)
  else
    let separated := if n.kind.isBlock ∧ s.buf ≠ [] ∧ s.lastNodeWasBlock then s.buf ++ [' '] else s.buf
    let buf := separated ++ nodeText n.kind
    match n.kind with
    -- The text of an autolink is its URL.
    | .AutoLink _ => (⟨buf, false⟩, .WalkSkipChildren)
    | _ => (⟨buf, false⟩, if overBudget budget buf then .WalkStop else .WalkContinue)

def lastIndexAny (chars : List Char) : List Char → Option Nat
  | [] => none
  | c :: cs =>
    match lastIndexAny chars cs with
    | some i => some (i + 1)
    | none => if c ∈ chars then some 0 else none

def wordBreaks : List Char := [' ', '\t', '\n', '\r']

def truncateAtWord (cs : List Char) (maxLength : Nat) : List Char :=
  if cs.length ≤ maxLength then cs
  else
    let truncated := cs.take maxLength
    let lastSpace := (lastIndexAny wordBreaks truncated).getD 0
    (if 0 < lastSpace then truncated.take lastSpace else truncated) ++ " ...".toList

def Service.written (service : Service) (budget : Option Nat) (content : String) : List Char :=
  (walk (snippetWalker budget) [] ⟨[], false⟩ (service.parse content)).1.buf

def Service.generateSnippet (service : Service) (content : String) (maxLength : Nat) : String :=
  let snippet := service.written (some (maxLength * 2)) content
  let snippet := if maxLength < byteLen snippet then truncateAtWord snippet maxLength else snippet
  Go.trimSpace (String.ofList snippet)

end snippet

section plain

variable (service : Service) (content : String)

def Service.plainText : List Char := service.written none content

def Service.plainParts : List (List Char) :=
  (walk (recording (snippetWalker none)) [] (⟨[], false⟩, []) (service.parse content)).1.2.map (·.buf)

/-- No part of the plain text up to a node, less than all of it, has more than `2 * maxLength` bytes
in at most `maxLength` characters. -/
def Service.Narrow (maxLength : Nat) : Prop :=
  ∀ part ∈ service.plainParts content, part ≠ service.plainText content →
    part.length ≤ maxLength → byteLen part ≤ maxLength * 2

instance (maxLength : Nat) : Decidable (service.Narrow content maxLength) :=
  inferInstanceAs (Decidable (∀ part ∈ _, _))

inductive CutAtWord (n : Nat) (text : List Char) : List Char → Prop
  /-- It ends before the last white space among them. -/
  | word {part rest : List Char} {c : Char} : text.take n = part ++ c :: rest → part ≠ [] →
      c ∈ wordBreaks → (∀ d ∈ rest, d ∉ wordBreaks) → CutAtWord n text part
  /-- None of them is white space, unless it is the first: all are left. -/
  | hard : (∀ d ∈ (text.take n).tail, d ∉ wordBreaks) → CutAtWord n text (text.take n)

theorem CutAtWord.begins_take {n : Nat} {text part : List Char} (h : CutAtWord n text part) :
    part <+: text.take n := by
  cases h with
  | word hsplit => exact ⟨_, hsplit.symm⟩
  | hard => exact List.prefix_refl _

theorem CutAtWord.begins {n : Nat} {text part : List Char} (h : CutAtWord n text part) :
    part <+: text := h.begins_take.trans <| List.take_prefix n text

theorem CutAtWord.length_le {n : Nat} {text part : List Char} (h : CutAtWord n text part) :
    part.length ≤ n := by
  have hle := h.begins_take.length_le
  rw [List.length_take] at hle
  omega

theorem length_le_byteLen (cs : List Char) : cs.length ≤ byteLen cs := by
  unfold byteLen
  induction cs with
  | nil => exact Nat.le_refl 0
  | cons c cs ih =>
    have hc := Char.utf8Size_pos c
    rw [List.map_cons, List.sum_cons, List.length_cons]
    omega

theorem lastIndexAny_none {chars cs : List Char} (h : lastIndexAny chars cs = none) :
    ∀ c ∈ cs, c ∉ chars := by
  induction cs with
  | nil => simp
  | cons c cs ih =>
    unfold lastIndexAny at h
    cases hrest : lastIndexAny chars cs with
    | some i =>
      rw [hrest] at h
      cases h
    | none =>
      rw [hrest] at h
      dsimp only at h
      split at h
      · cases h
      · rename_i hc
        intro d hd
        rcases List.mem_cons.mp hd with rfl | hd
        · exact hc
        · exact ih hrest d hd

theorem lastIndexAny_some {chars cs : List Char} {i : Nat} (h : lastIndexAny chars cs = some i) :
    ∃ before c after, cs = before ++ c :: after ∧ before.length = i ∧ c ∈ chars ∧
      ∀ d ∈ after, d ∉ chars := by
  induction cs generalizing i with
  | nil => cases h
  | cons c cs ih =>
    unfold lastIndexAny at h
    cases hrest : lastIndexAny chars cs with
    | some j =>
      rw [hrest] at h
      obtain rfl := Option.some.inj h
      obtain ⟨before, d, after, rfl, rfl, hd, hafter⟩ := ih hrest
      exact ⟨c :: before, d, after, rfl, rfl, hd, hafter⟩
    | none =>
      rw [hrest] at h
      dsimp only at h
      split at h
      · rename_i hc
        obtain rfl := Option.some.inj h
        exact ⟨[], c, cs, rfl, rfl, hc, lastIndexAny_none hrest⟩
      · cases h

theorem truncateAtWord_long {cs : List Char} {maxLength : Nat} (h : maxLength < cs.length) :
    ∃ part, CutAtWord maxLength cs part ∧
      truncateAtWord cs maxLength = part ++ " ...".toList := by
  unfold truncateAtWord
  rw [if_neg (by omega)]
  dsimp only
  cases hlast : lastIndexAny wordBreaks (cs.take maxLength) with
  | none =>
    refine ⟨cs.take maxLength, .hard ?_, rfl⟩
    intro d hd
    exact lastIndexAny_none hlast d (List.mem_of_mem_tail hd)
  | some i =>
    obtain ⟨before, c, after, htake, hi, hc, hafter⟩ := lastIndexAny_some hlast
    rw [Option.getD_some]
    split
    · rename_i hpos
      have hbefore : (cs.take maxLength).take i = before := by
        rw [htake, ← hi, List.take_left]
      have hne : before ≠ [] := List.ne_nil_of_length_pos (by omega)
      rw [hbefore]
      exact ⟨before, .word htake hne hc hafter, rfl⟩
    · rename_i hzero
      have hnil : before = [] := List.eq_nil_of_length_eq_zero (by omega)
      subst hnil
      refine ⟨cs.take maxLength, .hard ?_, rfl⟩
      rw [htake]
      exact hafter

theorem snippetWalker_eq (budget : Option Nat) (ancestors : List Kind) (n : Node Kind)
    (entering : Bool) (s : SnippetWalk) :
    (snippetWalker budget ancestors n entering s).1 =
        (snippetWalker none ancestors n entering s).1 ∧
      (snippetWalker none ancestors n entering s).2 ≠ .WalkStop ∧
      ((snippetWalker budget ancestors n entering s).2 = .WalkStop ∨
        (snippetWalker budget ancestors n entering s).2 =
          (snippetWalker none ancestors n entering s).2) := by
  unfold snippetWalker
  cases entering with
  | false => simp
  | true =>
    cases hcode : n.kind.isCode with
    | true => simp
    | false =>
      cases n.kind <;> simp [overBudget] <;> split <;> simp

theorem snippetWalker_grow (ancestors : List Kind) (n : Node Kind) (entering : Bool)
    (s : SnippetWalk) : s.buf <+: (snippetWalker none ancestors n entering s).1.buf := by
  unfold snippetWalker
  cases entering with
  | false => exact List.prefix_refl _
  | true =>
    cases hcode : n.kind.isCode with
    | true => exact List.prefix_refl _
    | false =>
      have hseparated : s.buf <+: (if n.kind.isBlock ∧ s.buf ≠ [] ∧ s.lastNodeWasBlock then
          s.buf ++ [' '] else s.buf) := by
        split
        · exact List.prefix_append _ _
        · exact List.prefix_refl _
      have hbuf := hseparated.trans (List.prefix_append _ (nodeText n.kind))
      cases hkind : n.kind <;> rw [hkind] at hbuf <;> exact hbuf

theorem snippetWalker_goesOn (budget : Option Nat) :
    GoesOn (fun s t : SnippetWalk => s.buf <+: t.buf) (snippetWalker budget)
      (snippetWalker none) where
  same ancestors n entering s h := by
    obtain ⟨hstate, -, hstop | hstatus⟩ := snippetWalker_eq budget ancestors n entering s
    · exact absurd hstop h
    · exact Prod.ext hstate.symm hstatus.symm
  past ancestors n entering s _ := (snippetWalker_eq budget ancestors n entering s).1.symm
  grow := snippetWalker_grow
  never ancestors n entering s := (snippetWalker_eq none ancestors n entering s).2.1
  refl _ := List.prefix_refl _
  trans _ _ _ := List.IsPrefix.trans

theorem written_begins (budget : Option Nat) :
    service.written budget content <+: service.plainText content := by
  have hbeside := walk_beside (snippetWalker_goesOn budget) [] ⟨[], false⟩ (service.parse content)
  unfold Beside at hbeside
  unfold Service.plainText Service.written
  split at hbeside
  · exact hbeside
  · simp [hbeside]

variable {service content} {maxLength : Nat}

theorem snippetWalker_stop {budget : Option Nat} {ancestors : List Kind} {n : Node Kind}
    {entering : Bool} {s : SnippetWalk}
    (h : (snippetWalker budget ancestors n entering s).2 = .WalkStop) :
    overBudget budget (snippetWalker budget ancestors n entering s).1.buf = true := by
  revert h
  unfold snippetWalker
  cases entering with
  | false => simp
  | true =>
    cases hcode : n.kind.isCode with
    | true => simp
    | false =>
      have hover : ∀ b : Bool,
          (if b = true then WalkStatus.WalkStop else .WalkContinue) = .WalkStop → b = true := by
        decide
      cases n.kind <;> first
        | exact hover _
        | exact fun h => by cases h

theorem written_stopped (service : Service) (content : String) (budget : Option Nat) :
    service.written budget content = service.plainText content ∨
      service.written budget content ∈ service.plainParts content ∧
        overBudget budget (service.written budget content) = true := by
  have hgoes := (snippetWalker_goesOn budget).recording
  have hbeside := walk_beside hgoes [] (⟨[], false⟩, []) (service.parse content)
  have hstopped := walk_stopped (w := recording (snippetWalker budget))
    (Q := fun s => s.1 ∈ s.2 ∧ overBudget budget s.1.buf = true)
    (fun ancestors n entering s hstop =>
      ⟨List.mem_append_right _ (List.mem_singleton_self _), snippetWalker_stop hstop⟩)
    [] (⟨[], false⟩, []) (service.parse content)
  have hwritten := (walk_recording (snippetWalker budget) [] (⟨[], false⟩, [])
    (service.parse content)).1
  have hplain := (walk_recording (snippetWalker none) [] (⟨[], false⟩, [])
    (service.parse content)).1
  unfold Service.plainText Service.plainParts Service.written
  rw [← hplain, ← hwritten]
  unfold Beside at hbeside
  cases hstop : (walk (recording (snippetWalker budget)) [] (⟨[], false⟩, [])
      (service.parse content)).2 with
  | false =>
    rw [hstop, if_neg Bool.false_ne_true] at hbeside
    exact .inl (by rw [hbeside])
  | true =>
    rw [hstop, if_pos rfl] at hbeside
    obtain ⟨hmem, hover⟩ := hstopped hstop
    exact .inr ⟨List.mem_map_of_mem (hbeside.2.subset hmem), hover⟩

theorem written_of_narrow (h : service.Narrow content maxLength) :
    service.written (some (maxLength * 2)) content = service.plainText content ∨
      maxLength < (service.written (some (maxLength * 2)) content).length := by
  by_cases hwhole : service.written (some (maxLength * 2)) content = service.plainText content
  · exact .inl hwhole
  · right
    obtain ⟨hmem, hover⟩ := (written_stopped service content _).resolve_left hwhole
    have hbytes : maxLength * 2 < byteLen (service.written (some (maxLength * 2)) content) := by
      simpa [overBudget] using hover
    apply Nat.lt_of_not_le
    intro hle
    exact absurd (h _ hmem hwhole hle) (Nat.not_le.mpr hbytes)

theorem CutAtWord.of_longer {text text' part : List Char} (h : CutAtWord maxLength text part)
    (hbegins : text <+: text') (hlong : maxLength ≤ text.length) :
    CutAtWord maxLength text' part := by
  have htake : text'.take maxLength = text.take maxLength := by
    obtain ⟨rest, rfl⟩ := hbegins
    exact List.take_append_of_le_length hlong
  cases h with
  | word hsplit hne hc hrest => exact .word (htake.trans hsplit) hne hc hrest
  | hard hrest =>
    rw [← htake] at hrest ⊢
    exact .hard hrest

/-- A document whose plain text has at most `maxLength` characters gives all of it, without the
white space around it; of a longer one the beginning is given, cut at a word if it has one, and an
ellipsis. -/
theorem generateSnippet_honest (h : service.Narrow content maxLength) :
    ((service.plainText content).length ≤ maxLength →
      service.generateSnippet content maxLength =
        Go.trimSpace (String.ofList (service.plainText content))) ∧
    (maxLength < (service.plainText content).length →
      ∃ part, CutAtWord maxLength (service.plainText content) part ∧
        part <+: service.plainText content ∧ part.length ≤ maxLength ∧
        service.generateSnippet content maxLength =
          Go.trimSpace (String.ofList (part ++ " ...".toList))) := by
  have hbegins := written_begins service content (some (maxLength * 2))
  have hwritten := written_of_narrow h
  have hle := hbegins.length_le
  constructor
  · intro hshort
    have hwhole : service.written (some (maxLength * 2)) content = service.plainText content := by
      rcases hwritten with hwhole | hlong
      · exact hwhole
      · omega
    have hsame : truncateAtWord (service.plainText content) maxLength =
        service.plainText content := if_pos hshort
    unfold Service.generateSnippet
    dsimp only
    rw [hwhole, hsame, ite_self]
  · intro hlong
    have hover : maxLength < (service.written (some (maxLength * 2)) content).length := by
      rcases hwritten with hwhole | hover
      · rw [hwhole]
        exact hlong
      · exact hover
    have hbytes := length_le_byteLen (service.written (some (maxLength * 2)) content)
    obtain ⟨part, hcut, htruncate⟩ := truncateAtWord_long hover
    have hcut := hcut.of_longer hbegins (Nat.le_of_lt hover)
    refine ⟨part, hcut, hcut.begins, hcut.length_le, ?_⟩
    unfold Service.generateSnippet
    dsimp only
    rw [if_pos (by omega), htruncate]

end plain

section samples

def paragraphService (nodes : List (Node Kind)) : Service where
  parse _ := .node .Document [.node .Paragraph nodes]

def emphasized : Service := paragraphService
  [.node (.Text "日本語日" false) [], .node .Other [.node (.Text "x" false) []]]

def twoWords : Service := paragraphService [.node (.Text "two words" false) []]

/-- A text is given as a whole if it is short enough, and cut if it is not: between its words, if it
has some. -/
theorem generateSnippet_honest_words :
    emphasized.generateSnippet "日本語日**x**" 6 =
        Go.trimSpace (String.ofList (emphasized.plainText "日本語日**x**")) ∧
      (∃ part, CutAtWord 3 (emphasized.plainText "日本語日**x**") part ∧
        emphasized.generateSnippet "日本語日**x**" 3 =
          Go.trimSpace (String.ofList (part ++ " ...".toList))) ∧
      ∃ part, CutAtWord 8 (twoWords.plainText "two words") part ∧
        twoWords.generateSnippet "two words" 8 =
          Go.trimSpace (String.ofList (part ++ " ...".toList)) := by
  have hwhole : emphasized.Narrow "日本語日**x**" 6 := by decide +kernel
  have hcut : emphasized.Narrow "日本語日**x**" 3 := by decide +kernel
  have hwords : twoWords.Narrow "two words" 8 := by decide +kernel
  obtain ⟨part, hpart, -, -, hsnippet⟩ := (generateSnippet_honest hcut).2 (by decide +kernel)
  obtain ⟨word, hword, -, -, hsnippet'⟩ := (generateSnippet_honest hwords).2 (by decide +kernel)
  exact ⟨(generateSnippet_honest hwhole).1 (by decide +kernel), ⟨part, hpart, hsnippet⟩, word, hword,
    hsnippet'⟩

/-- With a length of 5, the walk stops behind four of five characters, and no ellipsis tells so; a
word that is longer than the length is cut. -/
theorem generateSnippet_drops :
    (emphasized.plainText "日本語日**x**" = "日本語日x".toList ∧
      emphasized.generateSnippet "日本語日**x**" 5 = "日本語日") ∧
    (paragraphService [.node (.Text "abcdef" false) []]).generateSnippet "abcdef" 4 = "abcd ..." := by
  decide +kernel

end samples

end Memoark.Markdown
