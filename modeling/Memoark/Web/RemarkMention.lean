import Memoark.Markdown.Mention

/-! The plugin that marks mentions in the text nodes of a Markdown tree (`remark-mention.ts`). It
puts new nodes among the children that are being visited, so the visit reads them again. -/
namespace Memoark.Web
open Markdown (Categories InlineLoop)
open Syntax (lastOf atEach Scans)

def maxMentionLength : Nat := 32

def isMentionChar (c : Char) : Bool := c.isAlpha || c.isDigit || c == '-'

/-- Nothing, or a character that is not in names, is before the `@`. -/
def isMentionBoundary (prev : Option Char) : Bool := prev.all fun c => !isMentionChar c

inductive MentionSegment where
  | text (value : List Char)
  | mention (value : String)

def usernameRun (after : List Char) : List Char :=
  (after.takeWhile isMentionChar).take maxMentionLength

def hasLetterOrNumber (username : List Char) : Bool := username.any fun c => c.isAlpha || c.isDigit

def parseMentionsFromText (prev : Option Char) : List Char → List MentionSegment
  | [] => []
  | c :: chars =>
    let part := chars.takeWhile (· != '@')
    let text := .text (c :: part) ::
      parseMentionsFromText (lastOf (some c) part) (chars.dropWhile (· != '@'))
    if c = '@' ∧ isMentionBoundary prev = true ∧ chars.head?.any isMentionChar = true then
      let username := usernameRun chars
      if username ≠ [] ∧ hasLetterOrNumber username = true then
        .mention (String.ofList (username.map Char.toLower)) ::
          parseMentionsFromText (lastOf (some c) username) (chars.drop username.length)
      else text
    else text
termination_by chars => chars.length
decreasing_by
  · exact Nat.lt_succ_of_le (List.dropWhile_suffix _).length_le
  · exact Nat.lt_succ_of_le (List.drop_suffix _ _).length_le

/-- The children of a paragraph, as far as the plugin tells them apart. -/
inductive MentionChild where
  | text (value : List Char)
  | mentionNode (value : String)

def MentionSegment.child : MentionSegment → MentionChild
  | .text value => .text value
  | .mention value => .mentionNode value

def visitor : MentionChild → Option (List MentionChild)
  | .mentionNode _ => none
  | .text value =>
    let segments := parseMentionsFromText none value
    if segments.all (· matches .text _) then none else some (segments.map MentionSegment.child)

/-- `visit` on the children of a paragraph: when the visitor returns nothing, the next sibling in
the list as it is then is visited. -/
structure Visit where
  run : List MentionChild → List MentionChild
  run_nil : run [] = []
  run_keep : ∀ child rest, visitor child = none → run (child :: rest) = child :: run rest
  run_splice : ∀ child first others rest, visitor child = some (first :: others) →
    run (child :: rest) = first :: run (others ++ rest)

def mentionNames (children : List MentionChild) : List String :=
  children.filterMap fun
    | .text _ => none
    | .mentionNode value => some value

def remarkMention (visit : Visit) (text : List Char) : List MentionChild := visit.run [.text text]

section spec

/-- The user name that the plugin can mark behind an `@`. -/
def nameBehind (after : List Char) : Option String :=
  if hasLetterOrNumber (usernameRun after) then
    some (String.ofList ((usernameRun after).map Char.toLower))
  else none

def webMentionBehind (prev : Option Char) (after : List Char) : Option String :=
  if isMentionBoundary prev then nameBehind after else none

def mentionsOf (segments : List MentionSegment) : List String :=
  segments.filterMap fun
    | .text _ => none
    | .mention value => some value

def rereadMentions (segments : List MentionSegment) : List String :=
  segments.filterMap fun
    | .text ('@' :: after) => nameBehind after
    | .text _ => none
    | .mention value => some value

theorem mem_usernameRun {after : List Char} {c : Char} (h : c ∈ usernameRun after) :
    isMentionChar c = true := List.mem_takeWhile_imp (List.mem_of_mem_take h)

theorem at_notMem_usernameRun (after : List Char) : '@' ∉ usernameRun after := by
  intro h
  exact absurd (mem_usernameRun h) (by decide)

theorem usernameRun_of_has {after : List Char} (h : hasLetterOrNumber (usernameRun after) = true) :
    usernameRun after ≠ [] ∧ after.head?.any isMentionChar = true := by
  have hne : usernameRun after ≠ [] := by
    intro hnil
    rw [hnil] at h
    cases h
  refine ⟨hne, ?_⟩
  cases after with
  | nil => exact absurd rfl hne
  | cons c cs =>
    by_contra hc
    have hc : ¬isMentionChar c = true := hc
    rw [usernameRun, List.takeWhile_cons_of_neg hc, List.take_nil] at hne
    exact hne rfl

theorem nameBehind_append (part : List Char) {rest : List Char}
    (h : rest = [] ∨ ∃ cs, rest = '@' :: cs) : nameBehind (part ++ rest) = nameBehind part := by
  have hrest : rest.takeWhile isMentionChar = [] := by
    rcases h with rfl | ⟨cs, rfl⟩
    · rfl
    · exact List.takeWhile_cons_of_neg (by decide)
  have hrun : (part ++ rest).takeWhile isMentionChar = part.takeWhile isMentionChar := by
    rw [List.takeWhile_append, hrest, List.append_nil]
    split
    · rename_i hlen
      exact ((List.takeWhile_prefix _).eq_of_length hlen).symm
    · rfl
  rw [nameBehind, usernameRun, hrun]
  rfl

theorem parseMentions_cons (prev : Option Char) (c : Char) (cs : List Char) :
    (∃ part rest name, cs = part ++ rest ∧ '@' ∉ part ∧ c = '@' ∧
        webMentionBehind prev cs = some name ∧
        parseMentionsFromText prev (c :: cs) =
          .mention name :: parseMentionsFromText (lastOf (some c) part) rest) ∨
      ∃ part rest, cs = part ++ rest ∧ '@' ∉ part ∧ (rest = [] ∨ ∃ ds, rest = '@' :: ds) ∧
        (c = '@' → webMentionBehind prev cs = none) ∧
        parseMentionsFromText prev (c :: cs) =
          .text (c :: part) :: parseMentionsFromText (lastOf (some c) part) rest := by
  rw [parseMentionsFromText]
  have hpart : '@' ∉ cs.takeWhile (· != '@') := by
    intro h
    simpa using List.mem_takeWhile_imp h
  have hrest : cs.dropWhile (· != '@') = [] ∨ ∃ ds, cs.dropWhile (· != '@') = '@' :: ds := by
    cases hr : cs.dropWhile (· != '@') with
    | nil => exact .inl rfl
    | cons d ds =>
      have hd := List.head?_dropWhile_not (· != '@') cs
      rw [hr] at hd
      obtain rfl : d = '@' := by simpa using hd
      exact .inr ⟨ds, rfl⟩
  have hsplit : cs = cs.takeWhile (· != '@') ++ cs.dropWhile (· != '@') :=
    List.takeWhile_append_dropWhile.symm
  by_cases hname : c = '@' ∧ isMentionBoundary prev = true ∧
      hasLetterOrNumber (usernameRun cs) = true
  · obtain ⟨hc, hboundary, hhas⟩ := hname
    obtain ⟨hne, hhead⟩ := usernameRun_of_has hhas
    rw [if_pos ⟨hc, hboundary, hhead⟩]
    dsimp only
    rw [if_pos ⟨hne, hhas⟩]
    refine .inl ⟨usernameRun cs, cs.drop (usernameRun cs).length, _, ?_, at_notMem_usernameRun cs, hc,
      ?_, rfl⟩
    · have hprefix : usernameRun cs <+: cs :=
        (List.take_prefix _ _).trans (List.takeWhile_prefix _)
      exact (List.prefix_iff_eq_append.mp hprefix).symm
    · rw [webMentionBehind, if_pos hboundary, nameBehind, if_pos hhas]
  · refine .inr ⟨_, _, hsplit, hpart, hrest, ?_, ?_⟩
    · intro hc
      rw [webMentionBehind]
      split
      · rename_i hboundary
        exact if_neg fun hhas => hname ⟨hc, hboundary, hhas⟩
      · rfl
    · split
      · rename_i hcond
        dsimp only
        rw [if_neg fun h => hname ⟨hcond.1, hcond.2.1, h.2⟩]
      · rfl

theorem parseMentions_scans : Scans '@' webMentionBehind (fun _ => True)
    fun prev text => mentionsOf (parseMentionsFromText prev text) where
  tail _ _ h := h
  nil _ := by rw [parseMentionsFromText]; rfl
  step prev c cs _ := by
    rcases parseMentions_cons prev c cs with
      ⟨part, rest, name, hcs, hpart, rfl, hread, hparse⟩ | ⟨part, rest, hcs, hpart, -, hnone, hparse⟩
    · refine ⟨part, rest, hcs, hpart, ?_⟩
      rw [hparse, if_pos rfl, hread]
      rfl
    · refine ⟨part, rest, hcs, hpart, ?_⟩
      rw [hparse]
      split
      · rename_i hc
        rw [hnone hc]
        rfl
      · rfl

theorem reread_scans : Scans '@' (fun _ after => nameBehind after) (fun _ => True)
    fun prev text => rereadMentions (parseMentionsFromText prev text) where
  tail _ _ h := h
  nil _ := by rw [parseMentionsFromText]; rfl
  step prev c cs _ := by
    rcases parseMentions_cons prev c cs with
      ⟨part, rest, name, hcs, hpart, rfl, hread, hparse⟩ | ⟨part, rest, hcs, hpart, hrest, -, hparse⟩
    · refine ⟨part, rest, hcs, hpart, ?_⟩
      have hname : nameBehind cs = some name := by
        rw [webMentionBehind] at hread
        split at hread
        · exact hread
        · cases hread
      rw [hparse, if_pos rfl, hname]
      rfl
    · refine ⟨part, rest, hcs, hpart, ?_⟩
      rw [hparse]
      split
      · rename_i hc
        rw [hc, hcs, nameBehind_append part hrest]
        cases hname : nameBehind part <;> simp [rereadMentions, hname]
      · rename_i hc
        simp [rereadMentions, hc]

end spec

section visit

variable (visit : Visit)

theorem parseMentions_text (prev : Option Char) {value : List Char} (h : '@' ∉ value) :
    parseMentionsFromText prev value = [] ∨ parseMentionsFromText prev value = [.text value] := by
  cases value with
  | nil => exact .inl (by rw [parseMentionsFromText])
  | cons c cs =>
    have hc : c ≠ '@' := fun heq => h (heq ▸ List.mem_cons_self)
    rcases parseMentions_cons prev c cs with
      ⟨part, rest, name, hcs, hpart, heq, -⟩ | ⟨part, rest, hcs, -, hrest, -, hparse⟩
    · exact absurd heq hc
    · rcases hrest with rfl | ⟨ds, rfl⟩
      · rw [List.append_nil] at hcs
        rw [hparse, parseMentionsFromText, ← hcs]
        exact .inr rfl
      · refine absurd (List.mem_cons_of_mem c ?_) h
        rw [hcs]
        exact List.mem_append_right _ List.mem_cons_self

theorem visitor_text_none {value : List Char}
    (h : (parseMentionsFromText none value).all (· matches .text _) = true) :
    visitor (.text value) = none := if_pos h

theorem visit_keep_text {value : List Char} (rest : List MentionChild)
    (h : (parseMentionsFromText none value).all (· matches .text _) = true) :
    mentionNames (visit.run (.text value :: rest)) = mentionNames (visit.run rest) := by
  rw [visit.run_keep _ _ (visitor_text_none h)]
  rfl

theorem visit_keep_mention (name : String) (rest : List MentionChild) :
    mentionNames (visit.run (.mentionNode name :: rest)) =
      name :: mentionNames (visit.run rest) := by
  rw [visit.run_keep _ _ rfl]
  rfl

theorem visit_text {c : Char} {cs : List Char} (h : '@' ∉ cs) (rest : List MentionChild) :
    mentionNames (visit.run (.text (c :: cs) :: rest)) =
      rereadMentions [.text (c :: cs)] ++ mentionNames (visit.run rest) := by
  rcases parseMentions_cons none c cs with
    ⟨part, after, name, hcs, -, rfl, hread, hparse⟩ | ⟨part, after, hcs, -, hafter, hnone, hparse⟩
  · have hafter : '@' ∉ after := fun hmem => h (hcs ▸ List.mem_append_right part hmem)
    have hname : nameBehind cs = some name := hread
    let segments := parseMentionsFromText (lastOf (some '@') part) after
    have hvisitor : visitor (.text ('@' :: cs)) =
        some (.mentionNode name :: segments.map MentionSegment.child) := by
      dsimp only [visitor]
      rw [hparse]
      exact if_neg (by simp)
    have hsegments : mentionNames (visit.run (segments.map MentionSegment.child ++ rest)) =
        mentionNames (visit.run rest) := by
      rcases parseMentions_text (lastOf (some '@') part) hafter with hnil | htext
      · simp only [segments, hnil]
        rfl
      · simp only [segments, htext]
        refine visit_keep_text visit rest ?_
        rcases parseMentions_text none hafter with hnil | htext
        · rw [hnil]
          rfl
        · rw [htext]
          rfl
    rw [visit.run_splice _ _ _ _ hvisitor]
    change name :: mentionNames (visit.run (segments.map MentionSegment.child ++ rest)) = _
    rw [hsegments]
    simp [rereadMentions, hname]
  · obtain rfl : after = [] := by
      rcases hafter with rfl | ⟨ds, rfl⟩
      · rfl
      · exact absurd (hcs ▸ List.mem_append_right part List.mem_cons_self) h
    rw [visit_keep_text]
    · by_cases hc : c = '@'
      · have hname : nameBehind cs = none := hnone hc
        simp [rereadMentions, hc, hname]
      · simp [rereadMentions, hc]
    · rw [hparse, parseMentionsFromText]
      rfl

def MentionSegment.Cut : MentionSegment → Prop
  | .text [] => False
  | .text (_ :: cs) => '@' ∉ cs
  | .mention _ => True

theorem parseMentions_cut (prev : Option Char) (text : List Char) :
    ∀ segment ∈ parseMentionsFromText prev text, segment.Cut := by
  induction hn : text.length using Nat.strongRecOn generalizing prev text with
  | ind n ih =>
    cases text with
    | nil =>
      rw [parseMentionsFromText]
      exact fun _ h => nomatch h
    | cons c cs =>
      have hshorter : ∀ part rest : List Char, cs = part ++ rest → rest.length < n := by
        rintro part rest rfl
        simp only [List.length_cons, List.length_append] at hn
        omega
      rcases parseMentions_cons prev c cs with
        ⟨part, rest, name, hcs, -, -, -, hparse⟩ | ⟨part, rest, hcs, hpart, -, -, hparse⟩
      · rw [hparse]
        refine List.forall_mem_cons.mpr ⟨trivial, ih _ (hshorter part rest hcs) _ _ rfl⟩
      · rw [hparse]
        exact List.forall_mem_cons.mpr ⟨hpart, ih _ (hshorter part rest hcs) _ _ rfl⟩

theorem visit_segments {segments : List MentionSegment} (h : ∀ segment ∈ segments, segment.Cut) :
    mentionNames (visit.run (segments.map MentionSegment.child)) = rereadMentions segments := by
  induction segments with
  | nil =>
    rw [List.map_nil, visit.run_nil]
    rfl
  | cons segment segments ih =>
    obtain ⟨hsegment, hsegments⟩ := List.forall_mem_cons.mp h
    rw [List.map_cons]
    cases segment with
    | mention value =>
      rw [MentionSegment.child, visit_keep_mention, ih hsegments]
      rfl
    | text value =>
      cases value with
      | nil => exact hsegment.elim
      | cons c cs =>
        rw [MentionSegment.child, visit_text visit hsegment, ih hsegments]
        exact (List.filterMap_append (l := [MentionSegment.text (c :: cs)])).symm

theorem reread_first {text : List Char} {first : MentionSegment} {others : List MentionSegment}
    (h : parseMentionsFromText none text = first :: others) :
    mentionNames [first.child] = rereadMentions [first] := by
  cases text with
  | nil =>
    rw [parseMentionsFromText] at h
    cases h
  | cons c cs =>
    rcases parseMentions_cons none c cs with
      ⟨part, rest, name, -, -, -, -, hparse⟩ | ⟨part, rest, rfl, -, hrest, hnone, hparse⟩
    · rw [hparse] at h
      obtain rfl := (List.cons.inj h).1
      rfl
    · rw [hparse] at h
      obtain rfl := (List.cons.inj h).1
      by_cases hc : c = '@'
      · have hname : nameBehind (part ++ rest) = none := hnone hc
        rw [nameBehind_append part hrest] at hname
        simp [mentionNames, MentionSegment.child, rereadMentions, hc, hname]
      · simp [mentionNames, MentionSegment.child, rereadMentions, hc]

theorem mentionsOf_eq_nil (segments : List MentionSegment) :
    mentionsOf segments = [] ↔ segments.all (· matches .text _) = true := by
  induction segments with
  | nil => simp [mentionsOf]
  | cons segment segments ih =>
    cases segment with
    | text value => exact ih
    | mention value => simp [mentionsOf]

theorem mentionNames_remarkMention (text : List Char) :
    mentionNames (remarkMention visit text) =
      if mentionsOf (parseMentionsFromText none text) = [] then []
      else rereadMentions (parseMentionsFromText none text) := by
  rw [remarkMention]
  by_cases hall : (parseMentionsFromText none text).all (· matches .text _) = true
  · rw [if_pos ((mentionsOf_eq_nil _).mpr hall), visit_keep_text visit [] hall, visit.run_nil]
    rfl
  · rw [if_neg (fun h => hall ((mentionsOf_eq_nil _).mp h))]
    cases hparse : parseMentionsFromText none text with
    | nil =>
      rw [hparse] at hall
      exact absurd rfl hall
    | cons first others =>
      have hvisitor : visitor (.text text) =
          some (first.child :: others.map MentionSegment.child) := by
        dsimp only [visitor]
        rw [hparse] at hall ⊢
        exact if_neg hall
      have hcut := parseMentions_cut none text
      rw [hparse] at hcut
      rw [visit.run_splice _ _ _ _ hvisitor, List.append_nil]
      have hcons : ∀ children, mentionNames (first.child :: children) =
          mentionNames [first.child] ++ mentionNames children :=
        fun children => List.filterMap_append (l := [first.child])
      rw [hcons, visit_segments visit (List.forall_mem_cons.mp hcut).2, reread_first hparse]
      exact (List.filterMap_append (l := [first])).symm

end visit

section agreement

open Markdown (isLetterOrNumber isValidMentionRune mentionRun startsMention readsMention mentionBehind
  parseMention extractMentions parseMention_scans)

variable (U : Categories)

/-- At an `@` behind a boundary, a name follows. -/
def MarksMention (prev : Option Char) (after : List Char) : Prop :=
  isMentionBoundary prev = true ∧ hasLetterOrNumber (usernameRun after) = true

/-- The server and the plugin read the same name behind an `@`. If ASCII has one, the server sees a
boundary too, and the name is not cut short by a letter or number outside of ASCII. -/
def NamesAgree (prev : Option Char) (after : List Char) : Prop :=
  if hasLetterOrNumber (usernameRun after) = true then
    startsMention U prev = true ∧
      ((usernameRun after).length = 32 ∨
        ∀ r, (after.drop (usernameRun after).length).head? = some r → isValidMentionRune U r = false)
  else readsMention U prev after = false

def MarksSomewhere (text : List Char) : Prop :=
  ∃ before after, text = before ++ '@' :: after ∧ MarksMention before.getLast? after

/-- Both sides read the same at each `@` if the plugin marks a mention at all, and otherwise the
server reads none. -/
def MentionsAgree (text : List Char) : Prop :=
  ∀ before after, text = before ++ '@' :: after →
    (MarksSomewhere text → NamesAgree U before.getLast? after) ∧
      (¬MarksSomewhere text → readsMention U before.getLast? after = false)

theorem mentionChar_ascii {c : Char} (h : isMentionChar c = true) : c.toNat < 128 := by
  have hle : ∀ d : Char, d.val ≤ 122 → d.toNat < 128 := fun d hd => by
    have : d.val.toNat ≤ 122 := hd
    exact Nat.lt_of_le_of_lt this (by decide)
  delta isMentionChar Char.isAlpha Char.isUpper Char.isLower Char.isDigit at h
  simp only [Bool.or_eq_true, Bool.and_eq_true, decide_eq_true_eq, beq_iff_eq] at h
  rcases h with ((⟨-, h⟩ | ⟨-, h⟩) | ⟨-, h⟩) | rfl
  · exact hle c (Nat.le_trans h (by decide))
  · exact hle c h
  · exact hle c (Nat.le_trans h (by decide))
  · decide

theorem isValidMentionRune_eq {c : Char} (h : c.toNat < 128) :
    isValidMentionRune U c = isMentionChar c := Markdown.isValidMentionRune_ascii U h

theorem mentionChar_valid {c : Char} (h : isMentionChar c = true) : isValidMentionRune U c = true := by
  rw [isValidMentionRune_eq U (mentionChar_ascii h), h]

/-- The first characters of a narrower class are those of a wider one exactly if there are as many
as asked for, or the wider class ends there too. -/
theorem take_takeWhile_eq_iff {p q : Char → Bool} (hpq : ∀ c, p c = true → q c = true) (n : Nat)
    (cs : List Char) :
    (cs.takeWhile p).take n = (cs.takeWhile q).take n ↔
      ((cs.takeWhile p).take n).length = n ∨
        ∀ r, (cs.drop ((cs.takeWhile p).take n).length).head? = some r → q r = false := by
  induction cs generalizing n with
  | nil => simp
  | cons c cs ih =>
    cases n with
    | zero => simp
    | succ n =>
      cases hp : p c with
      | true =>
        rw [List.takeWhile_cons_of_pos hp, List.takeWhile_cons_of_pos (hpq c hp), List.take_succ_cons,
          List.take_succ_cons, List.length_cons, List.drop_succ_cons]
        simpa using ih n
      | false =>
        rw [List.takeWhile_cons_of_neg (by simp [hp])]
        cases hq : q c <;> simp [hq]

theorem takeWhile_prefix_of_imp {p q : Char → Bool} (hpq : ∀ c, p c = true → q c = true)
    (cs : List Char) : cs.takeWhile p <+: cs.takeWhile q := by
  induction cs with
  | nil => exact List.prefix_rfl
  | cons c cs ih =>
    cases hp : p c with
    | true =>
      rw [List.takeWhile_cons_of_pos hp, List.takeWhile_cons_of_pos (hpq c hp)]
      exact (List.prefix_cons_inj c).mpr ih
    | false =>
      rw [List.takeWhile_cons_of_neg (by simp [hp])]
      exact List.nil_prefix

theorem usernameRun_starts (after : List Char) :
    usernameRun after <+: (mentionRun U after).take 32 := by
  have hrun := takeWhile_prefix_of_imp (p := isMentionChar) (fun _ => mentionChar_valid U) after
  exact List.prefix_take_iff.mpr
    ⟨(List.take_prefix _ _).trans hrun, List.length_take_le _ _⟩

theorem nameBehind_reads {after : List Char} (h : hasLetterOrNumber (usernameRun after) = true) :
    ((mentionRun U after).take (Markdown.maxMentionLength + 1)).any (isLetterOrNumber U) = true := by
  obtain ⟨c, hc, hhas⟩ := List.any_eq_true.mp h
  have hmem : c ∈ (mentionRun U after).take (Markdown.maxMentionLength + 1) :=
    (List.take_prefix_take_left (Nat.le_succ 32)).subset ((usernameRun_starts U after).subset hc)
  have hascii := mentionChar_ascii (mem_usernameRun hc)
  refine List.any_eq_true.mpr ⟨c, hmem, ?_⟩
  rw [isLetterOrNumber, U.ascii_letter c hascii, U.ascii_number c hascii, hhas]

theorem mentionBehind_eq_iff (prev : Option Char) (after : List Char) :
    (mentionBehind U prev after).map (Markdown.toLower U) = nameBehind after ↔
      NamesAgree U prev after := by
  rw [NamesAgree, nameBehind, mentionBehind]
  cases hhas : hasLetterOrNumber (usernameRun after) with
  | false => cases readsMention U prev after <;> simp
  | true =>
    have hreads : readsMention U prev after = startsMention U prev := by
      rw [readsMention, nameBehind_reads U hhas, Bool.and_true]
    have hlower : (usernameRun after).map U.lower = (usernameRun after).map Char.toLower :=
      List.map_congr_left fun c hc => U.ascii_lower c (mentionChar_ascii (mem_usernameRun hc))
    have hrun : usernameRun after = (mentionRun U after).take 32 ↔ (usernameRun after).length = 32 ∨
        ∀ r, (after.drop (usernameRun after).length).head? = some r →
          isValidMentionRune U r = false :=
      take_takeWhile_eq_iff (fun _ => mentionChar_valid U) 32 after
    rw [hreads]
    cases startsMention U prev with
    | false => simp
    | true =>
      rw [if_pos rfl, if_pos rfl, if_pos rfl, Option.map_some, Option.some.injEq, Markdown.toLower,
        String.toList_ofList, String.ofList_inj, ← hlower, ← hrun]
      constructor
      · intro heq
        have hlen := congrArg List.length heq
        rw [List.length_map, List.length_map] at hlen
        exact ⟨rfl, (usernameRun_starts U after).eq_of_length hlen.symm⟩
      · rintro ⟨-, heq⟩
        exact congrArg (List.map U.lower) heq.symm

theorem forall_ascii {P : Char → Prop} (h : ∀ n < 128, P (Char.ofNat n)) {c : Char}
    (hc : c.toNat < 128) : P c := by
  rw [← Char.ofNat_toNat c]
  exact h _ hc

theorem toLower_ascii {c : Char} (h : c.toNat < 128) : c.toLower.toNat < 128 :=
  forall_ascii (P := fun c => c.toLower.toNat < 128) (by decide) h

theorem toLower_hyphen {c : Char} (h : c.toNat < 128) (hc : c.toLower = '-') : c = '-' :=
  forall_ascii (P := fun c => c.toLower = '-' → c = '-') (by decide) h hc

theorem mentionChar_of_lower {cs ds : List Char}
    (hlower : ∀ c ∈ cs, 128 ≤ c.toNat → 128 ≤ (U.lower c).toNat)
    (hvalid : ∀ c ∈ cs, isValidMentionRune U c = true) (hds : ∀ d ∈ ds, isMentionChar d = true)
    (heq : cs.map U.lower = ds.map Char.toLower) : ∀ c ∈ cs, isMentionChar c = true := by
  intro c hc
  have hmem : U.lower c ∈ ds.map Char.toLower := heq ▸ List.mem_map_of_mem hc
  obtain ⟨d, hd, hdc⟩ := List.mem_map.mp hmem
  have hascii := toLower_ascii (mentionChar_ascii (hds d hd))
  rw [hdc] at hascii
  have hc' : c.toNat < 128 := by
    by_contra hge
    exact absurd hascii (Nat.not_lt.mpr (hlower c hc (Nat.not_lt.mp hge)))
  rw [← isValidMentionRune_eq U hc']
  exact hvalid c hc

theorem hasLetterOrNumber_of_lower {cs ds : List Char} (hcs : ∀ c ∈ cs, isMentionChar c = true)
    (hds : ∀ d ∈ ds, isMentionChar d = true) (heq : cs.map U.lower = ds.map Char.toLower)
    (h : hasLetterOrNumber ds = true) : hasLetterOrNumber cs = true := by
  obtain ⟨d, hd, hhas⟩ := List.any_eq_true.mp h
  have hmem : d.toLower ∈ cs.map U.lower := heq ▸ List.mem_map_of_mem hd
  obtain ⟨c, hc, hcd⟩ := List.mem_map.mp hmem
  refine List.any_eq_true.mpr ⟨c, hc, ?_⟩
  rw [U.ascii_lower c (mentionChar_ascii (hcs c hc))] at hcd
  have hchar := hcs c hc
  rw [isMentionChar, Bool.or_eq_true] at hchar
  rcases hchar with halnum | hhyphen
  · exact halnum
  · obtain rfl : c = '-' := eq_of_beq hhyphen
    have hdhyphen := toLower_hyphen (mentionChar_ascii (hds d hd)) hcd.symm
    rw [hdhyphen] at hhas
    exact absurd hhas (by decide)

/-- A name of the server that the plugin marks somewhere is read by the plugin here too. -/
theorem isSome_nameBehind {prev : Option Char} {after other : List Char} {name : String}
    (hlower : ∀ c ∈ after, 128 ≤ c.toNat → 128 ≤ (U.lower c).toNat)
    (hread : (mentionBehind U prev after).map (Markdown.toLower U) = some name)
    (hother : nameBehind other = some name) : (nameBehind after).isSome = true := by
  let run := (mentionRun U after).take 32
  have hafter : run <+: after := (List.take_prefix _ _).trans (List.takeWhile_prefix _)
  have hvalid : ∀ c ∈ run, isValidMentionRune U c = true :=
    fun c hc => List.mem_takeWhile_imp (List.mem_of_mem_take hc)
  obtain ⟨hhas, heq⟩ : hasLetterOrNumber (usernameRun other) = true ∧
      run.map U.lower = (usernameRun other).map Char.toLower := by
    rw [mentionBehind] at hread
    rw [nameBehind] at hother
    split at hother
    · rename_i hhas
      split at hread
      · cases hother
        rw [Option.map_some, Option.some.injEq, Markdown.toLower, String.toList_ofList,
          String.ofList_inj] at hread
        exact ⟨hhas, hread⟩
      · cases hread
    · cases hother
  have hchars := mentionChar_of_lower U (fun c hc => hlower c (hafter.subset hc)) hvalid
    (fun d => mem_usernameRun) heq
  have hprefix : run <+: usernameRun after := by
    refine List.prefix_take_iff.mpr ⟨?_, List.length_take_le _ _⟩
    obtain ⟨rest, hrest⟩ := hafter
    rw [← hrest, List.takeWhile_append_of_pos hchars]
    exact List.prefix_append _ _
  obtain ⟨c, hc, hletter⟩ := List.any_eq_true.mp
    (hasLetterOrNumber_of_lower U hchars (fun d => mem_usernameRun) heq hhas)
  have hname : hasLetterOrNumber (usernameRun after) = true :=
    List.any_eq_true.mpr ⟨c, hprefix.subset hc, hletter⟩
  rw [nameBehind, if_pos hname]
  rfl

theorem marksSomewhere_iff (text : List Char) :
    MarksSomewhere text ↔ mentionsOf (parseMentionsFromText none text) ≠ [] := by
  have hread : ∀ prev after, webMentionBehind prev after = none ↔ ¬MarksMention prev after := by
    intro prev after
    rw [webMentionBehind, nameBehind, MarksMention]
    cases isMentionBoundary prev <;> cases hasLetterOrNumber (usernameRun after) <;> simp
  have hscan : mentionsOf (parseMentionsFromText none text) = _ :=
    parseMentions_scans.eq_reduceOption none trivial
  rw [hscan, Ne, Syntax.reduceOption_atEach_eq_nil]
  simp only [hread, lastOf, Option.or_none]
  push Not
  rfl

theorem mentionNames_of_marks (visit : Visit) {text : List Char} (h : MarksSomewhere text) :
    mentionNames (remarkMention visit text) =
      (atEach '@' (fun _ after => nameBehind after) none text).reduceOption := by
  rw [mentionNames_remarkMention, if_neg ((marksSomewhere_iff text).mp h)]
  exact reread_scans.eq_reduceOption none trivial

theorem mentionNames_of_not_marks (visit : Visit) {text : List Char} (h : ¬MarksSomewhere text) :
    mentionNames (remarkMention visit text) = [] := by
  rw [mentionNames_remarkMention, if_pos]
  exact not_not.mp fun hne => h ((marksSomewhere_iff text).mpr hne)

theorem extractMentions_eq (loop : InlineLoop '@') {text : List Char} (hplain : loop.plain text) :
    extractMentions U loop text = (atEach '@' (fun prev after =>
      (mentionBehind U prev after).map (Markdown.toLower U)) none text).reduceOption := by
  rw [extractMentions, (parseMention_scans U loop).eq_reduceOption none hplain,
    ← List.reduceOption_map, Syntax.map_atEach]

/-- When both sides find the same names, the plugin reads one wherever the server does. -/
theorem isSome_of_same_names {text : List Char}
    (hlower : ∀ c ∈ text, 128 ≤ c.toNat → 128 ≤ (U.lower c).toNat)
    (heq : (atEach '@' (fun prev after =>
        (mentionBehind U prev after).map (Markdown.toLower U)) none text).reduceOption =
      (atEach '@' (fun _ after => nameBehind after) none text).reduceOption)
    {before after : List Char} (htext : text = before ++ '@' :: after)
    (h : ((mentionBehind U (lastOf none before) after).map (Markdown.toLower U)).isSome = true) :
    (nameBehind after).isSome = true := by
  obtain ⟨name, hname⟩ := Option.isSome_iff_exists.mp h
  have hserver : some name ∈ atEach '@' (fun prev after =>
      (mentionBehind U prev after).map (Markdown.toLower U)) none text := by
    rw [← hname]
    exact (Syntax.forall_mem_atEach none text).mp (fun _ ha => ha) before after htext
  have hweb : some name ∈ atEach '@' (fun _ after => nameBehind after) none text := by
    rw [← List.reduceOption_mem_iff, heq, List.reduceOption_mem_iff] at hserver
    exact hserver
  obtain ⟨other, hother⟩ : ∃ other, some name = nameBehind other :=
    (Syntax.forall_mem_atEach (P := fun a => ∃ other, a = nameBehind other) none text).mpr
      (fun _ other _ => ⟨other, rfl⟩) _ hweb
  refine isSome_nameBehind U (fun c hc => hlower c ?_) hname hother.symm
  rw [htext]
  exact List.mem_append_right _ (List.mem_cons_of_mem _ hc)

/-- In a paragraph of plain text, the server extracts the sequence of user names that the web
editor marks if they read the same at each `@`. If no other character has its lower case in ASCII,
only then. -/
theorem mentions_agree_iff (loop : InlineLoop '@') (visit : Visit) (text : List Char)
    (hplain : loop.plain text) :
    (MentionsAgree U text →
      extractMentions U loop text = mentionNames (remarkMention visit text)) ∧
    ((∀ c ∈ text, 128 ≤ c.toNat → 128 ≤ (U.lower c).toNat) →
      extractMentions U loop text = mentionNames (remarkMention visit text) →
      MentionsAgree U text) := by
  rw [extractMentions_eq U loop hplain]
  by_cases hmarks : MarksSomewhere text
  · have hagree : MentionsAgree U text ↔ atEach '@' (fun prev after =>
        (mentionBehind U prev after).map (Markdown.toLower U)) none text =
          atEach '@' (fun _ after => nameBehind after) none text := by
      rw [Syntax.atEach_eq_iff]
      simp [MentionsAgree, hmarks, mentionBehind_eq_iff, lastOf]
    rw [mentionNames_of_marks visit hmarks, hagree]
    refine ⟨congrArg _, fun hlower heq => ?_⟩
    refine ((Syntax.reduceOption_eq_iff ?_).mp heq.symm).symm
    exact (Syntax.forall₂_atEach_iff none text).mpr fun before after htext =>
      isSome_of_same_names U hlower heq htext
  · have hagree : MentionsAgree U text ↔ (atEach '@' (fun prev after =>
        (mentionBehind U prev after).map (Markdown.toLower U)) none text).reduceOption = [] := by
      rw [Syntax.reduceOption_atEach_eq_nil]
      simp [MentionsAgree, hmarks, mentionBehind, lastOf]
    rw [mentionNames_of_not_marks visit hmarks, hagree]
    exact ⟨id, fun _ => id⟩

open Markdown (asciiCategories wordsLoop)

def textSize : List MentionChild → Nat
  | [] => 0
  | .text value :: rest => value.length + textSize rest
  | .mentionNode _ :: rest => textSize rest

def visitChildren : List MentionChild → List MentionChild
  | [] => []
  | child :: rest =>
    match visitor child with
    | some (first :: others) =>
      if textSize (others ++ rest) < textSize (child :: rest) then
        first :: visitChildren (others ++ rest)
      else []
    | _ => child :: visitChildren rest
termination_by children => (textSize children, children.length)
decreasing_by
  · exact .left _ _ ‹_›
  · rw [Prod.lex_def]
    have hle : textSize rest ≤ textSize (child :: rest) := by cases child <;> simp [textSize]
    exact (Nat.lt_or_eq_of_le hle).imp id fun heq => ⟨heq, Nat.lt_succ_self _⟩

theorem textSize_cons (child : MentionChild) (rest : List MentionChild) :
    textSize (child :: rest) = textSize [child] + textSize rest := by
  cases child <;> simp [textSize]

theorem textSize_append (as bs : List MentionChild) :
    textSize (as ++ bs) = textSize as + textSize bs := by
  induction as with
  | nil => simp [textSize]
  | cons a as ih =>
    rw [List.cons_append, textSize_cons a (as ++ bs), ih, textSize_cons a as, Nat.add_assoc]

theorem textSize_segments (prev : Option Char) (text : List Char) :
    textSize ((parseMentionsFromText prev text).map MentionSegment.child) +
      (mentionsOf (parseMentionsFromText prev text)).length ≤ text.length := by
  induction hn : text.length using Nat.strongRecOn generalizing prev text with
  | ind n ih =>
    cases text with
    | nil =>
      rw [parseMentionsFromText]
      exact Nat.zero_le _
    | cons c cs =>
      rw [List.length_cons] at hn
      rcases parseMentions_cons prev c cs with
        ⟨part, rest, name, rfl, -, -, -, hparse⟩ | ⟨part, rest, rfl, -, -, -, hparse⟩
      · have hrest := ih rest.length (by simp at hn; omega) (lastOf (some c) part) rest rfl
        rw [hparse]
        simp [textSize, mentionsOf, MentionSegment.child] at hn hrest ⊢
        omega
      · have hrest := ih rest.length (by simp at hn; omega) (lastOf (some c) part) rest rfl
        rw [hparse]
        simp [textSize, mentionsOf, MentionSegment.child] at hn hrest ⊢
        omega

theorem textSize_splice {child first : MentionChild} {others : List MentionChild}
    (h : visitor child = some (first :: others)) : textSize others < textSize [child] := by
  cases child with
  | mentionNode value => cases h
  | text value =>
    dsimp only [visitor] at h
    split at h
    · cases h
    · rename_i hall
      have hsize := textSize_segments none value
      rw [Option.some.inj h, textSize_cons first] at hsize
      have hmention : (mentionsOf (parseMentionsFromText none value)).length ≠ 0 :=
        fun hzero => hall ((mentionsOf_eq_nil _).mp (List.length_eq_zero_iff.mp hzero))
      have hvalue : textSize [.text value] = value.length := rfl
      omega

def spliceVisit : Visit where
  run := visitChildren
  run_nil := by rw [visitChildren]
  run_keep child rest h := by rw [visitChildren, h]
  run_splice child first others rest h := by
    rw [visitChildren, h]
    refine if_pos ?_
    rw [textSize_append, textSize_cons child]
    exact Nat.add_lt_add_right (textSize_splice h) _

theorem mentions_agree_words :
    extractMentions asciiCategories (wordsLoop '@') "ask @Bob today".toList =
      mentionNames (remarkMention spliceVisit "ask @Bob today".toList) := by
  have hmarks : MarksSomewhere "ask @Bob today".toList :=
    ⟨"ask ".toList, "Bob today".toList, rfl, by decide, by decide⟩
  have hat : atEach '@' (fun prev after =>
      (mentionBehind asciiCategories prev after).map (Markdown.toLower asciiCategories)) none
        "ask @Bob today".toList =
      atEach '@' (fun _ after => nameBehind after) none "ask @Bob today".toList := by decide
  refine (mentions_agree_iff asciiCategories (wordsLoop '@') spliceVisit _ (by decide)).1 ?_
  intro before after htext
  have hread := (Syntax.atEach_eq_iff none _).mp hat before after htext
  rw [lastOf, Option.or_none] at hread
  exact ⟨fun _ => (mentionBehind_eq_iff _ _ _).mp hread, fun hnot => absurd hmarks hnot⟩

/-- Behind a mention in the same text, the plugin marks the domain of an e-mail address. -/
theorem mentions_disagree :
    (wordsLoop '@').plain "me@home @bob".toList ∧
      extractMentions asciiCategories (wordsLoop '@') "me@home @bob".toList = ["bob"] ∧
      mentionNames (remarkMention spliceVisit "me@home @bob".toList) = ["home", "bob"] := by
  refine ⟨by decide, ?_, ?_⟩
  · rw [extractMentions_eq _ _ (by decide)]
    decide
  · have hmarks : MarksSomewhere "me@home @bob".toList :=
      ⟨"me@home ".toList, "bob".toList, rfl, by decide, by decide⟩
    rw [mentionNames_of_marks _ hmarks]
    decide

end agreement

end Memoark.Web
