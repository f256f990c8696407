import Memoark.Markdown.Tag

/-! The plugin that marks tags in the text nodes of a Markdown tree (`remark-tag.ts`). Texts are
lists of code points. -/
namespace Memoark.Web
open Markdown (Categories InlineLoop)
open Syntax (lastOf atEach Scans)

variable (U : Categories)

def maxTagLength : Nat := 100

inductive TagSegment where
  | text (value : List Char)
  | tag (value : List Char)
  deriving DecidableEq

def isTagChar (c : Char) : Bool :=
  U.letter c || U.mark c || U.number c || U.symbol c || (c == '_' || c == '-' || c == '/' || c == '&')

def isAsciiPunctuation (c : Char) : Bool :=
  let code := c.toNat
  (0x21 ≤ code && code ≤ 0x2f) || (0x3a ≤ code && code ≤ 0x40) || (0x5b ≤ code && code ≤ 0x60) ||
    (0x7b ≤ code && code ≤ 0x7e)

def unescapeBackslashes : List Char → List (Char × Bool)
  | [] => []
  | [c] => [(c, false)]
  | c :: d :: cs =>
    if c = '\\' ∧ isAsciiPunctuation d = true then (d, true) :: unescapeBackslashes cs
    else (c, false) :: unescapeBackslashes (d :: cs)

def isHash (c : Char × Bool) : Bool := c.1 == '#' && !c.2

def parseSegments (prev : Option Char) : List (Char × Bool) → List TagSegment
  | [] => []
  | c :: chars =>
    let part := chars.takeWhile fun c => !isHash c
    let text := .text ((c :: part).map (·.1)) ::
      parseSegments (lastOf (some c.1) (part.map (·.1))) (chars.dropWhile fun c => !isHash c)
    match chars.head? with
    | none => text
    | some next =>
      if isHash c ∧ isTagChar U next.1 = true then
        if prev = some '#' ∨ next.1 = '#' ∨ next.1 = ' ' then
          .text [c.1] :: parseSegments (some c.1) chars
        else
          let tagContent := chars.takeWhile fun c => isTagChar U c.1
          if 0 < tagContent.length ∧ tagContent.length ≤ maxTagLength then
            .tag (tagContent.map (·.1)) ::
              parseSegments (lastOf (some c.1) (tagContent.map (·.1)))
                (chars.dropWhile fun c => isTagChar U c.1)
          else text
      else text
termination_by chars => chars.length
decreasing_by
  all_goals exact Nat.lt_succ_of_le (by first | exact Nat.le_refl _ | exact (List.dropWhile_suffix _).length_le)

def segmentsForTextNode (value : List Char) (slice : Option (List Char)) : List TagSegment :=
  let whole := parseSegments U none (value.map fun c => (c, false))
  match slice with
  | none => whole
  | some slice =>
    let chars := unescapeBackslashes slice
    if chars.map (·.1) = value then parseSegments U none chars else whole

/-- The nodes of a Markdown tree, as far as the plugin tells them apart. -/
inductive TagTree where
  | text (value : List Char) (slice : Option (List Char))
  | tagNode (value : List Char)
  | parent (isLink : Bool) (children : List TagTree)

def TagSegment.node : TagSegment → TagTree
  | .text value => .text value none
  | .tag value => .tagNode value

mutual

def transformTagChild (insideLink : Bool) : TagTree → List TagTree
  | .text value slice =>
    let segments := segmentsForTextNode U value slice
    if insideLink || segments.all (· matches .text _) then [.text value slice]
    else segments.map TagSegment.node
  | .tagNode value => [.tagNode value]
  | .parent isLink children => [.parent isLink (transformTagTextNodes (insideLink || isLink) children)]

def transformTagTextNodes (insideLink : Bool) : List TagTree → List TagTree
  | [] => []
  | child :: children =>
    transformTagChild insideLink child ++ transformTagTextNodes insideLink children

end

mutual

def TagTree.tags : TagTree → List (List Char)
  | .text .. => []
  | .tagNode value => [value]
  | .parent _ children => childTags children

def childTags : List TagTree → List (List Char)
  | [] => []
  | child :: children => child.tags ++ childTags children

end

def paragraph (value : List Char) (slice : Option (List Char)) : TagTree :=
  .parent false [.text value slice]

def remarkTag (children : List TagTree) : List TagTree := transformTagTextNodes U false children

section spec

def TagSegment.tag? : TagSegment → Option (List Char)
  | .text _ => none
  | .tag value => some value

def tagsOf (segments : List TagSegment) : List String :=
  segments.filterMap fun segment => segment.tag?.map String.ofList

def webTagBehind (prev : Option Char) (after : List Char) : Option String :=
  match after.head? with
  | none => none
  | some next =>
    if isTagChar U next = true ∧ ¬(prev = some '#' ∨ next = '#' ∨ next = ' ') then
      let tagContent := after.takeWhile (isTagChar U)
      if 0 < tagContent.length ∧ tagContent.length ≤ maxTagLength then
        some (String.ofList tagContent)
      else none
    else none

def unescaped (text : List Char) : List (Char × Bool) := text.map fun c => (c, false)

theorem takeWhile_unescaped {p : Char × Bool → Bool} {q : Char → Bool}
    (h : ∀ c, p (c, false) = q c) (cs : List Char) :
    (unescaped cs).takeWhile p = unescaped (cs.takeWhile q) := by
  rw [unescaped, List.takeWhile_map]
  exact congrArg _ (congrArg (cs.takeWhile ·) (funext h))

theorem dropWhile_unescaped {p : Char × Bool → Bool} {q : Char → Bool}
    (h : ∀ c, p (c, false) = q c) (cs : List Char) :
    (unescaped cs).dropWhile p = unescaped (cs.dropWhile q) := by
  rw [unescaped, List.dropWhile_map]
  exact congrArg _ (congrArg (cs.dropWhile ·) (funext h))

theorem map_fst_unescaped (cs : List Char) : (unescaped cs).map (·.1) = cs := by
  rw [unescaped, List.map_map]
  exact List.map_id cs

theorem length_unescaped (cs : List Char) : (unescaped cs).length = cs.length := List.length_map _

theorem head?_unescaped (cs : List Char) :
    (unescaped cs).head? = cs.head?.map fun c => (c, false) := List.head?_map

@[simp] theorem tagsOf_text (value : List Char) (segments : List TagSegment) :
    tagsOf (.text value :: segments) = tagsOf segments := rfl

theorem textSegment (c : Char) (cs : List Char) :
    ∃ part rest, cs = part ++ rest ∧ '#' ∉ part ∧
      ∀ value, tagsOf (.text value ::
        parseSegments U (lastOf (some c)
            (((unescaped cs).takeWhile fun c => !isHash c).map (·.1)))
          ((unescaped cs).dropWhile fun c => !isHash c)) =
        tagsOf (parseSegments U (lastOf (some c) part) (unescaped rest)) := by
  have hhash : ∀ c, (!isHash (c, false)) = !(c == '#') := by simp [isHash]
  refine ⟨cs.takeWhile fun c => !(c == '#'), cs.dropWhile fun c => !(c == '#'),
    List.takeWhile_append_dropWhile.symm, ?_, fun value => ?_⟩
  · intro h
    simpa using List.mem_takeWhile_imp h
  · rw [takeWhile_unescaped hhash, dropWhile_unescaped hhash, map_fst_unescaped, tagsOf_text]

theorem hash_not_tagChar : isTagChar U '#' = false := by
  rw [isTagChar, U.ascii_letter _ (by decide), U.ascii_mark _ (by decide),
    U.ascii_number _ (by decide), U.ascii_symbol _ (by decide)]
  decide

theorem parseSegments_scans : Scans '#' (webTagBehind U) (fun _ => True)
    fun prev text => tagsOf (parseSegments U prev (unescaped text)) where
  tail _ _ h := h
  nil _ := by rw [unescaped, List.map_nil, parseSegments]; rfl
  step prev c cs _ := by
    have hcons : unescaped (c :: cs) = (c, false) :: unescaped cs := rfl
    have htagChar : ∀ c : Char, isTagChar U (c, false).1 = isTagChar U c := fun _ => rfl
    obtain ⟨part, rest, hcs, hpart, htext⟩ := textSegment U c cs
    rw [hcons, parseSegments, head?_unescaped]
    cases hhead : cs.head? with
    | none =>
      refine ⟨part, rest, hcs, hpart, ?_⟩
      have hnone : webTagBehind U prev cs = none := by rw [webTagBehind, hhead]
      simp only [Option.map_none, htext, hnone]
      simp
    | some next =>
      simp only [Option.map_some]
      by_cases hc : isHash (c, false) = true ∧ isTagChar U next = true
      · obtain rfl : c = '#' := by simpa [isHash] using hc.1
        rw [if_pos hc]
        split
        · rename_i hbad
          refine ⟨[], cs, rfl, List.not_mem_nil, ?_⟩
          have hnone : webTagBehind U prev cs = none := by
            rw [webTagBehind, hhead]
            exact if_neg fun h => h.2 hbad
          rw [tagsOf_text, hnone]
          rfl
        · rename_i hgood
          rw [takeWhile_unescaped htagChar, dropWhile_unescaped htagChar, map_fst_unescaped]
          have hread : webTagBehind U prev cs =
              if 0 < (cs.takeWhile (isTagChar U)).length ∧
                (cs.takeWhile (isTagChar U)).length ≤ maxTagLength then
              some (String.ofList (cs.takeWhile (isTagChar U))) else none := by
            rw [webTagBehind, hhead]
            exact if_pos ⟨hc.2, hgood⟩
          rw [hread, length_unescaped]
          split
          · refine ⟨cs.takeWhile (isTagChar U), cs.dropWhile (isTagChar U),
              List.takeWhile_append_dropWhile.symm, ?_, rfl⟩
            intro h
            have := List.mem_takeWhile_imp h
            rw [hash_not_tagChar] at this
            cases this
          · refine ⟨part, rest, hcs, hpart, ?_⟩
            rw [htext]
            rfl
      · rw [if_neg hc]
        refine ⟨part, rest, hcs, hpart, ?_⟩
        rw [htext]
        by_cases hh : c = '#'
        · subst hh
          have hnone : webTagBehind U prev cs = none := by
            rw [webTagBehind, hhead]
            exact if_neg fun h => hc ⟨rfl, h.1⟩
          rw [hnone]
          rfl
        · rw [if_neg hh]
          rfl

theorem unescapeBackslashes_eq {slice : List Char}
    (h : ∀ before c after, slice = before ++ '\\' :: c :: after → isAsciiPunctuation c = false) :
    unescapeBackslashes slice = unescaped slice := by
  induction slice with
  | nil => rfl
  | cons c cs ih =>
    have hrest : unescapeBackslashes cs = unescaped cs := by
      refine ih fun before d after heq => h (c :: before) d after ?_
      rw [heq]
      rfl
    cases cs with
    | nil => rfl
    | cons d cs =>
      rw [unescapeBackslashes, if_neg, hrest]
      · rfl
      · rintro ⟨rfl, hd⟩
        rw [h [] d cs rfl] at hd
        cases hd

theorem segmentsForTextNode_eq {value : List Char} {slice : Option (List Char)}
    (h : ∀ s ∈ slice, ∀ before c after, s = before ++ '\\' :: c :: after →
      isAsciiPunctuation c = false) :
    segmentsForTextNode U value slice = parseSegments U none (unescaped value) := by
  cases slice with
  | none => rfl
  | some slice =>
    dsimp only [segmentsForTextNode]
    rw [unescapeBackslashes_eq (h slice rfl), map_fst_unescaped]
    split
    · rename_i heq
      rw [heq]
    · rfl

theorem childTags_segments (segments : List TagSegment) :
    (childTags (segments.map TagSegment.node)).map String.ofList = tagsOf segments := by
  induction segments with
  | nil => rfl
  | cons segment segments ih =>
    rw [List.map_cons, childTags, List.map_append, ih]
    cases segment <;> rfl

theorem tagsOf_all_text {segments : List TagSegment}
    (h : segments.all (· matches .text _) = true) : tagsOf segments = [] := by
  induction segments with
  | nil => rfl
  | cons segment segments ih =>
    rw [List.all_cons, Bool.and_eq_true] at h
    cases segment with
    | text value => exact ih h.2
    | tag value => cases h.1

theorem tags_remarkTag (value : List Char) (slice : Option (List Char)) :
    (childTags (remarkTag U [paragraph value slice])).map String.ofList =
      tagsOf (segmentsForTextNode U value slice) := by
  have hchildren : childTags (remarkTag U [paragraph value slice]) =
      childTags (transformTagChild U false (.text value slice)) := by
    simp [remarkTag, paragraph, transformTagTextNodes, transformTagChild, childTags, TagTree.tags]
  rw [hchildren]
  dsimp only [transformTagChild]
  rw [Bool.false_or]
  split
  · rename_i hall
    rw [tagsOf_all_text hall]
    rfl
  · exact childTags_segments _

end spec

section agreement

open Markdown (isValidTagRune tagBehind parseTag parseTag_scans)

/-- The server and the web editor read the same tag behind a `#`: neither reads one, or the `#` is
not behind another one, and the characters before a zero width joiner are at least one and at most
a hundred, and are all that there are up to a hundred. -/
def TagsAgree (prev : Option Char) (after : List Char) : Prop :=
  (∀ r, after.head? = some r → isValidTagRune U r = false) ∨
    prev ≠ some '#' ∧
      let run := after.takeWhile (isTagChar U)
      run ≠ [] ∧ run.length ≤ 100 ∧
        (run.length = 100 ∨ (after.drop run.length).head? ≠ some '\u200D')

theorem isValidTagRune_eq (r : Char) : isValidTagRune U r = (isTagChar U r || r == '\u200D') := by
  rw [isValidTagRune, isTagChar]
  cases U.letter r <;> cases U.number r <;> cases U.symbol r <;> cases U.mark r <;>
    cases r == '\u200D' <;> simp

theorem tagChar_valid {r : Char} (h : isTagChar U r = true) : isValidTagRune U r = true := by
  rw [isValidTagRune_eq, h, Bool.true_or]

/-- The server's runes start with the characters of the web editor. -/
theorem takeWhile_valid (after : List Char) : after.takeWhile (isValidTagRune U) =
    after.takeWhile (isTagChar U) ++
      (after.dropWhile (isTagChar U)).takeWhile (isValidTagRune U) := by
  have hrun : ∀ c ∈ after.takeWhile (isTagChar U), isValidTagRune U c = true :=
    fun c hc => tagChar_valid U (List.mem_takeWhile_imp hc)
  rw [← List.takeWhile_append_of_pos hrun, List.takeWhile_append_dropWhile]

/-- The characters of the web editor are all of the server's runes up to a hundred. -/
theorem takeWhile_eq_iff {after : List Char} (h : (after.takeWhile (isTagChar U)).length ≤ 100) :
    (after.takeWhile (isValidTagRune U)).take 100 = after.takeWhile (isTagChar U) ↔
      (after.takeWhile (isTagChar U)).length = 100 ∨
        (after.drop (after.takeWhile (isTagChar U)).length).head? ≠ some '\u200D' := by
  let run := after.takeWhile (isTagChar U)
  let rest := after.dropWhile (isTagChar U)
  have hsplit : run ++ rest = after := List.takeWhile_append_dropWhile
  have hrest : after.drop run.length = rest := by
    conv_lhs => rw [← hsplit]
    exact List.drop_left
  -- what follows the run is valid only if it is the joiner
  have hmore : rest.takeWhile (isValidTagRune U) = [] ↔ rest.head? ≠ some '\u200D' := by
    cases hr : rest with
    | nil => simp
    | cons c cs =>
      have hc : isTagChar U c = false := by
        have := List.head?_dropWhile_not (isTagChar U) after
        rw [show after.dropWhile (isTagChar U) = c :: cs from hr] at this
        simpa using this
      rw [List.head?_cons, Ne, Option.some.injEq]
      have hvalid : isValidTagRune U c = (c == '\u200D') := by
        rw [isValidTagRune_eq, hc, Bool.false_or]
      by_cases hj : c = '\u200D'
      · rw [List.takeWhile_cons_of_pos (by rw [hvalid, hj]; rfl)]
        simp [hj]
      · rw [List.takeWhile_cons_of_neg (by rw [hvalid]; simpa using hj)]
        simp [hj]
  change _ = run ↔ run.length = 100 ∨ _
  rw [takeWhile_valid, hrest, List.take_append, List.take_of_length_le h, List.append_right_eq_self,
    List.take_eq_nil_iff, hmore]
  change run.length ≤ 100 at h
  have hzero : 100 - run.length = 0 ↔ run.length = 100 := by omega
  rw [hzero]

theorem webTagBehind_eq_some {prev : Option Char} {after : List Char} {tag : String} :
    webTagBehind U prev after = some tag ↔
      prev ≠ some '#' ∧ after.takeWhile (isTagChar U) ≠ [] ∧
        (after.takeWhile (isTagChar U)).length ≤ 100 ∧
          String.ofList (after.takeWhile (isTagChar U)) = tag := by
  cases after with
  | nil => simp [webTagBehind]
  | cons next cs =>
    dsimp only [webTagBehind, List.head?_cons]
    cases hnext : isTagChar U next with
    | false => simp [List.takeWhile_cons_of_neg (show ¬isTagChar U next = true by simp [hnext])]
    | true =>
      have hvalid := tagChar_valid U hnext
      have hhash : next ≠ '#' := by
        rintro rfl
        rw [hash_not_tagChar] at hnext
        cases hnext
      have hspace : next ≠ ' ' := by
        rintro rfl
        rw [Markdown.space_not_valid] at hvalid
        cases hvalid
      by_cases hprev : prev = some '#'
      · simp [hprev]
      · rw [if_pos ⟨rfl, by simp [hprev, hhash, hspace]⟩, List.takeWhile_cons_of_pos hnext]
        simp [hprev, maxTagLength]

theorem isSome_of_webTagBehind (prev : Option Char) (after : List Char)
    (h : (webTagBehind U prev after).isSome = true) : (tagBehind U prev after).isSome = true := by
  obtain ⟨tag, htag⟩ := Option.isSome_iff_exists.mp h
  obtain ⟨-, hrun, -, -⟩ := (webTagBehind_eq_some U).mp htag
  have hne : (after.takeWhile (isValidTagRune U)).take Markdown.maxTagLength ≠ [] := by
    rw [takeWhile_valid, Ne, List.take_eq_nil_iff, List.append_eq_nil_iff]
    rintro (hzero | ⟨hnil, -⟩)
    · cases hzero
    · exact hrun hnil
  dsimp only [tagBehind]
  rw [if_neg hne]
  rfl

theorem tagBehind_eq_iff (prev : Option Char) (after : List Char) :
    tagBehind U prev after = webTagBehind U prev after ↔ TagsAgree U prev after := by
  have hheads : (∀ r, after.head? = some r → isValidTagRune U r = false) ↔
      after.takeWhile (isValidTagRune U) = [] := by
    cases after with
    | nil => simp
    | cons r cs => cases hr : isValidTagRune U r <;> simp [hr]
  rw [TagsAgree, hheads]
  by_cases hempty : after.takeWhile (isValidTagRune U) = []
  · have hnone : tagBehind U prev after = none := by
      dsimp only [tagBehind]
      rw [hempty, List.take_nil, if_pos rfl]
    cases hweb : webTagBehind U prev after with
    | none => simp [hempty, hnone]
    | some tag =>
      have := isSome_of_webTagBehind U prev after (by rw [hweb]; rfl)
      rw [hnone] at this
      cases this
  · have hsome : tagBehind U prev after =
        some (String.ofList ((after.takeWhile (isValidTagRune U)).take 100)) := by
      refine if_neg fun h => ?_
      rcases List.take_eq_nil_iff.mp h with hzero | hnil
      · cases hzero
      · exact hempty hnil
    rw [hsome, eq_comm, webTagBehind_eq_some, String.ofList_inj]
    constructor
    · rintro ⟨hprev, hrun, hlen, heq⟩
      exact .inr ⟨hprev, hrun, hlen, (takeWhile_eq_iff U hlen).mp heq.symm⟩
    · rintro (hnil | ⟨hprev, hrun, hlen, hjoin⟩)
      · exact absurd hnil hempty
      · exact ⟨hprev, hrun, hlen, ((takeWhile_eq_iff U hlen).mpr hjoin).symm⟩

/-- In a paragraph without other Markdown syntax, the server extracts the sequence of tags that
the web editor marks exactly if they read the same tag behind each `#`. -/
theorem tags_agree_iff (loop : InlineLoop '#') (text : List Char) (slice : Option (List Char))
    (hplain : loop.plain text)
    (hslice : ∀ s ∈ slice, ∀ before c after, s = before ++ '\\' :: c :: after →
      isAsciiPunctuation c = false) :
    loop.run (parseTag U) none text =
        (childTags (remarkTag U [paragraph text slice])).map String.ofList ↔
      ∀ before after, text = before ++ '#' :: after → TagsAgree U before.getLast? after := by
  have hserver := (parseTag_scans U loop).eq_reduceOption none hplain
  have hweb : tagsOf (parseSegments U none (unescaped text)) = _ :=
    (parseSegments_scans U).eq_reduceOption none trivial
  have hsome : List.Forall₂ (fun a b => b.isSome = true → a.isSome = true)
      (atEach '#' (tagBehind U) none text) (atEach '#' (webTagBehind U) none text) :=
    (Syntax.forall₂_atEach_iff none text).mpr fun before after _ =>
      isSome_of_webTagBehind U (lastOf none before) after
  rw [tags_remarkTag, segmentsForTextNode_eq U hslice, hserver, hweb,
    Syntax.reduceOption_eq_iff hsome, Syntax.atEach_eq_iff]
  simp only [tagBehind_eq_iff, Syntax.lastOf, Option.or_none]

open Markdown (asciiCategories wordsLoop)

instance (prev : Option Char) (after : List Char) : Decidable (TagsAgree U prev after) :=
  decidable_of_iff _ (tagBehind_eq_iff U prev after)

theorem tags_agree_words :
    (wordsLoop '#').run (parseTag asciiCategories) none "buy #milk today".toList =
      (childTags (remarkTag asciiCategories [paragraph "buy #milk today".toList none])).map
        String.ofList := by
  have hat : atEach '#' (tagBehind asciiCategories) none "buy #milk today".toList =
      atEach '#' (webTagBehind asciiCategories) none "buy #milk today".toList := by decide
  refine (tags_agree_iff asciiCategories (wordsLoop '#') _ none (by decide) (by simp)).mpr ?_
  intro before after htext
  have hread := (Syntax.atEach_eq_iff none _).mp hat before after htext
  rw [Syntax.lastOf, Option.or_none] at hread
  exact (tagBehind_eq_iff _ _ _).mp hread

/-- The server finds a tag behind two `#`, and the web editor none. -/
theorem tags_disagree :
    (wordsLoop '#').plain "##tag".toList ∧
      (wordsLoop '#').run (parseTag asciiCategories) none "##tag".toList = ["tag"] ∧
      (childTags (remarkTag asciiCategories [paragraph "##tag".toList none])).map String.ofList =
        [] := by
  refine ⟨by decide, ?_, ?_⟩
  · rw [(parseTag_scans asciiCategories (wordsLoop '#')).eq_reduceOption none (by decide)]
    decide
  · rw [tags_remarkTag, segmentsForTextNode_eq _ (by simp),
      (parseSegments_scans asciiCategories).eq_reduceOption none trivial]
    decide

end agreement

end Memoark.Web
