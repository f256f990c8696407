import Memoark.Filter.Text
import Memoark.Js.Strings
import Memoark.Syntax.Occurrences

/-! The anchors of an outline and the ids of the headings that they lead to
(`markdown-manipulation.ts`, `rehype-heading-id.ts`). The two trees of a document come from
libraries; what is read of them is their headings, and a heading of plain text is one text node. -/
namespace Memoark.Web

open Js (isWhiteSpace)
open Syntax (counted occurrencesFrom occurrences)

structure AtxHeading where
  depth : Nat
  text : String
  depthPos : 1 ≤ depth
  depthLe : depth ≤ 6

inductive MdastNode where
  | literal (value : String)
  | parent (children : List MdastNode)

inductive HastNode where
  | text (value : String)
  | element (tagName : String) (children : List HastNode)

def AtxHeading.mdast (h : AtxHeading) : MdastNode :=
  .parent (if h.text = "" then [] else [.literal h.text])

def AtxHeading.hast (h : AtxHeading) : HastNode :=
  .element ("h" ++ toString h.depth) (if h.text = "" then [] else [.text h.text])

mutual

def getNodeText : MdastNode → String
  | .literal value => value
  | .parent children => getNodeTexts children

def getNodeTexts : List MdastNode → String
  | [] => ""
  | child :: children => getNodeText child ++ getNodeTexts children

end

mutual

def getTextContent : HastNode → String
  | .text value => value
  | .element _ children => getTextContents children

def getTextContents : List HastNode → String
  | [] => ""
  | child :: children => getTextContent child ++ getTextContents children

end

section slugs

def isWordChar (c : Char) : Bool := c.isAlphanum || c = '_'

def dashRuns (p : Char → Bool) : Bool → List Char → List Char
  | _, [] => []
  | run, c :: cs =>
    if p c then
      if run then dashRuns p true cs else '-' :: dashRuns p true cs
    else c :: dashRuns p false cs

def trimChars (cs : List Char) : List Char :=
  ((cs.dropWhile isWhiteSpace).reverse.dropWhile isWhiteSpace).reverse

def stripDashes (cs : List Char) : List Char :=
  let cs := if cs.head? = some '-' then cs.tail else cs
  if cs.getLast? = some '-' then cs.dropLast else cs

variable (toLowerCase : String → String)

def slugify (text : String) : String :=
  let cs := trimChars (toLowerCase text).toList
  let cs := cs.filter fun c => isWordChar c || isWhiteSpace c || c = '-'
  let cs := dashRuns (fun c => isWhiteSpace c || c = '_') false cs
  let cs := dashRuns (· = '-') false cs
  String.ofList (stripDashes cs)

def numberedSlug (slug : String × Nat) : String :=
  if 0 < slug.2 then slug.1 ++ "-" ++ toString slug.2 else slug.1

structure HeadingItem where
  text : String
  level : Nat
  slug : String

def visitHeadings (slugCounts : String → Nat) : List AtxHeading → List HeadingItem
  | [] => []
  | node :: nodes =>
    if node.depth < 1 ∨ 4 < node.depth then visitHeadings slugCounts nodes
    else
      let text := getNodeText node.mdast
      if text = "" then visitHeadings slugCounts nodes
      else
        let slug := slugify toLowerCase text
        ⟨text, node.depth, numberedSlug (slug, slugCounts slug)⟩ ::
          visitHeadings (counted slugCounts slug) nodes

def extractHeadings (headings : List AtxHeading) : List HeadingItem :=
  visitHeadings toLowerCase (fun _ => 0) headings

def visitElements (slugCounts : String → Nat) : List AtxHeading → List (AtxHeading × Option String)
  | [] => []
  | node :: nodes =>
    let slug := slugify toLowerCase (getTextContent node.hast)
    if slug = "" then (node, none) :: visitElements slugCounts nodes
    else (node, some (numberedSlug (slug, slugCounts slug))) ::
      visitElements (counted slugCounts slug) nodes

def rehypeHeadingId (headings : List AtxHeading) : List (AtxHeading × Option String) :=
  visitElements toLowerCase (fun _ => 0) headings

def headingIds (headings : List AtxHeading) : List String :=
  (rehypeHeadingId toLowerCase headings).filterMap (·.2)

def outlineIds (headings : List AtxHeading) : List String :=
  ((rehypeHeadingId toLowerCase headings).filter (·.1.depth ≤ 4)).filterMap (·.2)

end slugs

structure Anchored (toLowerCase : String → String) (headings : List AtxHeading) : Prop where
  outline : (extractHeadings toLowerCase headings).map (·.slug) = outlineIds toLowerCase headings
  nonempty : ∀ id ∈ headingIds toLowerCase headings, id ≠ ""
  nodup : (headingIds toLowerCase headings).Nodup

section visits

variable {toLowerCase : String → String} {headings : List AtxHeading}

theorem getNodeText_mdast (h : AtxHeading) : getNodeText h.mdast = h.text := by
  unfold AtxHeading.mdast
  split
  · rename_i hempty
    rw [hempty]
    rfl
  · simp [getNodeText, getNodeTexts]

theorem getTextContent_hast (h : AtxHeading) : getTextContent h.hast = h.text := by
  unfold AtxHeading.hast
  split
  · rename_i hempty
    rw [hempty]
    rfl
  · simp [getTextContent, getTextContents]

def AtxHeading.Outlined (h : AtxHeading) : Prop := h.depth ≤ 4

instance : DecidablePred AtxHeading.Outlined := fun h => inferInstanceAs (Decidable (h.depth ≤ 4))

def ownSlug (toLowerCase : String → String) (h : AtxHeading) : String := slugify toLowerCase h.text

theorem toString_inj {m n : Nat} (h : toString m = toString n) : m = n := by
  have hdigits := congrArg String.toList h
  rw [Nat.toString_eq_repr, Nat.toString_eq_repr, Nat.toList_repr, Nat.toList_repr] at hdigits
  rw [← Nat.ofDigitChars_ten_toDigits (n := m), hdigits, Nat.ofDigitChars_ten_toDigits]

theorem numberedSlug_inj {slug : String} {m n : Nat}
    (h : numberedSlug (slug, m) = numberedSlug (slug, n)) : m = n := by
  have hlt : ∀ k, 0 < k → slug ≠ slug ++ "-" ++ toString k := by
    intro k _ heq
    have hlength := congrArg String.length heq
    rw [String.length_append, String.length_append] at hlength
    have hdash : ("-" : String).length = 1 := rfl
    omega
  unfold numberedSlug at h
  dsimp only at h
  split at h
  · split at h
    · exact toString_inj (String.append_right_inj _ |>.mp h)
    · exact absurd h.symm (hlt m ‹_›)
  · split at h
    · exact absurd h (hlt n ‹_›)
    · omega

/-- What comes after the last dash of a numbered slug is its number. -/
theorem dashed_inj {s t : String} {m n : Nat}
    (h : s ++ "-" ++ toString m = t ++ "-" ++ toString n) : s = t ∧ m = n := by
  have hchars := congrArg (List.reverse ∘ String.toList) h
  simp only [Function.comp_apply, String.toList_append, List.reverse_append] at hchars
  have hdigits : ∀ k : Nat, ∀ c ∈ (toString k).toList.reverse, (c != '-') = true := by
    intro k c hc
    have hdigit := Filter.isDigit_of_mem_toString (List.mem_reverse.mp hc)
    rw [bne_iff_ne]
    rintro rfl
    exact absurd hdigit (by decide)
  have htake : ∀ (k : Nat) (rest : List Char),
      ((toString k).toList.reverse ++ ('-' :: rest)).takeWhile (· != '-') =
        (toString k).toList.reverse := by
    intro k rest
    rw [List.takeWhile_append_of_pos (hdigits k), List.takeWhile_cons_of_neg (by decide),
      List.append_nil]
  have hdash : ("-" : String).toList.reverse = ['-'] := by decide
  rw [hdash] at hchars
  have hnumber := congrArg (List.takeWhile (· != '-')) hchars
  rw [List.singleton_append, List.singleton_append, htake, htake] at hnumber
  have hmn : m = n := toString_inj (String.toList_injective (List.reverse_injective hnumber))
  subst hmn
  rw [String.append_assoc, String.append_assoc] at h
  exact ⟨String.append_left_inj _ |>.mp h, rfl⟩

def Unclaimed (slugs : List String) : Prop :=
  ∀ slug n, 1 ≤ n → n < slugs.count slug → slug ++ "-" ++ toString n ∉ slugs

theorem nodup_numbered_iff {slugs : List String} :
    ((occurrences slugs).map numberedSlug).Nodup ↔ Unclaimed slugs := by
  rw [Syntax.nodup_map_occurrences]
  constructor
  · intro h slug n hpos hcount hmem
    have hclaimed : numberedSlug (slug, n) = numberedSlug (slug ++ "-" ++ toString n, 0) := by
      rw [numberedSlug, numberedSlug, if_pos (show 0 < n from hpos), if_neg (Nat.lt_irrefl 0)]
    have heq := h slug n hcount _ 0 (List.count_pos_iff.mpr hmem) hclaimed
    exact absurd (Prod.mk.inj heq).2 (by omega)
  · intro h s m hm t n hn heq
    have hnumbered : ∀ u : String, ∀ k, 0 < k → numberedSlug (u, k) = u ++ "-" ++ toString k :=
      fun u k hk => if_pos hk
    have hplain : ∀ u : String, numberedSlug (u, 0) = u := fun u => if_neg (Nat.lt_irrefl 0)
    rcases Nat.eq_zero_or_pos m with rfl | hmpos
    · rcases Nat.eq_zero_or_pos n with rfl | hnpos
      · rw [hplain, hplain] at heq
        rw [heq]
      · rw [hplain, hnumbered t n hnpos] at heq
        exact absurd (heq ▸ List.count_pos_iff.mp hm) (h t n hnpos hn)
    · rcases Nat.eq_zero_or_pos n with rfl | hnpos
      · rw [hplain, hnumbered s m hmpos] at heq
        exact absurd (heq.symm ▸ List.count_pos_iff.mp hn) (h s m hmpos hm)
      · rw [hnumbered s m hmpos, hnumbered t n hnpos] at heq
        obtain ⟨rfl, rfl⟩ := dashed_inj heq
        rfl

variable {slugCounts outlineCounts : String → Nat}

theorem visitElements_ids : (visitElements toLowerCase slugCounts headings).filterMap (·.2) =
    (occurrencesFrom slugCounts
      ((headings.map (ownSlug toLowerCase)).filter (· ≠ ""))).map numberedSlug := by
  induction headings generalizing slugCounts with
  | nil => rfl
  | cons h headings ih =>
    rw [visitElements, getTextContent_hast, List.map_cons]
    change (if ownSlug toLowerCase h = "" then _ else _ : List _).filterMap _ = _
    by_cases hslug : ownSlug toLowerCase h = ""
    · rw [if_pos hslug, List.filterMap_cons_none rfl, ih,
        List.filter_cons_of_neg (by simpa using hslug)]
    · rw [if_neg hslug, List.filter_cons_of_pos (by simpa using hslug), occurrencesFrom,
        List.map_cons, ← ih]
      rfl

theorem visitElements_ne : ∀ id ∈ (visitElements toLowerCase slugCounts headings).filterMap (·.2),
    id ≠ "" := by
  rw [visitElements_ids]
  rintro id hid rfl
  obtain ⟨⟨slug, n⟩, hmem, hempty⟩ := List.mem_map.mp hid
  have hslug : slug = "" := by
    unfold numberedSlug at hempty
    split at hempty
    · have hlength := congrArg String.length hempty
      rw [String.length_append, String.length_append] at hlength
      have hdash : ("-" : String).length = 1 := rfl
      have hnone : ("" : String).length = 0 := rfl
      omega
    · exact hempty
  obtain ⟨hle, hlt⟩ := Syntax.mem_occurrencesFrom.mp hmem
  have hcount : 0 < List.count slug ((headings.map (ownSlug toLowerCase)).filter (· ≠ "")) := by
    omega
  have hfilter := (List.mem_filter.mp (List.count_pos_iff.mp hcount)).2
  exact absurd hslug (by simpa using hfilter)

def Slugged (toLowerCase : String → String) (headings : List AtxHeading) : Prop :=
  ∀ h ∈ headings, h.Outlined → (h.text = "" ↔ ownSlug toLowerCase h = "")

/-- No deeper heading comes before one of the outline with its slug. -/
def Unshadowed (toLowerCase : String → String) (headings : List AtxHeading) : Prop :=
  headings.Pairwise fun h h' => ¬h.Outlined → h'.Outlined →
    ownSlug toLowerCase h = ownSlug toLowerCase h' → ownSlug toLowerCase h = ""

def SameCounts (toLowerCase : String → String) (outlineCounts slugCounts : String → Nat)
    (headings : List AtxHeading) : Prop :=
  ∀ h ∈ headings, h.Outlined → ownSlug toLowerCase h ≠ "" →
    outlineCounts (ownSlug toLowerCase h) = slugCounts (ownSlug toLowerCase h)

theorem counted_le (hle : ∀ slug, outlineCounts slug ≤ slugCounts slug) (slug slug' : String) :
    counted outlineCounts slug slug' ≤ counted slugCounts slug slug' := by
  unfold counted
  by_cases heq : slug' = slug
  · subst heq
    rw [Function.update_self, Function.update_self]
    exact Nat.succ_le_succ (hle slug')
  · rw [Function.update_of_ne heq, Function.update_of_ne heq]
    exact hle slug'

theorem visitHeadings_cons (h : AtxHeading) :
    (visitHeadings toLowerCase outlineCounts (h :: headings)).map (·.slug) =
      if h.Outlined ∧ h.text ≠ "" then
        numberedSlug (ownSlug toLowerCase h, outlineCounts (ownSlug toLowerCase h)) ::
          (visitHeadings toLowerCase (counted outlineCounts (ownSlug toLowerCase h))
            headings).map (·.slug)
      else (visitHeadings toLowerCase outlineCounts headings).map (·.slug) := by
  have hpos := h.depthPos
  rw [visitHeadings, getNodeText_mdast]
  by_cases hdepth : h.Outlined
  · have hshown : ¬(h.depth < 1 ∨ 4 < h.depth) := by
      unfold AtxHeading.Outlined at hdepth
      omega
    rw [if_neg hshown]
    dsimp only
    by_cases htext : h.text = ""
    · rw [if_pos htext]
      exact (if_neg fun hboth => hboth.2 htext).symm
    · rw [if_neg htext]
      exact (if_pos ⟨hdepth, htext⟩).symm
  · have hhidden : h.depth < 1 ∨ 4 < h.depth := by
      unfold AtxHeading.Outlined at hdepth
      omega
    rw [if_pos hhidden]
    exact (if_neg fun hboth => hdepth hboth.1).symm

def shownIds (elements : List (AtxHeading × Option String)) : List String :=
  (elements.filter (·.1.depth ≤ 4)).filterMap (·.2)

theorem shownIds_cons (h : AtxHeading) :
    shownIds (visitElements toLowerCase slugCounts (h :: headings)) =
      if ownSlug toLowerCase h = "" then shownIds (visitElements toLowerCase slugCounts headings)
      else if h.Outlined then
        numberedSlug (ownSlug toLowerCase h, slugCounts (ownSlug toLowerCase h)) ::
          shownIds (visitElements toLowerCase (counted slugCounts (ownSlug toLowerCase h)) headings)
      else
        shownIds (visitElements toLowerCase (counted slugCounts (ownSlug toLowerCase h)) headings) := by
  rw [visitElements, getTextContent_hast]
  change shownIds (if ownSlug toLowerCase h = "" then _ else _) = _
  by_cases hslug : ownSlug toLowerCase h = ""
  · rw [if_pos hslug, if_pos hslug, shownIds, List.filter_cons]
    split
    · rw [List.filterMap_cons_none rfl]
      rfl
    · rfl
  · rw [if_neg hslug, if_neg hslug, shownIds, List.filter_cons]
    by_cases hdepth : h.Outlined
    · rw [if_pos hdepth]
      exact congrArg (List.filterMap _) (if_pos (decide_eq_true hdepth))
    · rw [if_neg hdepth]
      exact congrArg (List.filterMap _) (if_neg fun hshown => hdepth (of_decide_eq_true hshown))

theorem shownIds_subset (elements : List (AtxHeading × Option String)) :
    shownIds elements ⊆ elements.filterMap (·.2) := by
  intro id hid
  obtain ⟨e, he, hsome⟩ := List.mem_filterMap.mp hid
  exact List.mem_filterMap.mpr ⟨e, (List.mem_filter.mp he).1, hsome⟩

theorem length_shownIds : (shownIds (visitElements toLowerCase slugCounts headings)).length =
    headings.countP fun h => h.Outlined ∧ ownSlug toLowerCase h ≠ "" := by
  induction headings generalizing slugCounts with
  | nil => rfl
  | cons h headings ih =>
    rw [shownIds_cons, List.countP_cons]
    by_cases hslug : ownSlug toLowerCase h = ""
    · rw [if_pos hslug, ih]
      simp [hslug]
    · by_cases hdepth : h.Outlined
      · rw [if_neg hslug, if_pos hdepth, List.length_cons, ih]
        simp [hslug, hdepth]
      · rw [if_neg hslug, if_neg hdepth, ih]
        simp [hdepth]

theorem length_visitHeadings :
    ((visitHeadings toLowerCase outlineCounts headings).map (·.slug)).length =
      headings.countP fun h => h.Outlined ∧ h.text ≠ "" := by
  induction headings generalizing outlineCounts with
  | nil => rfl
  | cons h headings ih =>
    rw [visitHeadings_cons, List.countP_cons]
    by_cases hshown : h.Outlined ∧ h.text ≠ ""
    · rw [if_pos hshown, List.length_cons, ih]
      simp [hshown]
    · rw [if_neg hshown, ih, if_neg (by simpa using hshown), Nat.add_zero]

theorem slug_mem_visitHeadings {h : AtxHeading} (hmem : h ∈ headings) (hdepth : h.Outlined)
    (htext : h.text ≠ "") (hempty : ownSlug toLowerCase h = "") (hfirst : outlineCounts "" = 0) :
    "" ∈ (visitHeadings toLowerCase outlineCounts headings).map (·.slug) := by
  induction headings generalizing outlineCounts with
  | nil => cases hmem
  | cons h' headings ih =>
    rw [visitHeadings_cons]
    by_cases hself : h'.Outlined ∧ h'.text ≠ ""
    · rw [if_pos hself]
      by_cases hslug : ownSlug toLowerCase h' = ""
      · rw [hslug, hfirst]
        exact List.mem_cons_self
      · have hne : h ≠ h' := by
          rintro rfl
          exact hslug hempty
        refine List.mem_cons_of_mem _ (ih ((List.mem_cons.mp hmem).resolve_left hne) ?_)
        rw [counted, Function.update_of_ne (Ne.symm hslug)]
        exact hfirst
    · rw [if_neg hself]
      have hne : h ≠ h' := by
        rintro rfl
        exact hself ⟨hdepth, htext⟩
      exact ih ((List.mem_cons.mp hmem).resolve_left hne) hfirst

theorem slugged_of_agree (h : (extractHeadings toLowerCase headings).map (·.slug) =
    outlineIds toLowerCase headings) : Slugged toLowerCase headings := by
  change _ = shownIds (visitElements toLowerCase (fun _ => 0) headings) at h
  have htext : ∀ a ∈ headings, a.Outlined → ownSlug toLowerCase a = "" → a.text = "" := by
    intro a ha hdepth hslug
    by_contra hne
    have hmem : "" ∈ (extractHeadings toLowerCase headings).map (·.slug) :=
      slug_mem_visitHeadings ha hdepth hne hslug rfl
    rw [h] at hmem
    exact visitElements_ne "" (shownIds_subset _ hmem) rfl
  have hlength := congrArg List.length h
  rw [length_shownIds] at hlength
  unfold extractHeadings at hlength
  rw [length_visitHeadings, List.countP_eq_length_filter, List.countP_eq_length_filter] at hlength
  intro a ha hdepth
  refine ⟨fun hnone => ?_, htext a ha hdepth⟩
  by_contra hslug
  -- Otherwise there are more elements with an id than headings with a text.
  have hfilter : (headings.filter fun a => a.Outlined ∧ a.text ≠ "") =
      (headings.filter fun a => a.Outlined ∧ ownSlug toLowerCase a ≠ "").filter
        fun a => a.Outlined ∧ a.text ≠ "" := by
    rw [List.filter_filter]
    refine List.filter_congr fun b hb => ?_
    rw [← Bool.decide_and]
    refine decide_eq_decide.mpr (iff_self_and.mpr fun hboth => ⟨hboth.1, fun hslug' => ?_⟩)
    exact hboth.2 (htext b hb hboth.1 hslug')
  have hsub : (headings.filter fun a => a.Outlined ∧ a.text ≠ "").Sublist
      (headings.filter fun a => a.Outlined ∧ ownSlug toLowerCase a ≠ "") := by
    rw [hfilter]
    exact List.filter_sublist
  have heq := hsub.eq_of_length hlength
  have hmem : a ∈ headings.filter fun a => a.Outlined ∧ ownSlug toLowerCase a ≠ "" :=
    List.mem_filter.mpr ⟨ha, by simpa using ⟨hdepth, hslug⟩⟩
  rw [← heq] at hmem
  have hboth := (List.mem_filter.mp hmem).2
  exact (of_decide_eq_true hboth).2 hnone

theorem visits_agree_iff (hslugged : Slugged toLowerCase headings)
    (hle : ∀ slug, outlineCounts slug ≤ slugCounts slug) :
    (visitHeadings toLowerCase outlineCounts headings).map (·.slug) =
        shownIds (visitElements toLowerCase slugCounts headings) ↔
      SameCounts toLowerCase outlineCounts slugCounts headings ∧ Unshadowed toLowerCase headings := by
  induction headings generalizing outlineCounts slugCounts with
  | nil => exact iff_of_true rfl ⟨fun h hh => absurd hh List.not_mem_nil, List.Pairwise.nil⟩
  | cons h headings ih =>
    have hrest : Slugged toLowerCase headings := fun h' hh' => hslugged h' (List.mem_cons_of_mem _ hh')
    have hself := hslugged h List.mem_cons_self
    rw [visitHeadings_cons, shownIds_cons, Unshadowed, List.pairwise_cons]
    change _ ↔ _ ∧ _ ∧ Unshadowed toLowerCase headings
    by_cases hdepth : h.Outlined
    · have hunshadowed : ∀ h' ∈ headings, ¬h.Outlined → h'.Outlined →
          ownSlug toLowerCase h = ownSlug toLowerCase h' → ownSlug toLowerCase h = "" :=
        fun h' _ hdeep => absurd hdepth hdeep
      by_cases hslug : ownSlug toLowerCase h = ""
      · -- A heading without a text is in neither walk.
        have htext := (hself hdepth).mpr hslug
        rw [if_neg fun hboth => hboth.2 htext, if_pos hslug, ih hrest hle]
        refine and_congr ?_ (and_iff_right hunshadowed).symm
        unfold SameCounts
        rw [List.forall_mem_cons]
        exact (and_iff_right fun _ hne => absurd hslug hne).symm
      · have htext : h.text ≠ "" := fun htext => hslug ((hself hdepth).mp htext)
        rw [if_pos ⟨hdepth, htext⟩, if_neg hslug, if_pos hdepth, List.cons.injEq,
          ih hrest (counted_le hle _), ← and_assoc]
        refine and_congr ?_ (and_iff_right hunshadowed).symm
        unfold SameCounts
        rw [List.forall_mem_cons]
        constructor
        · rintro ⟨hhead, htail⟩
          have hcount := numberedSlug_inj hhead
          refine ⟨fun _ _ => hcount, fun h' hh' hdepth' hslug' => ?_⟩
          have hsame := htail h' hh' hdepth' hslug'
          by_cases heq : ownSlug toLowerCase h' = ownSlug toLowerCase h
          · rw [heq]
            exact hcount
          · rwa [counted, counted, Function.update_of_ne heq, Function.update_of_ne heq] at hsame
        · rintro ⟨hhead, htail⟩
          have hcount := hhead hdepth hslug
          refine ⟨by rw [hcount], fun h' hh' hdepth' hslug' => ?_⟩
          by_cases heq : ownSlug toLowerCase h' = ownSlug toLowerCase h
          · rw [heq, counted, counted, Function.update_self, Function.update_self, hcount]
          · rw [counted, counted, Function.update_of_ne heq, Function.update_of_ne heq]
            exact htail h' hh' hdepth' hslug'
    · rw [if_neg fun hboth => hdepth hboth.1]
      have hsame : SameCounts toLowerCase outlineCounts slugCounts (h :: headings) ↔
          SameCounts toLowerCase outlineCounts slugCounts headings := by
        unfold SameCounts
        rw [List.forall_mem_cons]
        exact and_iff_right fun hshown => absurd hshown hdepth
      rw [hsame]
      by_cases hslug : ownSlug toLowerCase h = ""
      · rw [if_pos hslug, ih hrest hle]
        exact and_congr_right fun _ => (and_iff_right fun _ _ _ _ _ => hslug).symm
      · -- The deeper heading is counted for the ids alone.
        rw [if_neg hslug, if_neg hdepth, ih hrest fun slug => ?_, ← and_assoc]
        · refine and_congr_left fun _ => ?_
          constructor
          · intro hcounts
            have hfree : ∀ h' ∈ headings, ¬h.Outlined → h'.Outlined →
                ownSlug toLowerCase h = ownSlug toLowerCase h' → ownSlug toLowerCase h = "" := by
              intro h' hh' _ hdepth' heq
              by_contra hne
              have hmore := hcounts h' hh' hdepth' (heq ▸ hne)
              rw [← heq, counted, Function.update_self] at hmore
              have hless := hle (ownSlug toLowerCase h)
              omega
            refine ⟨fun h' hh' hdepth' hslug' => ?_, hfree⟩
            have hcount := hcounts h' hh' hdepth' hslug'
            by_cases heq : ownSlug toLowerCase h' = ownSlug toLowerCase h
            · exact absurd (hfree h' hh' hdepth hdepth' heq.symm) hslug
            · rwa [counted, Function.update_of_ne heq] at hcount
          · rintro ⟨hcounts, hfree⟩ h' hh' hdepth' hslug'
            have heq : ownSlug toLowerCase h' ≠ ownSlug toLowerCase h := fun heq =>
              hslug (hfree h' hh' hdepth hdepth' heq.symm)
            rw [counted, Function.update_of_ne heq]
            exact hcounts h' hh' hdepth' hslug'
        · unfold counted
          by_cases heq : slug = ownSlug toLowerCase h
          · subst heq
            rw [Function.update_self]
            exact Nat.le_succ_of_le (hle _)
          · rw [Function.update_of_ne heq]
            exact hle slug

/-- Exactly when the anchors of the outline hit their headings and the ids differ. -/
theorem anchored_iff (toLowerCase : String → String) (headings : List AtxHeading) :
    Anchored toLowerCase headings ↔ Slugged toLowerCase headings ∧ Unshadowed toLowerCase headings ∧
      Unclaimed ((headings.map (ownSlug toLowerCase)).filter (· ≠ "")) := by
  have hnodup : (headingIds toLowerCase headings).Nodup ↔
      Unclaimed ((headings.map (ownSlug toLowerCase)).filter (· ≠ "")) := by
    unfold headingIds rehypeHeadingId
    rw [visitElements_ids]
    exact nodup_numbered_iff
  have hcounts : SameCounts toLowerCase (fun _ => 0) (fun _ => 0) headings := fun _ _ _ _ => rfl
  constructor
  · intro h
    have hslugged := slugged_of_agree h.outline
    exact ⟨hslugged, ((visits_agree_iff hslugged fun _ => Nat.le_refl 0).mp h.outline).2,
      hnodup.mp h.nodup⟩
  · rintro ⟨hslugged, hunshadowed, hunclaimed⟩
    exact ⟨(visits_agree_iff hslugged fun _ => Nat.le_refl 0).mpr ⟨hcounts, hunshadowed⟩,
      visitElements_ne, hnodup.mpr hunclaimed⟩

end visits

section shadowed

def asciiToLowerCase (text : String) : String := text.map Char.toLower

/-- A fifth-level heading before a second-level one with the same text. -/
def shadowedHeadings : List AtxHeading :=
  [⟨5, "A", by decide, by decide⟩, ⟨2, "A", by decide, by decide⟩]

/-- The outline leads to the deeper heading. -/
theorem not_anchored_shadowed :
    (extractHeadings asciiToLowerCase shadowedHeadings).map (·.slug) = ["a"] ∧
    outlineIds asciiToLowerCase shadowedHeadings = ["a-1"] ∧
    ¬Anchored asciiToLowerCase shadowedHeadings := by
  have houtline : (extractHeadings asciiToLowerCase shadowedHeadings).map (·.slug) = ["a"] := by
    decide +kernel
  have hids : outlineIds asciiToLowerCase shadowedHeadings = ["a-1"] := by decide +kernel
  refine ⟨houtline, hids, fun h => ?_⟩
  have heq := h.outline
  rw [houtline, hids] at heq
  exact absurd heq (by decide)

end shadowed

end Memoark.Web
