import Memoark.Cel.Value

/-! Texts joined by ` && `: what the joined text selects beside what its parts select. -/
namespace Memoark.Cel

open Memoark.Filter (Expr)
open Logic (Truth)
open Syntax (glue glue_nil_piece glue_empty)

namespace Library

variable {C : Library} {v : Expr → Truth}

def Selects (C : Library) (v : Expr → Truth) (text : String) : Prop :=
  ∃ e, C.parse text = some e ∧ e.Selects v

def MeansConjunction (C : Library) (v : Expr → Truth) (conditions : List String) (text : String) :
    Prop :=
  (∃ e, C.parse text = some e) ∧ (C.Selects v text ↔ ∀ c ∈ conditions, C.Selects v c)

/-- No alternative of a condition selects a memo, with the conditions that are joined to it,
that another condition rejects: the conditions before it are joined to its first alternative,
those after it to its last, unless a comment at its end swallows them. -/
def Contained (C : Library) (v : Expr → Truth) (before : List String) (condition : String)
    (after : List String) : Prop :=
  ∀ commented alts, C.Reads condition commented alts → ∀ i, ∀ hi : i < alts.length,
    AllSelect v alts[i] → (i = 0 → ∀ c ∈ before, C.Selects v c) →
      (i + 1 = alts.length → commented = false → ∀ c ∈ after, C.Selects v c) →
        ∀ c ∈ before ++ after, C.Selects v c

theorem selects_iff_any {text : String} :
    (C.parse text).any (fun e => e.value v = .true) = true ↔ C.Selects v text := by
  cases h : C.parse text with
  | none => simp [Selects, h]
  | some e => simp [Selects, Expr.Selects, h]

instance {text : String} : Decidable (C.Selects v text) := decidable_of_iff _ selects_iff_any

instance {conditions : List String} {text : String} :
    Decidable (C.MeansConjunction v conditions text) :=
  decidable_of_iff
    ((C.parse text).isSome = true ∧ (C.Selects v text ↔ ∀ c ∈ conditions, C.Selects v c))
    (and_congr_left' Option.isSome_iff_exists)

structure Single (C : Library) (text : String) (es : List Expr) : Prop where
  reads : C.Reads text false [es]
  newline : '\n' ∉ text.toList

theorem reads_unique {text : String} {b b' : Bool} {alts alts' : List (List Expr)}
    (h : C.Reads text b alts) (h' : C.Reads text b' alts') : b = b' ∧ alts = alts' := by
  obtain ⟨ts, hlex, -, halts⟩ := h
  obtain ⟨ts', hlex', -, halts'⟩ := h'
  obtain ⟨rfl, rfl⟩ : ts = ts' ∧ b = b' := by simpa using hlex.symm.trans hlex'
  exact ⟨rfl, Option.some.inj (halts.symm.trans halts')⟩

theorem contained_of_single {es : List Expr} {before after : List String} {condition : String}
    (h : C.Reads condition false [es]) : C.Contained v before condition after := by
  intro b alts hread i hi _ hfirst hlast
  obtain ⟨rfl, rfl⟩ := reads_unique h hread
  have hzero : i = 0 := by
    have hone : [es].length = 1 := rfl
    omega
  have hbefore := hfirst hzero
  have hafter := hlast (by simp [hzero]) rfl
  exact List.forall_mem_append.mpr ⟨hbefore, hafter⟩

theorem Reads.selects_iff (hC : Productions C) {text : String} {b : Bool}
    {alts : List (List Expr)} (h : C.Reads text b alts) (hsize : text.length ≤ C.sizeLimit) :
    C.Selects v text ↔ ∃ alt ∈ alts, AllSelect v alt := by
  rw [← h.selects hC]
  constructor
  · rintro ⟨e, he, hselects⟩
    obtain rfl : C.tree alts = e := Option.some.inj ((h.parse hsize).symm.trans he)
    exact hselects
  · exact fun hselects => ⟨C.tree alts, h.parse hsize, hselects⟩

theorem Single.selects_iff (hC : Productions C) {text : String} {es : List Expr}
    (h : C.Single text es) (hsize : text.length ≤ C.sizeLimit) :
    C.Selects v text ↔ AllSelect v es := by
  rw [h.reads.selects_iff hC hsize]
  simp

theorem Single.and (hC : C.Documented) {s t : String} {es fs : List Expr} (hs : C.Single s es)
    (ht : C.Single t fs) : C.Single (s ++ " && " ++ t) (es ++ fs) where
  reads := hs.reads.and hC ht.reads
  newline := by
    have hand : '\n' ∉ " && ".toList := by decide
    simp only [String.toList_append, List.mem_append, not_or]
    exact ⟨⟨hs.newline, hand⟩, ht.newline⟩

theorem length_le_intercalate (sep : String) {texts : List String} {text : String}
    (h : text ∈ texts) : text.length ≤ (sep.intercalate texts).length := by
  induction texts with
  | nil => cases h
  | cons s rest ih =>
    cases rest with
    | nil =>
      obtain rfl : text = s := by simpa using h
      simp
    | cons t rest =>
      rw [String.intercalate_cons_cons, String.length_append, String.length_append]
      rcases List.mem_cons.mp h with rfl | hmem
      · omega
      · have hrest := ih hmem
        omega

theorem intercalate_append (sep : String) {ss ts : List String} (hs : ss ≠ []) (ht : ts ≠ []) :
    sep.intercalate (ss ++ ts) = sep.intercalate ss ++ sep ++ sep.intercalate ts := by
  induction ss with
  | nil => exact absurd rfl hs
  | cons s ss ih =>
    cases ss with
    | nil =>
      cases ts with
      | nil => exact absurd rfl ht
      | cons t ts => simp [String.intercalate_cons_cons]
    | cons s' ss =>
      have hrest := ih (List.cons_ne_nil s' ss)
      simp only [List.cons_append] at hrest ⊢
      rw [String.intercalate_cons_cons, hrest, String.intercalate_cons_cons]
      simp [String.append_assoc]

theorem single_intercalate (hC : C.Documented) {texts : List String} (hne : texts ≠ [])
    (h : ∀ c ∈ texts, ∃ es, C.Single c es) :
    ∃ es, C.Single (" && ".intercalate texts) es ∧ ∀ v, (∀ c ∈ texts, c.length ≤ C.sizeLimit) →
      (AllSelect v es ↔ ∀ c ∈ texts, C.Selects v c) := by
  induction texts with
  | nil => exact absurd rfl hne
  | cons s rest ih =>
    obtain ⟨es, hs⟩ := h s (by simp)
    cases rest with
    | nil =>
      refine ⟨es, by simpa using hs, fun v hsize => ?_⟩
      have hselects := hs.selects_iff (v := v) hC.productions (hsize s (by simp))
      simp [hselects]
    | cons t rest =>
      obtain ⟨fs, ht, hfs⟩ := ih (List.cons_ne_nil t rest) fun c hc =>
        h c (List.mem_cons_of_mem s hc)
      refine ⟨es ++ fs, ?_, fun v hsize => ?_⟩
      · rw [String.intercalate_cons_cons]
        exact hs.and hC ht
      · have hselects := hs.selects_iff (v := v) hC.productions (hsize s (by simp))
        rw [allSelect_append, hfs v fun c hc => hsize c (List.mem_cons_of_mem s hc), ← hselects]
        simp

theorem exists_relations (hC : C.Documented) {texts : List String}
    (h : ∀ c ∈ texts, ∃ es, C.Single c es) :
    ∃ es, (texts = [] → es = []) ∧ (texts ≠ [] → C.Single (" && ".intercalate texts) es) ∧
      ∀ v, (∀ c ∈ texts, c.length ≤ C.sizeLimit) →
        (AllSelect v es ↔ ∀ c ∈ texts, C.Selects v c) := by
  by_cases hne : texts = []
  · subst hne
    exact ⟨[], fun _ => rfl, fun hne => absurd rfl hne, fun v _ => by simp [AllSelect]⟩
  · obtain ⟨es, hsingle, hselects⟩ := single_intercalate hC hne h
    exact ⟨es, fun he => absurd he hne, fun _ => hsingle, hselects⟩

variable {before after : List String} {condition : String}

theorem reads_joined (hC : C.Documented) {b : Bool} {alts : List (List Expr)}
    (hcondition : C.Reads condition b alts) {es fs : List Expr} (hes : before = [] → es = [])
    (hbefore : before ≠ [] → C.Single (" && ".intercalate before) es)
    (hfs : after = [] → fs = []) (hafter : after ≠ [] → C.Single (" && ".intercalate after) fs) :
    C.Reads (" && ".intercalate (before ++ condition :: after)) b
      (surround es alts (if b then [] else fs)) := by
  have htail : C.Reads (" && ".intercalate (condition :: after)) b
      (glue alts [if b then [] else fs]) := by
    by_cases hne : after = []
    · rw [hne, hfs hne, ite_self, glue_empty hcondition.ne_nil, String.intercalate_singleton]
      exact hcondition
    · have hsingle := hafter hne
      have htext := intercalate_append " && " (List.cons_ne_nil condition []) hne
      rw [String.intercalate_singleton] at htext
      rw [← List.singleton_append, htext]
      cases b with
      | false => exact hcondition.and hC hsingle.reads
      | true =>
        have hline : '\n' ∉ (" && " ++ " && ".intercalate after).toList := by
          have hand : '\n' ∉ " && ".toList := by decide
          simp only [String.toList_append, List.mem_append, not_or]
          exact ⟨hand, hsingle.newline⟩
        rw [if_pos rfl, glue_empty hcondition.ne_nil, String.append_assoc]
        exact hcondition.swallow hC hline
  unfold surround
  by_cases hne : before = []
  · rw [hne, hes hne, List.nil_append, glue_nil_piece htail.ne_nil]
    exact htail
  · rw [intercalate_append " && " hne (List.cons_ne_nil condition after)]
    exact (hbefore hne).reads.and hC htail

theorem joined_iff (hC : C.Documented) {b : Bool} {alts : List (List Expr)}
    (hcondition : C.Reads condition b alts) (hbefore : ∀ c ∈ before, ∃ es, C.Single c es)
    (hafter : ∀ c ∈ after, ∃ es, C.Single c es) :
    C.MeansConjunction v (before ++ condition :: after)
        (" && ".intercalate (before ++ condition :: after)) ↔
      (" && ".intercalate (before ++ condition :: after)).length ≤ C.sizeLimit ∧
        C.Contained v before condition after := by
  obtain ⟨es, hes, hsingle, hselect⟩ := exists_relations hC hbefore
  obtain ⟨fs, hfs, hsingle', hselect'⟩ := exists_relations hC hafter
  have hread := reads_joined hC hcondition hes hsingle hfs hsingle'
  by_cases hsize : (" && ".intercalate (before ++ condition :: after)).length ≤ C.sizeLimit
  · have hpart : ∀ c ∈ before ++ condition :: after, c.length ≤ C.sizeLimit := fun c hc =>
      Nat.le_trans (length_le_intercalate " && " hc) hsize
    have hB := hselect v fun c hc => hpart c (by simp [hc])
    have hA := hselect' v fun c hc => hpart c (by simp [hc])
    have hS := hcondition.selects_iff (v := v) hC.productions (hpart condition (by simp))
    have hT := hread.selects_iff (v := v) hC.productions hsize
    rw [exists_surround hcondition.ne_nil] at hT
    have hlast : AllSelect v (if b then [] else fs) ↔ (b = false → ∀ c ∈ after, C.Selects v c) := by
      cases b with
      | false => simpa using hA
      | true => simp [AllSelect]
    have hall : (∀ c ∈ before ++ condition :: after, C.Selects v c) ↔
        (∀ c ∈ before, C.Selects v c) ∧ C.Selects v condition ∧ ∀ c ∈ after, C.Selects v c := by
      simp [or_imp, forall_and]
    constructor
    · rintro ⟨-, hmeans⟩
      refine ⟨hsize, fun b' alts' hread' i hi hselects hfirst hend => ?_⟩
      obtain ⟨rfl, rfl⟩ := reads_unique hcondition hread'
      have htext := hT.mpr ⟨i, hi, hselects, fun h => hB.mpr (hfirst h), fun h => hlast.mpr (hend h)⟩
      obtain ⟨hbeforeAll, -, hafterAll⟩ := hall.mp (hmeans.mp htext)
      exact List.forall_mem_append.mpr ⟨hbeforeAll, hafterAll⟩
    · rintro ⟨-, hcontained⟩
      refine ⟨⟨_, hread.parse hsize⟩, fun htext => hall.mpr ?_, fun hparts => hT.mpr ?_⟩
      · obtain ⟨i, hi, hselects, hfirst, hend⟩ := hT.mp htext
        have hothers := hcontained b alts hcondition i hi hselects (fun h => hB.mp (hfirst h))
          fun h => hlast.mp (hend h)
        obtain ⟨hbeforeAll, hafterAll⟩ := List.forall_mem_append.mp hothers
        exact ⟨hbeforeAll, hS.mpr ⟨alts[i], List.getElem_mem hi, hselects⟩, hafterAll⟩
      · obtain ⟨hbeforeAll, hcond, hafterAll⟩ := hall.mp hparts
        obtain ⟨alt, hmem, hselects⟩ := hS.mp hcond
        obtain ⟨i, hi, rfl⟩ := List.getElem_of_mem hmem
        exact ⟨i, hi, hselects, fun _ => hB.mpr hbeforeAll, fun _ => hlast.mpr fun _ => hafterAll⟩
  · refine ⟨fun hmeans => ?_, fun h => absurd h.1 hsize⟩
    obtain ⟨e, he⟩ := hmeans.1
    rw [Library.parse, if_neg hsize] at he
    cases he

theorem joined_single_iff (hC : C.Documented) {texts : List String} (hne : texts ≠ [])
    (h : ∀ c ∈ texts, ∃ es, C.Single c es) :
    C.MeansConjunction v texts (" && ".intercalate texts) ↔
      (" && ".intercalate texts).length ≤ C.sizeLimit := by
  obtain ⟨es, hsingle, hselect⟩ := single_intercalate hC hne h
  constructor
  · rintro ⟨⟨e, he⟩, -⟩
    refine Decidable.byContradiction fun hsize => ?_
    rw [Library.parse, if_neg hsize] at he
    cases he
  · intro hsize
    have hparts := hselect v fun c hc => Nat.le_trans (length_le_intercalate " && " hc) hsize
    have htext := hsingle.selects_iff (v := v) hC.productions hsize
    exact ⟨⟨_, hsingle.reads.parse hsize⟩, htext.trans hparts⟩

end Library

end Memoark.Cel
