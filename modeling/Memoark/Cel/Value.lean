import Memoark.Cel.Grammar
import Memoark.Logic.Kleene

/-! The text of a conjunction: what the alternatives of `s && t` are. Which memos an expression
selects, by the values of the conditions between its logical operators. -/
namespace Memoark.Cel

section conjunction

open Memoark.Filter (Expr)
open Syntax (glue mapM_glue exists_of_mapM mem_of_mapM ne_nil_of_mapM)

namespace Library

variable {C : Library}

def Reads (C : Library) (text : String) (commented : Bool) (alts : List (List Expr)) : Prop :=
  ∃ ts, C.lex text = some (ts, commented) ∧ (∃ p, brackets.cut .question 0 ts = [p]) ∧
    C.alternatives ts = some alts

theorem alternatives_ne_nil {ts : List Token} {alts : List (List Expr)}
    (h : C.alternatives ts = some alts) : alts ≠ [] := by
  have hpieces : (brackets.cut .or 0 ts).map (brackets.cut .and 0) ≠ [] := by
    simpa using brackets.cut_ne_nil .or 0 ts
  exact ne_nil_of_mapM hpieces h

theorem alternative_ne_nil {ts : List Token} {alts : List (List Expr)}
    (h : C.alternatives ts = some alts) : ∀ alt ∈ alts, alt ≠ [] := by
  intro alt hmem
  obtain ⟨pieces, hpieces, halt⟩ := mem_of_mapM h alt hmem
  obtain ⟨p, -, rfl⟩ := List.mem_map.mp hpieces
  exact ne_nil_of_mapM (brackets.cut_ne_nil .and 0 p) halt

theorem closed_of_alternatives (hC : Productions C) {ts : List Token} {alts : List (List Expr)}
    (h : C.alternatives ts = some alts) : brackets.Closed ts := by
  refine brackets.closed_of_pieces flat_or fun p hp => brackets.closed_of_pieces flat_and
    fun q hq => ?_
  have hpieces := List.mem_map_of_mem (f := brackets.cut .and 0) hp
  obtain ⟨alt, halt⟩ := exists_of_mapM h _ hpieces
  obtain ⟨e, he⟩ := exists_of_mapM halt q hq
  exact hC.closed he

theorem alternatives_and (hC : Productions C) {ts us : List Token} {as bs : List (List Expr)}
    (ha : C.alternatives ts = some as) (hb : C.alternatives us = some bs) :
    C.alternatives (ts ++ .and :: us) = some (glue as bs) := by
  have hclosed := closed_of_alternatives hC ha
  have hne : Token.and ≠ .or := by decide
  have hcut := brackets.cut_around flat_or flat_and hne hclosed us
  have hpieces := brackets.map_cut_around flat_and (brackets.cut_ne_nil .or 0 ts)
    (fun p hp => brackets.closed_piece flat_or hclosed hp) (brackets.cut_ne_nil .or 0 us)
  unfold alternatives at ha hb ⊢
  rw [hcut, hpieces]
  exact mapM_glue ha hb

theorem relation_of_alternatives {ts : List Token} {alts : List (List Expr)}
    (h : C.alternatives ts = some alts) {alt : List Expr} (halt : alt ∈ alts) {e : Expr}
    (he : e ∈ alt) : ∃ us, (∀ t ∈ us, t ∈ ts) ∧ C.relation us = some e := by
  obtain ⟨pieces, hpieces, halt⟩ := mem_of_mapM h alt halt
  obtain ⟨p, hp, rfl⟩ := List.mem_map.mp hpieces
  obtain ⟨us, hus, he⟩ := mem_of_mapM halt e he
  exact ⟨us, fun t ht => brackets.mem_of_mem_cut hp (brackets.mem_of_mem_cut hus ht), he⟩

/-- A relation in front of `&&` is one of the relations; the others are read from what follows. -/
theorem relation_of_alternatives_and (hC : Productions C) {ts us : List Token} {e' : Expr}
    (hrelation : C.relation ts = some e') (hand : .and ∉ ts) (hor : .or ∉ ts)
    {alts : List (List Expr)} (h : C.alternatives (ts ++ .and :: us) = some alts) {alt : List Expr}
    (halt : alt ∈ alts) {e : Expr} (he : e ∈ alt) :
    e = e' ∨ ∃ vs, (∀ t ∈ vs, t ∈ us) ∧ C.relation vs = some e := by
  have hne : Token.and ≠ .or := by decide
  have hclosed := hC.closed hrelation
  have hcut := brackets.cut_around flat_or flat_and hne hclosed us
  have hpieces := brackets.map_cut_around flat_and (brackets.cut_ne_nil .or 0 ts)
    (fun p hp => brackets.closed_piece flat_or hclosed hp) (brackets.cut_ne_nil .or 0 us)
  unfold alternatives at h
  rw [hcut, hpieces, brackets.cut_of_not_mem hor, List.map_singleton,
    brackets.cut_of_not_mem hand] at h
  obtain ⟨pieces, hmem, halt⟩ := mem_of_mapM h alt halt
  obtain ⟨vs, hvs, he⟩ := mem_of_mapM halt e he
  have hlater : ∀ q ∈ (brackets.cut .or 0 us).map (brackets.cut .and 0), vs ∈ q →
      ∀ t ∈ vs, t ∈ us := by
    intro q hq hvs t ht
    obtain ⟨p, hp, rfl⟩ := List.mem_map.mp hq
    exact brackets.mem_of_mem_cut hp (brackets.mem_of_mem_cut hvs ht)
  cases hrest : (brackets.cut .or 0 us).map (brackets.cut .and 0) with
  | nil =>
    have hnil := List.map_eq_nil_iff.mp hrest
    exact absurd hnil (brackets.cut_ne_nil .or 0 us)
  | cons q qs =>
    rw [hrest, Syntax.glue_single, List.mem_cons] at hmem
    rw [hrest] at hlater
    rcases hmem with rfl | hmem
    · rcases List.mem_append.mp hvs with hfirst | hvs
      · left
        rw [List.mem_singleton.mp hfirst, hrelation] at he
        exact (Option.some.inj he).symm
      · exact .inr ⟨vs, hlater q List.mem_cons_self hvs, he⟩
    · exact .inr ⟨vs, hlater pieces (List.mem_cons_of_mem q hmem) hvs, he⟩

theorem lex_and (hC : Lexis C.lex) {s t : String} {ts us : List Token} {b : Bool}
    (hs : C.lex s = some (ts, false)) (ht : C.lex t = some (us, b)) :
    C.lex (s ++ " && " ++ t) = some (ts ++ .and :: us, b) := by
  have hspace : " && " = " " ++ "&&" ++ " " := by decide
  have hand := hC.blank (hC.blank hs hC.conjunction) ht
  rw [hspace, ← String.append_assoc, ← String.append_assoc]
  simpa using hand

theorem Reads.and (hC : C.Documented) {s t : String} {as bs : List (List Expr)} {b : Bool}
    (hs : C.Reads s false as) (ht : C.Reads t b bs) : C.Reads (s ++ " && " ++ t) b (glue as bs) := by
  obtain ⟨ts, hts, ⟨p, hp⟩, has⟩ := hs
  obtain ⟨us, hus, ⟨q, hq⟩, hbs⟩ := ht
  have hne : Token.and ≠ .question := by decide
  have hcut := brackets.cut_around flat_question flat_and hne
    (closed_of_alternatives hC.productions has) us
  refine ⟨ts ++ .and :: us, lex_and hC.lexis hts hus, ⟨p ++ ([.and] ++ q), ?_⟩,
    alternatives_and hC.productions has hbs⟩
  rw [hcut, hp, hq]
  rfl

theorem Reads.swallow (hC : C.Documented) {s t : String} {as : List (List Expr)}
    (hs : C.Reads s true as) (ht : '\n' ∉ t.toList) : C.Reads (s ++ t) true as := by
  obtain ⟨ts, hts, hrest⟩ := hs
  exact ⟨ts, hC.lexis.comment hts ht, hrest⟩

theorem Reads.ne_nil {text : String} {b : Bool} {alts : List (List Expr)}
    (h : C.Reads text b alts) : alts ≠ [] := by
  obtain ⟨ts, -, -, halts⟩ := h
  exact alternatives_ne_nil halts

theorem Reads.alternative_ne_nil {text : String} {b : Bool} {alts : List (List Expr)}
    (h : C.Reads text b alts) : ∀ alt ∈ alts, alt ≠ [] := by
  obtain ⟨ts, -, -, halts⟩ := h
  exact Library.alternative_ne_nil halts

theorem Reads.parse {text : String} {b : Bool} {alts : List (List Expr)}
    (h : C.Reads text b alts) (hsize : text.length ≤ C.sizeLimit) :
    C.parse text = some (C.tree alts) := by
  obtain ⟨ts, hlex, ⟨p, hp⟩, halts⟩ := h
  simp [Library.parse, hsize, hlex, expression, hp, halts]

theorem reads_of_parse (hC : Productions C) {text : String} {e : Expr}
    (h : C.parse text = some e) (he : ∀ args, e ≠ .call none "_?_:_" args) :
    text.length ≤ C.sizeLimit ∧ ∃ b alts, C.Reads text b alts ∧ e = C.tree alts := by
  unfold Library.parse at h
  split at h
  · rename_i hsize
    obtain ⟨⟨ts, b⟩, hlex, hexpr⟩ := Option.bind_eq_some_iff.mp h
    refine ⟨hsize, b, ?_⟩
    unfold expression at hexpr
    split at hexpr
    · rename_i p hp
      obtain ⟨alts, halts, rfl⟩ := Option.map_eq_some_iff.mp hexpr
      exact ⟨alts, ⟨ts, hlex, ⟨p, hp⟩, halts⟩, rfl⟩
    · obtain ⟨args, hargs⟩ := hC.conditional hexpr
      exact absurd hargs (he args)
  · cases h

end Library

end conjunction

end Memoark.Cel

namespace Memoark.Filter

open Logic (Truth)

/-- The value of an expression on a memo, where `v` are the values of the conditions that the
logical operators connect. -/
def Expr.value (v : Expr → Truth) : Expr → Truth
  | .call _ "_&&_" [l, r] => (l.value v).and (r.value v)
  | .call _ "_||_" [l, r] => (l.value v).or (r.value v)
  | .call _ "!_" [e] => (e.value v).not
  | e => v e

def Expr.Selects (v : Expr → Truth) (e : Expr) : Prop := e.value v = .true

end Memoark.Filter

namespace Memoark.Cel

open Memoark.Filter (Expr)
open Logic (Truth)
open Syntax (glue glue_ne_nil length_glue_single getElem_glue_single)

variable {v : Expr → Truth}

theorem value_congr {v v' : Expr → Truth} {s : String} (h : ∀ e, ¬Mentions s e → v e = v' e)
    {e : Expr} (he : ¬Mentions s e) : e.value v = e.value v' := by
  have hargs : ∀ {target : Option Expr} {function : String} {args : List Expr} {e : Expr},
      ¬Mentions s (.call target function args) → e ∈ args → ¬Mentions s e :=
    fun hcall hmem hmentions => hcall (.arg hmem hmentions)
  induction e using (Filter.Expr.value.induct) with
  | case1 target l r hl hr =>
    rw [Expr.value, Expr.value, hl (hargs he (by simp)), hr (hargs he (by simp))]
  | case2 target l r hl hr =>
    rw [Expr.value, Expr.value, hl (hargs he (by simp)), hr (hargs he (by simp))]
  | case3 target e ih => rw [Expr.value, Expr.value, ih (hargs he (by simp))]
  | case4 e hand hor hnot =>
    rw [Expr.value, Expr.value]
    · exact h e he
    all_goals assumption

theorem Tree.selects_and {es : List Expr} {e : Expr} (h : Tree "_&&_" es e) :
    e.Selects v ↔ ∀ e' ∈ es, e'.Selects v := by
  induction h with
  | leaf e => simp
  | call ha hb iha ihb =>
    unfold Expr.Selects at iha ihb ⊢
    rw [Expr.value, Truth.and_eq_true, iha, ihb]
    simp [or_imp, forall_and]

theorem Tree.selects_or {es : List Expr} {e : Expr} (h : Tree "_||_" es e) :
    e.Selects v ↔ ∃ e' ∈ es, e'.Selects v := by
  induction h with
  | leaf e => simp
  | call ha hb iha ihb =>
    unfold Expr.Selects at iha ihb ⊢
    rw [Expr.value, Truth.or_eq_true, iha, ihb]
    simp [or_and_right, exists_or]

def AllSelect (v : Expr → Truth) (es : List Expr) : Prop := ∀ e ∈ es, e.Selects v

theorem allSelect_append {es fs : List Expr} :
    AllSelect v (es ++ fs) ↔ AllSelect v es ∧ AllSelect v fs := List.forall_mem_append

theorem Library.tree_selects {C : Library} (hC : Productions C) {alts : List (List Expr)}
    (hne : alts ≠ []) (hall : ∀ alt ∈ alts, alt ≠ []) :
    (C.tree alts).Selects v ↔ ∃ alt ∈ alts, AllSelect v alt := by
  have hor : Tree "_||_" (alts.map (C.chain "_&&_")) (C.tree alts) :=
    hC.chain "_||_" (by simpa using hne)
  have hand : ∀ alt ∈ alts, (C.chain "_&&_" alt).Selects v ↔ AllSelect v alt :=
    fun alt hmem => (hC.chain "_&&_" (hall alt hmem)).selects_and
  rw [hor.selects_or]
  constructor
  · rintro ⟨e, he, hselects⟩
    obtain ⟨alt, hmem, rfl⟩ := List.mem_map.mp he
    exact ⟨alt, hmem, (hand alt hmem).mp hselects⟩
  · rintro ⟨alt, hmem, hselects⟩
    exact ⟨C.chain "_&&_" alt, List.mem_map_of_mem hmem, (hand alt hmem).mpr hselects⟩

theorem Library.Reads.selects {C : Library} (hC : Productions C) {text : String} {b : Bool}
    {alts : List (List Expr)} (h : C.Reads text b alts) :
    (C.tree alts).Selects v ↔ ∃ alt ∈ alts, AllSelect v alt :=
  tree_selects hC h.ne_nil h.alternative_ne_nil

def surround (before : List Expr) (alts : List (List Expr)) (after : List Expr) :
    List (List Expr) := glue [before] (glue alts [after])

theorem exists_glue_left {es : List Expr} {alts : List (List Expr)} (hne : alts ≠ []) :
    (∃ alt ∈ glue [es] alts, AllSelect v alt) ↔
      ∃ i, ∃ hi : i < alts.length, AllSelect v alts[i] ∧ (i = 0 → AllSelect v es) := by
  cases alts with
  | nil => exact absurd rfl hne
  | cons p ps =>
    have hglue : glue [es] (p :: ps) = (es ++ p) :: ps := rfl
    rw [hglue]
    constructor
    · rintro ⟨alt, hmem, hselect⟩
      rcases List.mem_cons.mp hmem with rfl | hrest
      · obtain ⟨hes, hp⟩ := allSelect_append.mp hselect
        exact ⟨0, by simp, hp, fun _ => hes⟩
      · obtain ⟨i, hi, rfl⟩ := List.getElem_of_mem hrest
        exact ⟨i + 1, by simpa using hi, hselect, fun h => absurd h (Nat.succ_ne_zero i)⟩
    · rintro ⟨i, hi, hselect, hfirst⟩
      cases i with
      | zero => exact ⟨es ++ p, by simp, allSelect_append.mpr ⟨hfirst rfl, hselect⟩⟩
      | succ i =>
        have hi' : i < ps.length := by simpa using hi
        exact ⟨ps[i], List.mem_cons_of_mem _ (List.getElem_mem hi'), hselect⟩

theorem exists_surround {before after : List Expr} {alts : List (List Expr)} (hne : alts ≠ []) :
    (∃ alt ∈ surround before alts after, AllSelect v alt) ↔
      ∃ i, ∃ hi : i < alts.length, AllSelect v alts[i] ∧ (i = 0 → AllSelect v before) ∧
        (i + 1 = alts.length → AllSelect v after) := by
  have hlength := length_glue_single hne after
  unfold surround
  rw [exists_glue_left (glue_ne_nil hne _)]
  constructor
  · rintro ⟨i, hi, hselect, hbefore⟩
    have hi' : i < alts.length := hlength ▸ hi
    rw [getElem_glue_single hne after i hi' hi] at hselect
    refine ⟨i, hi', ?_⟩
    by_cases hlast : i + 1 = alts.length
    · rw [if_pos hlast, allSelect_append] at hselect
      exact ⟨hselect.1, hbefore, fun _ => hselect.2⟩
    · rw [if_neg hlast] at hselect
      exact ⟨hselect, hbefore, fun h => absurd h hlast⟩
  · rintro ⟨i, hi, hselect, hbefore, hafter⟩
    have hi' : i < (glue alts [after]).length := hlength.symm ▸ hi
    refine ⟨i, hi', ?_, hbefore⟩
    rw [getElem_glue_single hne after i hi hi']
    by_cases hlast : i + 1 = alts.length
    · rw [if_pos hlast, allSelect_append]
      exact ⟨hselect, hafter hlast⟩
    · rw [if_neg hlast]
      exact hselect

end Memoark.Cel
