import Mathlib.Data.List.Forall2
import Mathlib.Data.List.Infix

/-! Patterns of LIKE: `%` stands for any characters, `_` for one, and an escape character, where
there is one, makes the next character stand for itself. -/
namespace Memoark.Logic.Like

inductive Piece where
  | many
  | one
  | char (c : Char)
  deriving DecidableEq

def pieces (escape : Option Char) : List Char → List Piece
  | [] => []
  | [c] => if c = '%' then [.many] else if c = '_' then [.one] else [.char c]
  | c :: d :: cs =>
    if escape = some c then .char d :: pieces escape cs
    else if c = '%' then .many :: pieces escape (d :: cs)
    else if c = '_' then .one :: pieces escape (d :: cs)
    else .char c :: pieces escape (d :: cs)

def accepts (same : Char → Char → Bool) : List Piece → List Char → Bool
  | [], text => text.isEmpty
  | .many :: ps, text => text.tails.any (accepts same ps)
  | .one :: _, [] => false
  | .one :: ps, _ :: text => accepts same ps text
  | .char _ :: _, [] => false
  | .char c :: ps, x :: text => same c x && accepts same ps text

section steps

variable {same : Char → Char → Bool} {escape : Option Char} {c d : Char} {cs : List Char}

theorem pieces_single : pieces escape [c] =
    if c = '%' then [.many] else if c = '_' then [.one] else [.char c] := rfl

theorem pieces_pair : pieces escape (c :: d :: cs) =
    if escape = some c then .char d :: pieces escape cs
    else if c = '%' then .many :: pieces escape (d :: cs)
    else if c = '_' then .one :: pieces escape (d :: cs)
    else .char c :: pieces escape (d :: cs) := rfl

theorem accepts_tails {ps : List Piece} {text : List Char} :
    accepts same (.many :: ps) text = text.tails.any (accepts same ps) := rfl

theorem accepts_char {ps : List Piece} {x : Char} {text : List Char} :
    accepts same (.char c :: ps) (x :: text) = (same c x && accepts same ps text) := rfl

end steps

def like (escape : Option Char) (same : Char → Char → Bool) (text pattern : String) : Bool :=
  accepts same (pieces escape pattern.toList) text.toList

variable {same : Char → Char → Bool} {escape : Option Char}

theorem accepts_many {ps : List Piece} {text : List Char} :
    accepts same (.many :: ps) text = true ↔
      ∃ before rest, before ++ rest = text ∧ accepts same ps rest = true := by
  rw [accepts_tails, List.any_eq_true]
  constructor
  · rintro ⟨rest, hrest, haccepts⟩
    obtain ⟨before, rfl⟩ := (List.mem_tails rest text).mp hrest
    exact ⟨before, rest, rfl, haccepts⟩
  · rintro ⟨before, rest, rfl, haccepts⟩
    exact ⟨rest, (List.mem_tails rest _).mpr (List.suffix_append _ _), haccepts⟩

theorem accepts_chars {cs : List Char} {ps : List Piece} {text : List Char} :
    accepts same (cs.map .char ++ ps) text = true ↔
      ∃ part rest, part ++ rest = text ∧ List.Forall₂ (same · ·) cs part ∧
        accepts same ps rest = true := by
  induction cs generalizing text with
  | nil =>
    constructor
    · intro h
      exact ⟨[], text, rfl, .nil, h⟩
    · rintro ⟨part, rest, rfl, hpart, h⟩
      cases hpart
      exact h
  | cons c cs ih =>
    cases text with
    | nil =>
      constructor
      · intro h
        cases h
      · rintro ⟨part, rest, htext, hpart, -⟩
        obtain ⟨rfl, -⟩ := List.append_eq_nil_iff.mp htext
        cases hpart
    | cons x text =>
      rw [List.map_cons, List.cons_append, accepts_char, Bool.and_eq_true, ih]
      constructor
      · rintro ⟨hsame, part, rest, rfl, hpart, h⟩
        exact ⟨x :: part, rest, rfl, .cons hsame hpart, h⟩
      · rintro ⟨part, rest, htext, hpart, h⟩
        cases hpart with
        | cons hsame hpart =>
          injection htext with hx htext
          subst hx
          exact ⟨hsame, _, rest, htext, hpart, h⟩

theorem accepts_part {cs text : List Char} :
    accepts same (.many :: (cs.map .char ++ [.many])) text = true ↔
      ∃ before part after, before ++ part ++ after = text ∧ List.Forall₂ (same · ·) cs part := by
  have hrest : ∀ rest, accepts same [.many] rest = true := by
    intro rest
    exact accepts_many.mpr ⟨rest, [], List.append_nil rest, rfl⟩
  rw [accepts_many]
  constructor
  · rintro ⟨before, rest, rfl, h⟩
    obtain ⟨part, after, rfl, hpart, -⟩ := accepts_chars.mp h
    exact ⟨before, part, after, List.append_assoc _ _ _, hpart⟩
  · rintro ⟨before, part, after, rfl, hpart⟩
    refine ⟨before, part ++ after, (List.append_assoc _ _ _).symm, ?_⟩
    exact accepts_chars.mpr ⟨part, after, rfl, hpart, hrest after⟩

def Plain (escape : Option Char) (cs : List Char) : Prop :=
  ∀ c ∈ cs, c ≠ '%' ∧ c ≠ '_' ∧ escape ≠ some c

theorem pieces_cons {c : Char} (h : c ≠ '%' ∧ c ≠ '_' ∧ escape ≠ some c) (cs : List Char) :
    pieces escape (c :: cs) = .char c :: pieces escape cs := by
  obtain ⟨hmany, hone, hescape⟩ := h
  cases cs with
  | nil => rw [pieces_single, if_neg hmany, if_neg hone]; rfl
  | cons d cs => rw [pieces_pair, if_neg hescape, if_neg hmany, if_neg hone]

theorem pieces_many (hescape : escape ≠ some '%') (cs : List Char) :
    pieces escape ('%' :: cs) = .many :: pieces escape cs := by
  cases cs with
  | nil => rw [pieces_single, if_pos rfl]; rfl
  | cons d cs => rw [pieces_pair, if_neg hescape, if_pos rfl]

theorem pieces_plain {cs : List Char} (h : Plain escape cs) (rest : List Char) :
    pieces escape (cs ++ rest) = cs.map .char ++ pieces escape rest := by
  induction cs with
  | nil => rfl
  | cons c cs ih =>
    rw [List.cons_append, pieces_cons (h c List.mem_cons_self),
      ih fun d hd => h d (List.mem_cons_of_mem c hd)]
    rfl

section folding

variable {β : Type} {key : Char → β} {f : Char → List Char}

def Special (escape : Option Char) (c : Char) : Prop := c = '%' ∨ c = '_' ∨ escape = some c

theorem plain_iff {cs : List Char} : Plain escape cs ↔ ∀ c ∈ cs, ¬Special escape c := by
  simp [Plain, Special]

/-- A folding of characters that leaves the special ones alone. -/
structure Keeps (escape : Option Char) (f : Char → List Char) : Prop where
  special : ∀ c, Special escape c → f c = [c]
  other : ∀ c, ¬Special escape c → f c ≠ [] ∧ Plain escape (f c)

theorem Keeps.plain_flatMap (hf : Keeps escape f) {cs : List Char} :
    Plain escape (cs.flatMap f) ↔ Plain escape cs := by
  rw [plain_iff, plain_iff]
  constructor
  · intro h c hc hspecial
    have hmem : c ∈ cs.flatMap f :=
      List.mem_flatMap.mpr ⟨c, hc, hf.special c hspecial ▸ List.mem_singleton_self c⟩
    exact h c hmem hspecial
  · intro h d hd
    obtain ⟨c, hc, hd⟩ := List.mem_flatMap.mp hd
    exact plain_iff.mp (hf.other c (h c hc)).2 d hd

def spelled : List Piece → List Char
  | [] => []
  | .many :: ps => spelled ps
  | .one :: ps => '%' :: spelled ps
  | .char c :: ps => c :: spelled ps

theorem spelled_char (c : Char) (ps : List Piece) : spelled (.char c :: ps) = c :: spelled ps := rfl

theorem accepts_spelled (hsame : ∀ c, same c c = true) (ps : List Piece) :
    accepts same ps (spelled ps) = true := by
  induction ps with
  | nil => rfl
  | cons p ps ih =>
    cases p with
    | many => exact accepts_many.mpr ⟨[], spelled ps, rfl, ih⟩
    | one => exact ih
    | char c =>
      rw [spelled_char, accepts_char, hsame, Bool.true_and]
      exact ih

theorem spelled_chars (cs : List Char) (ps : List Piece) :
    spelled (cs.map .char ++ ps) = cs ++ spelled ps := by
  induction cs with
  | nil => rfl
  | cons c cs ih => rw [List.map_cons, List.cons_append, spelled_char, ih, List.cons_append]

/-- The text that a string spells as a pattern with a `%` behind it. -/
def closed (escape : Option Char) (cs : List Char) : List Char := spelled (pieces escape (cs ++ ['%']))

theorem closed_eq (escape : Option Char) (cs : List Char) :
    closed escape cs = spelled (pieces escape (cs ++ ['%'])) := rfl

section closed

variable [DecidableEq β] {c d : Char} {cs : List Char}

theorem closed_nil : closed escape [] = [] := rfl

theorem closed_cons (h : ¬Special escape c) (cs : List Char) :
    closed escape (c :: cs) = c :: closed escape cs := by
  have hplain : c ≠ '%' ∧ c ≠ '_' ∧ escape ≠ some c := by simpa [Special] using h
  rw [closed_eq, List.cons_append, pieces_cons hplain, spelled_char, closed_eq]

theorem closed_many (hescape : escape ≠ some '%') (cs : List Char) :
    closed escape ('%' :: cs) = closed escape cs := by
  rw [closed_eq, List.cons_append, pieces_many hescape]
  rfl

theorem closed_one (hescape : escape ≠ some '_') (cs : List Char) :
    closed escape ('_' :: cs) = '%' :: closed escape cs := by
  have hpieces : ∀ d cs, pieces escape ('_' :: d :: cs) = .one :: pieces escape (d :: cs) := by
    intro d cs
    rw [pieces_pair, if_neg hescape, if_neg (by decide), if_pos rfl]
  cases cs with
  | nil => rw [closed_eq, List.cons_append, List.nil_append, hpieces]; rfl
  | cons d cs => rw [closed_eq, List.cons_append, List.cons_append, hpieces]; rfl

theorem closed_escape_end (hescape : escape = some c) : closed escape [c] = ['%'] := by
  rw [closed_eq, List.cons_append, List.nil_append, pieces_pair, if_pos hescape]
  rfl

theorem closed_escape (hescape : escape = some c) (d : Char) (cs : List Char) :
    closed escape (c :: d :: cs) = d :: closed escape cs := by
  rw [closed_eq, List.cons_append, List.cons_append, pieces_pair, if_pos hescape, spelled_char, closed_eq]

theorem closed_plain (h : Plain escape cs) (rest : List Char) :
    closed escape (cs ++ rest) = cs ++ closed escape rest := by
  rw [closed_eq, List.append_assoc, pieces_plain h, spelled_chars, closed_eq]

theorem closed_flatMap (hf : Keeps escape f) (hmany : escape ≠ some '%') (hone : escape ≠ some '_')
    (cs : List Char) : closed escape (cs.flatMap f) = (closed escape cs).flatMap f := by
  have hpercent : f '%' = ['%'] := hf.special '%' (.inl rfl)
  induction hn : cs.length using Nat.strong_induction_on generalizing cs with
  | _ n ih =>
    cases cs with
    | nil => simp [closed_nil]
    | cons c cs =>
      have hrest := ih cs.length (by simp [← hn]) cs rfl
      by_cases hc : Special escape c
      · rw [List.flatMap_cons, hf.special c hc, List.singleton_append]
        rcases hc with rfl | rfl | hescape
        · rw [closed_many hmany, closed_many hmany, hrest]
        · rw [closed_one hone, closed_one hone, List.flatMap_cons, hpercent, hrest,
            List.singleton_append]
        · cases cs with
          | nil =>
            rw [List.flatMap_nil, closed_escape_end hescape, List.flatMap_cons, hpercent,
              List.flatMap_nil, List.append_nil]
          | cons d cs =>
            have hlen : cs.length < n := by
              rw [← hn, List.length_cons, List.length_cons]
              omega
            have hrest := ih cs.length hlen cs rfl
            rw [closed_escape hescape, List.flatMap_cons, List.flatMap_cons, ← hrest]
            by_cases hd : Special escape d
            · rw [hf.special d hd, List.singleton_append, closed_escape hescape,
                List.singleton_append]
            · obtain ⟨hne, hplain⟩ := hf.other d hd
              obtain ⟨x, xs, hx⟩ := List.exists_cons_of_ne_nil hne
              have hxs : Plain escape xs := fun y hy =>
                hplain y (hx ▸ List.mem_cons_of_mem x hy)
              rw [hx, List.cons_append, closed_escape hescape, closed_plain hxs, List.cons_append]
      · rw [List.flatMap_cons, closed_plain (hf.other c hc).2, hrest, closed_cons hc,
          List.flatMap_cons]

/-- A special character whose kind a string spells less often than it has it: the escape character,
without it `_`, and without both `%`. -/
theorem count_closed {w : Char} (hmany : escape ≠ some '%') (hone : escape ≠ some '_')
    (hw : Special escape w) (hkey : w ≠ '%' → key '%' ≠ key w)
    (hescape : ∀ e, escape = some e → e ∈ cs → w = e) (hunderscore : '_' ∈ cs → w ≠ '%') :
    (closed escape cs).countP (key · = key w) + (if w ∈ cs then 1 else 0) ≤
      cs.countP (key · = key w) := by
  induction hn : cs.length using Nat.strong_induction_on generalizing cs with
  | _ n ih =>
    cases cs with
    | nil => simp [closed_nil]
    | cons c cs =>
      have hrest := ih cs.length (by simp [← hn])
        (fun e he hmem => hescape e he (List.mem_cons_of_mem c hmem))
        (fun hmem => hunderscore (List.mem_cons_of_mem c hmem)) rfl
      by_cases hc : Special escape c
      · have hone' : (if w ∈ c :: cs then 1 else 0) ≤ 1 := by split <;> omega
        rcases hc with rfl | rfl | hc
        · rw [closed_many hmany, List.countP_cons]
          by_cases hp : w = '%'
          · rw [hp] at hrest hone' ⊢
            simp only [decide_true, if_true]
            omega
          · have hmem : (w ∈ '%' :: cs) = (w ∈ cs) := by simp [hp]
            simp only [hmem]
            omega
        · have hp : w ≠ '%' := hunderscore List.mem_cons_self
          rw [closed_one hone, List.countP_cons_of_neg (by simp [hkey hp]), List.countP_cons]
          by_cases hu : w = '_'
          · rw [hu] at hrest hone' ⊢
            simp only [decide_true, if_true]
            omega
          · have hmem : (w ∈ '_' :: cs) = (w ∈ cs) := by simp [hu]
            simp only [hmem]
            omega
        · -- the escape character is dropped, whatever the next one is
          obtain rfl : w = c := hescape c hc List.mem_cons_self
          have hp : w ≠ '%' := fun h => hmany (h ▸ hc)
          cases cs with
          | nil =>
            rw [closed_escape_end hc]
            simp [hkey hp]
          | cons d cs =>
            have hlen : cs.length < n := by
              rw [← hn, List.length_cons, List.length_cons]
              omega
            have hrest := ih cs.length hlen
              (fun e he hmem => hescape e he (List.mem_cons_of_mem _ (List.mem_cons_of_mem _ hmem)))
              (fun _ => hp) rfl
            rw [closed_escape hc, List.countP_cons, List.countP_cons, List.countP_cons]
            simp only [decide_true, if_true]
            omega
      · have hne : w ≠ c := fun h => hc (h ▸ hw)
        have hmem : (w ∈ c :: cs) = (w ∈ cs) := by simp [hne]
        rw [closed_cons hc, List.countP_cons, List.countP_cons]
        simp only [hmem]
        omega

end closed

theorem forall₂_same_key (hsame : ∀ a b, same a b = true ↔ key a = key b) {as bs : List Char} :
    List.Forall₂ (same · ·) as bs ↔ as.map key = bs.map key := by
  constructor
  · intro h
    induction h with
    | nil => rfl
    | cons hab _ ih => rw [List.map_cons, List.map_cons, (hsame _ _).mp hab, ih]
  · intro h
    induction as generalizing bs with
    | nil =>
      obtain rfl := List.map_eq_nil_iff.mp h.symm
      exact .nil
    | cons a as ih =>
      obtain ⟨b, bs, rfl, hb, hbs⟩ := List.map_eq_cons_iff.mp h.symm
      exact .cons ((hsame a b).mpr hb.symm) (ih hbs.symm)

theorem accepts_part_key (hsame : ∀ a b, same a b = true ↔ key a = key b) {cs text : List Char} :
    accepts same (.many :: (cs.map .char ++ [.many])) text = true ↔
      cs.map key <:+: text.map key := by
  rw [accepts_part]
  constructor
  · rintro ⟨before, part, after, rfl, hpart⟩
    rw [(forall₂_same_key hsame).mp hpart, List.map_append, List.map_append]
    exact ⟨before.map key, after.map key, rfl⟩
  · rintro ⟨before, after, h⟩
    obtain ⟨left, after', rfl, hleft, -⟩ := List.map_eq_append_iff.mp h.symm
    obtain ⟨before', part, rfl, -, hpart⟩ := List.map_eq_append_iff.mp hleft
    exact ⟨before', part, after', rfl, (forall₂_same_key hsame).mpr hpart.symm⟩

theorem like_key (hescape : escape ≠ some '%') (hsame : ∀ a b, same a b = true ↔ key a = key b)
    {text w : String} (h : Plain escape w.toList) :
    like escape same text ("%" ++ w ++ "%") = true ↔
      w.toList.map key <:+: text.toList.map key := by
  have hpattern : ("%" ++ w ++ "%").toList = '%' :: (w.toList ++ ['%']) := by
    rw [String.toList_append, String.toList_append]
    rfl
  rw [like, hpattern, pieces_many hescape, pieces_plain h]
  exact accepts_part_key hsame

theorem plain_of_part [DecidableEq β] (hdistinct : ∀ w, Special escape w → w ≠ '%' → key '%' ≠ key w)
    (hmany : escape ≠ some '%') (hone : escape ≠ some '_') {cs : List Char}
    (h : cs.map key <:+: (closed escape cs).map key) : Plain escape cs := by
  -- a part has no character more often than the whole
  have hcount : ∀ w, cs.countP (key · = key w) ≤ (closed escape cs).countP (key · = key w) := by
    intro w
    have hle := h.sublist.countP_le (p := (· = key w))
    simpa only [List.countP_map, Function.comp_def] using hle
  have hnone : ∀ w, Special escape w → (∀ e, escape = some e → e ∈ cs → w = e) →
      ('_' ∈ cs → w ≠ '%') → w ∉ cs := by
    intro w hw hescape hunderscore hcs
    have hcounts := count_closed hmany hone hw (hdistinct w hw) hescape hunderscore
    rw [if_pos hcs] at hcounts
    have := hcount w
    omega
  have hescape : ∀ e, escape = some e → e ∉ cs := by
    intro e he
    refine hnone e (.inr (.inr he)) ?_ ?_
    · intro e' he' _
      exact Option.some.inj (he.symm.trans he')
    · rintro - rfl
      exact hmany he
  have hunderscore : '_' ∉ cs :=
    hnone '_' (.inr (.inl rfl)) (fun e he hcs => absurd hcs (hescape e he)) fun _ => by decide
  have hpercent : '%' ∉ cs :=
    hnone '%' (.inl rfl) (fun e he hcs => absurd hcs (hescape e he))
      fun hcs => absurd hcs hunderscore
  rw [plain_iff]
  rintro c hc (rfl | rfl | he)
  · exact hpercent hc
  · exact hunderscore hc
  · exact hescape c he hc

/-- A folded string as a pattern between two `%` is found where it is a part of the folded text,
for every text, exactly when the string is plain. -/
theorem search_iff_plain [DecidableEq β] (hf : Keeps escape f) (hsame : ∀ a b, same a b = true ↔ key a = key b)
    (hdistinct : ∀ w, Special escape w → w ≠ '%' → key '%' ≠ key w)
    (hmany : escape ≠ some '%') (hone : escape ≠ some '_') (cs : List Char) :
    (∀ text : List Char,
        accepts same (pieces escape ('%' :: (cs.flatMap f ++ ['%']))) (text.flatMap f) = true ↔
          (cs.flatMap f).map key <:+: (text.flatMap f).map key) ↔ Plain escape cs := by
  rw [pieces_many hmany]
  constructor
  · intro h
    have hfound : accepts same (.many :: pieces escape (cs.flatMap f ++ ['%']))
        ((closed escape cs).flatMap f) = true := by
      rw [← closed_flatMap hf hmany hone]
      exact accepts_many.mpr ⟨[], _, rfl, accepts_spelled (fun c => (hsame c c).mpr rfl) _⟩
    have hinfix := (h (closed escape cs)).mp hfound
    rw [← closed_flatMap hf hmany hone] at hinfix
    exact hf.plain_flatMap.mp (plain_of_part hdistinct hmany hone hinfix)
  · intro h text
    rw [pieces_plain (hf.plain_flatMap.mpr h)]
    exact accepts_part_key hsame

end folding

end Memoark.Logic.Like
