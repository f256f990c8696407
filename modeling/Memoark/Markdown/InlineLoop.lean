import Memoark.Syntax.Marks

/-! The general categories and the case of characters, and the loop of goldmark that calls an inline parser at
each trigger. -/
namespace Memoark.Markdown
open Syntax (lastOf Scans)

/-- The general categories of Unicode that the parsers on both sides ask for, and lower case. -/
structure Categories where
  letter : Char → Bool
  mark : Char → Bool
  number : Char → Bool
  punct : Char → Bool
  symbol : Char → Bool
  lower : Char → Char
  ascii_letter : ∀ c, c.toNat < 128 → letter c = c.isAlpha
  ascii_mark : ∀ c, c.toNat < 128 → mark c = false
  ascii_number : ∀ c, c.toNat < 128 → number c = c.isDigit
  ascii_punct : ∀ c, c.toNat < 128 → punct c = "!\"#%&'()*,-./:;?@[\\]_\x7b\x7d".toList.contains c
  ascii_symbol : ∀ c, c.toNat < 128 → symbol c = "$+<=>^`|~".toList.contains c
  ascii_lower : ∀ c, c.toNat < 128 → lower c = c.toLower
  /-- The zero width joiner is a format character. -/
  joiner : letter '\u200D' = false ∧ mark '\u200D' = false ∧ number '\u200D' = false ∧
    symbol '\u200D' = false
  /-- A character has one category. -/
  letter_or_number : ∀ c, letter c = true ∨ number c = true → punct c = false ∧ symbol c = false

def InlineParser : Type := Option Char → List Char → Option (String × List Char)

structure InlineLoop (trigger : Char) where
  /-- A paragraph without other Markdown syntax. -/
  plain : List Char → Prop
  plain_tail : ∀ c cs, plain (c :: cs) → plain cs
  run : InlineParser → Option Char → List Char → List String
  run_nil : ∀ parse prev, run parse prev [] = []
  run_other : ∀ parse prev c cs, plain (c :: cs) → c ≠ trigger →
    run parse prev (c :: cs) = run parse (some c) cs
  run_none : ∀ parse prev cs, plain (trigger :: cs) → parse prev (trigger :: cs) = none →
    run parse prev (trigger :: cs) = run parse (some trigger) cs
  run_some : ∀ parse prev part rest node, plain (trigger :: (part ++ rest)) →
    parse prev (trigger :: (part ++ rest)) = some (node, rest) →
    run parse prev (trigger :: (part ++ rest)) = node :: run parse (lastOf (some trigger) part) rest

variable {trigger : Char}

theorem append_drop_of_take {p : Char → Bool} {n : Nat} {node cs : List Char}
    (h : node = (cs.takeWhile p).take n) : cs = node ++ cs.drop node.length := by
  have hprefix : node <+: cs := by
    rw [h]
    exact (List.take_prefix _ _).trans (List.takeWhile_prefix _)
  exact (List.prefix_iff_eq_append.mp hprefix).symm

theorem InlineLoop.scans (loop : InlineLoop trigger) {parse : InlineParser}
    {read : Option Char → List Char → Option String}
    (hnone : ∀ prev cs, read prev cs = none → parse prev (trigger :: cs) = none)
    (hsome : ∀ prev cs node, read prev cs = some node → ∃ part rest, cs = part ++ rest ∧
      trigger ∉ part ∧ parse prev (trigger :: cs) = some (node, rest)) :
    Scans trigger read loop.plain (loop.run parse) where
  tail := loop.plain_tail
  nil := loop.run_nil parse
  step prev c cs hplain := by
    by_cases hc : c = trigger
    · subst hc
      cases hread : read prev cs with
      | none =>
        refine ⟨[], cs, rfl, List.not_mem_nil, ?_⟩
        rw [loop.run_none parse prev cs hplain (hnone prev cs hread), if_pos rfl]
        rfl
      | some node =>
        obtain ⟨part, rest, rfl, hpart, hparse⟩ := hsome prev cs node hread
        refine ⟨part, rest, rfl, hpart, ?_⟩
        rw [loop.run_some parse prev part rest node hplain hparse, if_pos rfl]
        rfl
    · refine ⟨[], cs, rfl, List.not_mem_nil, ?_⟩
      rw [loop.run_other parse prev c cs hplain hc, if_neg hc]
      rfl

def peekLine : List Char → List Char
  | [] => []
  | c :: cs => if c = '\n' then [c] else c :: peekLine cs

theorem takeWhile_peekLine {p : Char → Bool} (hp : p '\n' = false) (block : List Char) :
    (peekLine block).takeWhile p = block.takeWhile p := by
  induction block with
  | nil => rfl
  | cons c cs ih =>
    rw [peekLine]
    split
    · rename_i hc
      rw [hc, List.takeWhile_cons_of_neg (by simp [hp]), List.takeWhile_cons_of_neg (by simp [hp])]
    · rw [List.takeWhile_cons, List.takeWhile_cons, ih]

section words

def asciiCategories : Categories where
  letter := Char.isAlpha
  mark _ := false
  number := Char.isDigit
  punct c := "!\"#%&'()*,-./:;?@[\\]_\x7b\x7d".toList.contains c
  symbol c := "$+<=>^`|~".toList.contains c
  lower := Char.toLower
  ascii_letter _ _ := rfl
  ascii_mark _ _ := rfl
  ascii_number _ _ := rfl
  ascii_punct _ _ := rfl
  ascii_symbol _ _ := rfl
  ascii_lower _ _ := rfl
  joiner := by decide
  letter_or_number c h := by
    have hnot : ∀ l : List Char, l.all (fun d => !(d.isAlpha || d.isDigit)) = true →
        l.contains c = false := by
      intro l hl
      by_contra hc
      have hmem : c ∈ l := by simpa using hc
      have hother := List.all_eq_true.mp hl c hmem
      rw [← Bool.or_eq_true] at h
      rw [h] at hother
      cases hother
    exact ⟨hnot _ (by decide), hnot _ (by decide)⟩

def runWords (trigger : Char) (parse : InlineParser) (prev : Option Char) :
    List Char → List String
  | [] => []
  | c :: cs =>
    if c = trigger then
      match parse prev (c :: cs) with
      | none => runWords trigger parse (some c) cs
      | some (node, rest) =>
        if rest.length ≤ cs.length then
          node :: runWords trigger parse (lastOf (some c) (cs.take (cs.length - rest.length))) rest
        else []
    else runWords trigger parse (some c) cs
termination_by text => text.length

def wordsLoop (trigger : Char) : InlineLoop trigger where
  plain text := ∀ c ∈ text, c.isAlphanum = true ∨ c = ' ' ∨ c = trigger
  plain_tail c cs h d hd := h d (List.mem_cons_of_mem c hd)
  run := runWords trigger
  run_nil parse prev := by rw [runWords]
  run_other parse prev c cs _ hc := by rw [runWords, if_neg hc]
  run_none parse prev cs _ h := by rw [runWords, if_pos rfl, h]
  run_some parse prev part rest node _ h := by
    have hlen : rest.length ≤ (part ++ rest).length := by simp
    have htake : (part ++ rest).take ((part ++ rest).length - rest.length) = part := by simp
    rw [runWords, if_pos rfl, h]
    dsimp only
    rw [if_pos hlen, htake]

instance (trigger : Char) (text : List Char) : Decidable ((wordsLoop trigger).plain text) :=
  List.decidableBAll (fun c : Char => c.isAlphanum = true ∨ c = ' ' ∨ c = trigger) text

end words

end Memoark.Markdown
