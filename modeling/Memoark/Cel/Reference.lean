import Mathlib.Data.List.Basic
import Memoark.Cel.Grammar

/-! A small library of CEL: the lexis, and the relations that filters are made of. It shows that
what is said of the library can be met. -/
namespace Memoark.Cel.Reference

open Memoark.Filter (Expr)
open Syntax (run run_cons run_join)

inductive Mode where
  | start
  | comment
  | word (chars : List Char)
  | number (chars : List Char)
  | pending (c : Char)
  | text (value : List Char)
  | escape (value : List Char)
  | unicode (value digits : List Char)
  deriving DecidableEq, Repr

def isBlank (c : Char) : Bool := c ∈ [' ', '\t', '\n', '\r']

def single : Char → Option Token
  | '(' => some (.opening '(')
  | ')' => some (.closing ')')
  | '[' => some (.opening '[')
  | ']' => some (.closing ']')
  | '{' => some (.opening '{')
  | '}' => some (.closing '}')
  | ',' => some (.symbol ",")
  | '.' => some (.symbol ".")
  | '?' => some .question
  | ':' => some (.symbol ":")
  | '+' => some (.symbol "+")
  | '-' => some (.symbol "-")
  | '*' => some (.symbol "*")
  | '%' => some (.symbol "%")
  | _ => none

/-- The symbols of two characters; `none` inside is a comment. -/
def double : Char → Char → Option (Option Token)
  | '=', '=' => some (some (.symbol "=="))
  | '!', '=' => some (some (.symbol "!="))
  | '<', '=' => some (some (.symbol "<="))
  | '>', '=' => some (some (.symbol ">="))
  | '&', '&' => some (some .and)
  | '|', '|' => some (some .or)
  | '/', '/' => some none
  | _, _ => none

def begin (c : Char) : Option (List Token × Mode) :=
  if isBlank c then some ([], .start)
  else match single c with
    | some token => some ([token], .start)
    | none =>
      if c = '"' then some ([], .text [])
      else if c.isDigit then some ([], .number [c])
      else if Syntax.isWordChar c then some ([], .word [c])
      else if c ∈ ['=', '!', '<', '>', '&', '|', '/'] then some ([], .pending c)
      else none

def wordToken (chars : List Char) : Token :=
  if chars = ['i', 'n'] then .symbol "in" else .word (String.ofList chars)

def Mode.finish : Mode → Option (List Token)
  | .start | .comment => some []
  | .word chars => some [wordToken chars]
  | .number chars => some [.number (String.ofList chars)]
  | .pending c => if c ∈ ['<', '>', '!', '/'] then some [.symbol c.toString] else none
  | .text _ | .escape _ | .unicode .. => none

/-- What the next character makes of the token that is being read, if it belongs to it. -/
def Mode.extend : Mode → Char → Option (List Token × Mode)
  | .start, _ => none
  | .comment, c => some ([], if c = '\n' then .start else .comment)
  | .word chars, c => if Syntax.isWordChar c then some ([], .word (chars ++ [c])) else none
  | .number chars, c => if c.isDigit || c == '.' then some ([], .number (chars ++ [c])) else none
  | .pending p, c =>
    match double p c with
    | some (some token) => some ([token], .start)
    | some none => some ([], .comment)
    | none => none
  | .text value, c =>
    if c = '"' then some ([.string (String.ofList value)], .start)
    else if c = '\\' then some ([], .escape value)
    else if c ∈ ['\n', '\r'] then none
    else some ([], .text (value ++ [c]))
  | .escape value, c =>
    match escapeValue c with
    | some v => some ([], .text (value ++ [v]))
    | none => if c = 'u' then some ([], .unicode value []) else none
  | .unicode value digits, c =>
    if digits.length < 3 then some ([], .unicode value (digits ++ [c]))
    else match hexValue (digits ++ [c]) with
      | some n => if n.isValidChar then some ([], .text (value ++ [Char.ofNat n])) else none
      | none => none

def Mode.next (m : Mode) (c : Char) : Option (List Token × Mode) :=
  match m.extend c with
  | some out => some out
  | none => do
    let done ← m.finish
    let (found, m') ← begin c
    return (done ++ found, m')

def lex (text : String) : Option (List Token × Bool) := do
  let (found, m) ← run Mode.next .start text.toList
  let last ← m.finish
  return (found ++ last, m = .comment)

section steps

variable (c : Char) (chars value digits : List Char)

theorem extend_comment :
    Mode.comment.extend c = some ([], if c = '\n' then .start else .comment) := rfl

theorem extend_word : (Mode.word chars).extend c =
    if Syntax.isWordChar c then some ([], .word (chars ++ [c])) else none := rfl

theorem extend_number : (Mode.number chars).extend c =
    if c.isDigit || c == '.' then some ([], .number (chars ++ [c])) else none := rfl

theorem extend_text : (Mode.text value).extend c =
    if c = '"' then some ([.string (String.ofList value)], .start)
    else if c = '\\' then some ([], .escape value)
    else if c ∈ ['\n', '\r'] then none
    else some ([], .text (value ++ [c])) := rfl

variable {c}

theorem extend_pending {p : Char} {out : Option (Option Token)} (h : double p c = out) :
    (Mode.pending p).extend c = out.map fun token =>
      token.elim ([], .comment) fun token => ([token], .start) := by
  change (match double p c with
    | some (some token) => some ([token], Mode.start)
    | some none => some ([], .comment)
    | none => none) = _
  rw [h]
  cases out with
  | none => rfl
  | some token => cases token <;> rfl

theorem extend_escape {v : Char} (h : escapeValue c = some v) :
    (Mode.escape value).extend c = some ([], .text (value ++ [v])) := by
  change (match escapeValue c with
    | some v => some ([], Mode.text (value ++ [v]))
    | none => if c = 'u' then some ([], .unicode value []) else none) = _
  rw [h]

theorem extend_escape_none (h : escapeValue c = none) : (Mode.escape value).extend c =
    if c = 'u' then some ([], .unicode value []) else none := by
  change (match escapeValue c with
    | some v => some ([], Mode.text (value ++ [v]))
    | none => if c = 'u' then some ([], .unicode value []) else none) = _
  rw [h]

theorem extend_digit (h : digits.length < 3) :
    (Mode.unicode value digits).extend c = some ([], .unicode value (digits ++ [c])) := if_pos h

theorem extend_unicode (h : ¬digits.length < 3) : (Mode.unicode value digits).extend c =
    match hexValue (digits ++ [c]) with
    | some n => if n.isValidChar then some ([], .text (value ++ [Char.ofNat n])) else none
    | none => none := if_neg h

variable {m : Mode}

theorem next_of_extend {out : List Token × Mode} (h : m.extend c = some out) :
    m.next c = some out := by
  change (match m.extend c with
    | some out => some out
    | none => _) = _
  rw [h]

theorem next_of_finish {done first : List Token} {m' : Mode} (h : m.extend c = none)
    (hdone : m.finish = some done) (hbegin : begin c = some (first, m')) :
    m.next c = some (done ++ first, m') := by
  change (match m.extend c with
    | some out => some out
    | none => m.finish.bind fun done => (begin c).bind fun p => some (done ++ p.1, p.2)) = _
  rw [h, hdone, hbegin]
  rfl

end steps

theorem lex_eq_some {text : String} {ts : List Token} {b : Bool} :
    lex text = some (ts, b) ↔ ∃ found m last, run Mode.next .start text.toList = some (found, m) ∧
      m.finish = some last ∧ found ++ last = ts ∧ decide (m = .comment) = b := by
  unfold lex
  cases hrun : run Mode.next .start text.toList with
  | none => simp
  | some out =>
    obtain ⟨found, m⟩ := out
    cases hfinish : m.finish with
    | none => simp [hfinish]
    | some last =>
      simp only [Option.bind_eq_bind, Option.bind_some, hfinish, Option.pure_def, Option.some.injEq,
        Prod.mk.injEq]
      constructor
      · rintro ⟨hts, hb⟩
        exact ⟨found, m, last, ⟨rfl, rfl⟩, hfinish, hts, hb⟩
      · rintro ⟨found', m', last', ⟨rfl, rfl⟩, hlast, hts, hb⟩
        obtain rfl : last = last' := Option.some.inj (hfinish.symm.trans hlast)
        exact ⟨hts, hb⟩

def Stops (c : Char) : Prop :=
  Syntax.isWordChar c = false ∧ c ∉ ['.', '=', '&', '|', '/']

instance (c : Char) : Decidable (Stops c) := inferInstanceAs (Decidable (_ ∧ _))

theorem extend_stop {m : Mode} (hm : m ≠ .comment) {last : List Token}
    (hlast : m.finish = some last) {c : Char} (hc : Stops c) : m.extend c = none := by
  obtain ⟨hword, hsymbol⟩ := hc
  cases m with
  | start => rfl
  | comment => exact absurd rfl hm
  | word chars => simp [extend_word, hword]
  | number chars =>
    have hdigit : c.isDigit = false := by
      simp [Syntax.isWordChar, Char.isAlphanum] at hword
      exact hword.1.2
    have hdot : c ≠ '.' := fun h => hsymbol (by simp [h])
    simp [extend_number, hdigit, hdot]
  | pending p =>
    have hdouble : double p c = none := by
      unfold double
      split
      all_goals first | rfl | exact absurd (by simp) hsymbol
    exact extend_pending hdouble
  | text value | escape value | unicode value digits => cases hlast

theorem lex_stop {c : Char} (hc : Stops c) {tokens : List Token}
    (hbegin : begin c = some (tokens, .start)) {s t : String} {ts us : List Token} {b : Bool}
    (hs : lex s = some (ts, false)) (ht : lex t = some (us, b)) :
    lex (s ++ String.singleton c ++ t) = some (ts ++ tokens ++ us, b) := by
  obtain ⟨found, m, last, hrun, hlast, rfl, hm⟩ := lex_eq_some.mp hs
  obtain ⟨found', m', last', hrun', hlast', rfl, hb⟩ := lex_eq_some.mp ht
  have hnext : m.next c = some (last ++ tokens, .start) :=
    next_of_finish (extend_stop (of_decide_eq_false hm) hlast hc) hlast hbegin
  refine lex_eq_some.mpr ⟨found ++ (last ++ tokens ++ found'), m', last', ?_, hlast', ?_, hb⟩
  · rw [String.toList_append, String.toList_append, String.toList_singleton, List.append_assoc]
    exact run_join hrun (run_cons hnext hrun')
  · simp

theorem run_comment {cs : List Char} (h : '\n' ∉ cs) :
    run Mode.next .comment cs = some ([], .comment) := by
  induction cs with
  | nil => rfl
  | cons c cs ih =>
    obtain ⟨hc, hcs⟩ := List.ne_and_not_mem_of_not_mem_cons h
    have hnext : Mode.comment.next c = some ([], .comment) := by
      apply next_of_extend
      rw [extend_comment, if_neg (Ne.symm hc)]
    exact run_cons hnext (ih hcs)

theorem run_word {cs : List Char} (h : cs.all Syntax.isWordChar = true) (chars : List Char) :
    run Mode.next (.word chars) cs = some ([], .word (chars ++ cs)) := by
  induction cs generalizing chars with
  | nil => simp [run]
  | cons c cs ih =>
    obtain ⟨hc, hcs⟩ : Syntax.isWordChar c = true ∧ cs.all Syntax.isWordChar = true := by
      simpa using h
    have hnext : (Mode.word chars).next c = some ([], .word (chars ++ [c])) := by
      apply next_of_extend
      rw [extend_word, if_pos hc]
    have hrest := ih hcs (chars ++ [c])
    rw [List.append_assoc] at hrest
    exact run_cons hnext hrest

theorem run_number {cs : List Char} (h : ∀ c ∈ cs, (c.isDigit || c == '.') = true)
    (chars : List Char) :
    run Mode.next (.number chars) cs = some ([], .number (chars ++ cs)) := by
  induction cs generalizing chars with
  | nil => simp [run]
  | cons c cs ih =>
    have hnext : (Mode.number chars).next c = some ([], .number (chars ++ [c])) := by
      apply next_of_extend
      rw [extend_number, if_pos (h c List.mem_cons_self)]
    have hrest := ih (fun d hd => h d (List.mem_cons_of_mem c hd)) (chars ++ [c])
    rw [List.append_assoc] at hrest
    exact run_cons hnext hrest

theorem run_piece {piece : List Char} {v : Char} (h : Piece piece v) (value : List Char) :
    run Mode.next (.text value) piece = some ([], .text (value ++ [v])) := by
  cases h with
  | plain hplain =>
    simp only [List.mem_cons, List.not_mem_nil, or_false, not_or] at hplain
    obtain ⟨hquote, hslash, hn, hr⟩ := hplain
    have hline : v ∉ ['\n', '\r'] := by simp [hn, hr]
    have hnext : (Mode.text value).next v = some ([], .text (value ++ [v])) := by
      apply next_of_extend
      rw [extend_text, if_neg hquote, if_neg hslash, if_neg hline]
    exact run_cons hnext rfl
  | escape hescape =>
    have hslash : (Mode.text value).next '\\' = some ([], .escape value) := next_of_extend rfl
    exact run_cons hslash (run_cons (next_of_extend (extend_escape value hescape)) rfl)
  | unicode hlength hvalue hvalid =>
    rename_i cs n
    obtain ⟨a, b, c, d, rfl⟩ := List.length_eq_four.mp hlength
    have hslash : (Mode.text value).next '\\' = some ([], .escape value) := next_of_extend rfl
    have hu : (Mode.escape value).next 'u' = some ([], .unicode value []) := next_of_extend rfl
    have hdigit : ∀ (digits : List Char) (c : Char), digits.length < 3 →
        (Mode.unicode value digits).next c = some ([], .unicode value (digits ++ [c])) :=
      fun digits c h => next_of_extend (extend_digit value digits h)
    have hlast : (Mode.unicode value [a, b, c]).next d =
        some ([], .text (value ++ [Char.ofNat n])) := by
      apply next_of_extend
      rw [extend_unicode value [a, b, c] (by simp)]
      simp [hvalue, hvalid]
    exact run_cons hslash (run_cons hu (run_cons (hdigit [] a (by simp))
      (run_cons (hdigit [a] b (by simp)) (run_cons (hdigit [a, b] c (by simp))
        (run_cons hlast rfl)))))

theorem run_literal {text value : List Char} (h : Literal text value) (before : List Char) :
    run Mode.next (.text before) text = some ([], .text (before ++ value)) := by
  induction h generalizing before with
  | nil => simp [run]
  | @cons piece text value v hp _ ih =>
    have hrest := ih (before ++ [v])
    rw [List.append_assoc] at hrest
    exact run_join (run_piece hp before) hrest

theorem single_word {c : Char} (hc : Syntax.isWordChar c = true) : single c = none := by
  unfold single
  split
  all_goals first | rfl | exact absurd hc (by decide)

theorem isBlank_word {c : Char} (hc : Syntax.isWordChar c = true) : isBlank c = false := by
  refine decide_eq_false fun hmem => ?_
  simp only [List.mem_cons, List.not_mem_nil, or_false] at hmem
  rcases hmem with rfl | rfl | rfl | rfl
  all_goals exact absurd hc (by decide)

theorem begin_wordChar {c : Char} (hc : Syntax.isWordChar c = true) :
    begin c = some ([], if c.isDigit then .number [c] else .word [c]) := by
  have hquote : c ≠ '"' := by
    rintro rfl
    exact absurd hc (by decide)
  unfold begin
  rw [isBlank_word hc, single_word hc]
  by_cases hd : c.isDigit = true
  · simp [hquote, hd]
  · simp [hquote, hd, hc]

theorem run_identifier {w : String} (h : Identifier w) :
    run Mode.next .start w.toList = some ([], .word w.toList) ∧
      wordToken w.toList = .word w := by
  obtain ⟨⟨hall, hfirst⟩, hkeyword⟩ := h
  have htoken : w.toList ≠ ['i', 'n'] := by
    intro hin
    have hw : w = "in" := String.toList_inj.mp hin
    exact hkeyword (hw ▸ List.mem_cons_self)
  refine ⟨?_, by simp [wordToken, htoken, String.ofList_toList]⟩
  cases hcs : w.toList with
  | nil => simp [hcs] at hfirst
  | cons c cs =>
    obtain ⟨hc, hrest⟩ : Syntax.isWordChar c = true ∧ cs.all Syntax.isWordChar = true := by
      simpa [hcs] using hall
    have hd : c.isDigit = false := by simpa [hcs] using hfirst
    have hbegin : begin c = some ([], .word [c]) := by simp [begin_wordChar hc, hd]
    have hnext : Mode.start.next c = some ([], .word [c]) :=
      @next_of_finish c .start [] [] _ rfl rfl hbegin
    exact run_cons hnext (run_word hrest [c])

theorem run_digits {cs : List Char} (hne : cs ≠ []) (hfirst : ∀ c ∈ cs.head?, c.isDigit = true)
    (hall : ∀ c ∈ cs, (c.isDigit || c == '.') = true) :
    run Mode.next .start cs = some ([], .number cs) := by
  cases cs with
  | nil => exact absurd rfl hne
  | cons c cs =>
    have hd : c.isDigit = true := hfirst c (by simp)
    have hword : Syntax.isWordChar c = true := by simp [Syntax.isWordChar, Char.isAlphanum, hd]
    have hbegin : begin c = some ([], .number [c]) := by simp [begin_wordChar hword, hd]
    have hnext : Mode.start.next c = some ([], .number [c]) :=
      @next_of_finish c .start [] [] _ rfl rfl hbegin
    exact run_cons hnext (run_number (fun d hd => hall d (List.mem_cons_of_mem c hd)) [c])

theorem run_numeral {t : String} (h : Numeral t) :
    run Mode.next .start t.toList = some ([], .number t.toList) := by
  rcases h with ⟨⟨hne, hdigits⟩, -⟩ | ⟨whole, fraction, ⟨hne, hw⟩, ⟨-, hf⟩, rfl⟩
  · have hlist : t.toList ≠ [] := fun h => hne (String.toList_eq_nil_iff.mp h)
    exact run_digits hlist (fun c hc => hdigits c (List.mem_of_mem_head? hc))
      fun c hc => by simp [hdigits c hc]
  · have hlist : whole.toList ≠ [] := fun h => hne (String.toList_eq_nil_iff.mp h)
    have hdot : ".".toList = ['.'] := rfl
    rw [String.toList_append, String.toList_append, hdot]
    refine run_digits (by simp) (fun c hc => ?_) fun c hc => ?_
    · cases hcs : whole.toList with
      | nil => exact absurd hcs hlist
      | cons d ds =>
        obtain rfl : d = c := by simpa [hcs] using hc
        exact hw d (by simp [hcs])
    · simp only [List.mem_append, List.mem_singleton] at hc
      rcases hc with (hc | rfl) | hc
      · simp [hw c hc]
      · rfl
      · simp [hf c hc]

theorem lexis : Lexis lex where
  blank hs ht := by
    have hblank : begin ' ' = some ([], .start) := rfl
    have hstop := lex_stop (by decide) hblank hs ht
    simpa using hstop
  punctuation := by
    intro p tok hp s t ts us b hs ht
    have hpunct : ∀ {c : Char}, Stops c → begin c = some ([tok], .start) →
        lex (s ++ String.singleton c ++ t) = some (ts ++ tok :: us, b) := by
      intro c hc hbegin
      have hstop := lex_stop hc hbegin hs ht
      simpa using hstop
    simp only [punctuation, List.mem_cons, Prod.mk.injEq, List.not_mem_nil, or_false] at hp
    rcases hp with ⟨rfl, rfl⟩ | ⟨rfl, rfl⟩ | ⟨rfl, rfl⟩ | ⟨rfl, rfl⟩ | ⟨rfl, rfl⟩
    · exact hpunct (c := '(') (by decide) rfl
    · exact hpunct (c := ')') (by decide) rfl
    · exact hpunct (c := '[') (by decide) rfl
    · exact hpunct (c := ']') (by decide) rfl
    · exact hpunct (c := ',') (by decide) rfl
  comment := by
    intro s t ts hs ht
    obtain ⟨found, m, last, hrun, hlast, rfl, hm⟩ := lex_eq_some.mp hs
    obtain rfl : m = .comment := of_decide_eq_true hm
    obtain rfl : [] = last := Option.some.inj hlast
    refine lex_eq_some.mpr ⟨found, .comment, [], ?_, rfl, rfl, rfl⟩
    rw [String.toList_append]
    simpa using run_join hrun (run_comment ht)
  empty := rfl
  word := by
    intro w hw
    obtain ⟨hrun, htoken⟩ := run_identifier hw
    exact lex_eq_some.mpr ⟨[], _, [wordToken w.toList], hrun, rfl, by rw [htoken]; rfl, rfl⟩
  selection := by
    intro w m hw hm
    obtain ⟨hrun, htoken⟩ := run_identifier hw
    obtain ⟨hrun', htoken'⟩ := run_identifier hm
    have hdot : (Mode.word w.toList).next '.' = some ([.word w, .symbol "."], .start) := by
      rw [← htoken]
      rfl
    have hlist : (w ++ "." ++ m).toList = w.toList ++ '.' :: m.toList := by
      simp [String.toList_append]
    refine lex_eq_some.mpr ⟨[.word w, .symbol "."], .word m.toList, [wordToken m.toList], ?_, rfl,
      by rw [htoken']; rfl, rfl⟩
    rw [hlist]
    simpa using run_join hrun (run_cons hdot hrun')
  symbol := by
    intro s hs
    simp only [symbols, List.mem_cons, List.not_mem_nil, or_false] at hs
    rcases hs with rfl | rfl | rfl | rfl <;> rfl
  conjunction := rfl
  literal := by
    intro text value h
    have hopen : Mode.start.next '"' = some ([], .text []) := rfl
    have hclose : (Mode.text value).next '"' = some ([.string (String.ofList value)], .start) := rfl
    have hquote : "\"".toList = ['"'] := rfl
    have hend : run Mode.next .start [] = some ([], .start) := rfl
    have hbody := run_join (run_literal h []) (run_cons hclose hend)
    refine lex_eq_some.mpr ⟨[.string (String.ofList value)], .start, [], ?_, rfl, rfl, rfl⟩
    rw [String.toList_append, String.toList_append, hquote, String.toList_ofList]
    simpa using run_cons hopen hbody
  numeral h := lex_eq_some.mpr ⟨[], _, _, run_numeral h, rfl, by simp [String.ofList_toList], rfl⟩
  negative := by
    intro t h
    have hminus : Mode.start.next '-' = some ([.symbol "-"], .start) := rfl
    have hlist : ("-" ++ t).toList = '-' :: t.toList := by simp [String.toList_append]
    refine lex_eq_some.mpr ⟨[.symbol "-"], .number t.toList, [.number (String.ofList t.toList)],
      ?_, rfl, by simp [String.ofList_toList], rfl⟩
    rw [hlist]
    simpa using run_cons hminus (run_numeral h)

def strings : List Token → List String
  | .string s :: rest => s :: strings rest
  | .symbol "," :: rest => strings rest
  | _ => []

def numberExpr (text : String) : Expr :=
  match text.toNat? with
  | some n => .const (.int64 n)
  | none => .other

def operand : List Token → Option Expr
  | [.number t] => some (numberExpr t)
  | [.symbol "-", .number t] => some (.call none "-_" [numberExpr t])
  | [.word x] => some (.ident x)
  | _ => none

def relation : List Token → Option Expr
  | [.word x] => some (.ident x)
  | [.word x, .symbol "==", .string s] => some (.call none "_==_" [.ident x, .const (.string s)])
  | [.word x, .symbol ".", .word f, .opening '(', .string s, .closing ')'] =>
    some (.call (some (.ident x)) f [.const (.string s)])
  | .word x :: .symbol "in" :: .opening '[' :: rest =>
    if rest = stringList (strings rest) ++ [.closing ']'] then
      some (.call none "@in" [.ident x, .list ((strings rest).map fun s => .const (.string s))])
    else none
  | .word x :: .symbol ">=" :: ts => (operand ts).map fun e => .call none "_>=_" [.ident x, e]
  | .word x :: .symbol "<" :: ts => (operand ts).map fun e => .call none "_<_" [.ident x, e]
  | _ => none

def chain (operator : String) : List Expr → Expr
  | [] => .other
  | [e] => e
  | e :: f :: es => .call none operator [e, chain operator (f :: es)]

def library : Library where
  lex := lex
  relation := relation
  conditional _ := none
  chain := chain
  sizeLimit := 100000

theorem chain_tree (operator : String) {es : List Expr} (h : es ≠ []) :
    Tree operator es (chain operator es) := by
  induction es with
  | nil => exact absurd rfl h
  | cons e es ih =>
    cases es with
    | nil => exact .leaf e
    | cons f es => exact .call (.leaf e) (ih (List.cons_ne_nil f es))

theorem strings_stringList (ss : List String) : strings (stringList ss ++ [.closing ']']) = ss := by
  induction ss with
  | nil => rfl
  | cons s ss ih =>
    cases ss with
    | nil => rfl
    | cons t ss => exact congrArg (s :: ·) ih

theorem depth_stringList (d : Nat) (ss : List String) :
    brackets.depthAfter d (stringList ss) = d := by
  induction ss with
  | nil => rfl
  | cons s ss ih =>
    cases ss with
    | nil => rfl
    | cons t ss => exact ih

theorem operand_closed {ts : List Token} {e : Expr} (h : operand ts = some e) :
    brackets.Closed ts := by
  unfold operand at h
  split at h
  all_goals first | rfl | cases h

theorem relation_closed {ts : List Token} {e : Expr} (h : relation ts = some e) :
    brackets.Closed ts := by
  have hoperand : ∀ {x o : String} {us : List Token} {f : Expr → Expr},
      (operand us).map f = some e → brackets.Closed (.word x :: .symbol o :: us) := by
    intro x o us f hus
    obtain ⟨e', he', -⟩ := Option.map_eq_some_iff.mp hus
    have hclosed : brackets.Closed us := operand_closed he'
    exact hclosed
  unfold relation at h
  split at h
  · rfl
  · rfl
  · rfl
  · split at h
    · rename_i rest hrest
      show brackets.depthAfter 1 rest = 0
      rw [hrest, brackets.depthAfter_append, depth_stringList]
      rfl
    · cases h
  · exact hoperand h
  · exact hoperand h
  · cases h

theorem operand_of {ts : List Token} (h : Operand ts) : ∃ e, operand ts = some e := by
  cases h with
  | number h => exact ⟨_, rfl⟩
  | negative h => exact ⟨_, rfl⟩
  | «variable» h => exact ⟨_, rfl⟩

theorem productions : Productions library where
  closed := relation_closed
  conditional h := by cases h
  chain operator _ h := chain_tree operator h
  identifier _ := rfl
  equality _ _ := rfl
  contains _ _ := rfl
  membership := by
    intro x _ ss
    show (if stringList ss ++ [Token.closing ']'] =
      stringList (strings (stringList ss ++ [.closing ']'])) ++ [.closing ']'] then _ else _) = _
    rw [strings_stringList, if_pos rfl]
  comparison := by
    intro x _ o ho ts hts
    obtain ⟨e, he⟩ := operand_of hts
    simp only [List.mem_cons, List.not_mem_nil, or_false] at ho
    rcases ho with rfl | rfl
    · exact ⟨.call none "_>=_" [.ident x, e], congrArg (Option.map _) he⟩
    · exact ⟨.call none "_<_" [.ident x, e], congrArg (Option.map _) he⟩

theorem documented : library.Documented := ⟨lexis, productions⟩

section quoting

theorem next_eq_some {m m' : Mode} {c : Char} {found : List Token}
    (h : m.next c = some (found, m')) : m.extend c = some (found, m') ∨ m.extend c = none ∧
      ∃ done first, m.finish = some done ∧ begin c = some (first, m') ∧ found = done ++ first := by
  unfold Mode.next at h
  cases hextend : m.extend c with
  | some out =>
    rw [hextend] at h
    exact .inl h
  | none =>
    rw [hextend] at h
    obtain ⟨done, hdone, h⟩ := Option.bind_eq_some_iff.mp h
    obtain ⟨⟨first, m''⟩, hbegin, h⟩ := Option.bind_eq_some_iff.mp h
    obtain ⟨rfl, rfl⟩ : done ++ first = found ∧ m'' = m' := by simpa using h
    exact .inr ⟨rfl, done, first, hdone, hbegin, rfl⟩

theorem run_cons_inv {m m'' : Mode} {c : Char} {rest : List Char} {found : List Token}
    (h : run Mode.next m (c :: rest) = some (found, m'')) : ∃ first m' more,
      m.next c = some (first, m') ∧ run Mode.next m' rest = some (more, m'') ∧
        found = first ++ more := by
  rw [run] at h
  obtain ⟨⟨first, m'⟩, hnext, h⟩ := Option.bind_eq_some_iff.mp h
  obtain ⟨⟨more, m₂⟩, hrest, h⟩ := Option.bind_eq_some_iff.mp h
  obtain ⟨rfl, rfl⟩ : first ++ more = found ∧ m₂ = m'' := by simpa using h
  exact ⟨first, m', more, hnext, hrest, rfl⟩

theorem run_append_inv {m m'' : Mode} {cs ds : List Char} {found : List Token}
    (h : run Mode.next m (cs ++ ds) = some (found, m'')) : ∃ first m' more,
      run Mode.next m cs = some (first, m') ∧ run Mode.next m' ds = some (more, m'') ∧
        found = first ++ more := by
  rw [Syntax.run_append] at h
  obtain ⟨⟨first, m'⟩, hcs, h⟩ := Option.bind_eq_some_iff.mp h
  obtain ⟨⟨more, m₂⟩, hds, h⟩ := Option.bind_eq_some_iff.mp h
  obtain ⟨rfl, rfl⟩ : first ++ more = found ∧ m₂ = m'' := by simpa using h
  exact ⟨first, m', more, hcs, hds, rfl⟩

def Mode.literal : Mode → Option (List Char × Bool)
  | .text value => some (value, false)
  | .escape value => some (value, true)
  | .unicode value _ => some (value, true)
  | _ => none

theorem Mode.finish_literal {m : Mode} {out : List Char × Bool} (h : m.literal = some out) :
    m.finish = none := by
  cases m with
  | text value | escape value | unicode value digits => rfl
  | start | comment | word chars | number chars | pending c => cases h

inductive LiteralStep (value : List Char) (c : Char) : Bool → List Token → Mode → Prop
  | close (hc : c = '"') : LiteralStep value c false [.string (String.ofList value)] .start
  | plain (hc : c ∉ ['"', '\\', '\n', '\r']) : LiteralStep value c false [] (.text (value ++ [c]))
  | escape {escaped : Bool} {m : Mode} (hm : m.literal = some (value, true)) :
      LiteralStep value c escaped [] m
  | escaped (v : Char) : LiteralStep value c true [] (.text (value ++ [v]))

theorem literalStep {m m' : Mode} {value : List Char} {escaped : Bool} {c : Char}
    {found : List Token} (hm : m.literal = some (value, escaped))
    (h : m.next c = some (found, m')) : LiteralStep value c escaped found m' := by
  have hextend : m.extend c = some (found, m') := by
    rcases next_eq_some h with hextend | ⟨-, done, -, hdone, -⟩
    · exact hextend
    · rw [Mode.finish_literal hm] at hdone
      cases hdone
  cases m with
  | start | comment | word chars | number chars | pending c => cases hm
  | text v =>
    obtain ⟨rfl, rfl⟩ : v = value ∧ false = escaped := by simpa [Mode.literal] using hm
    rw [extend_text] at hextend
    by_cases hquote : c = '"'
    · rw [if_pos hquote] at hextend
      cases hextend
      exact .close hquote
    · rw [if_neg hquote] at hextend
      by_cases hslash : c = '\\'
      · rw [if_pos hslash] at hextend
        cases hextend
        exact .escape rfl
      · rw [if_neg hslash] at hextend
        by_cases hline : c ∈ ['\n', '\r']
        · rw [if_pos hline] at hextend
          cases hextend
        · rw [if_neg hline] at hextend
          cases hextend
          apply LiteralStep.plain
          simp only [List.mem_cons, List.not_mem_nil, or_false, not_or] at hline ⊢
          exact ⟨hquote, hslash, hline⟩
  | escape v =>
    obtain ⟨rfl, rfl⟩ : v = value ∧ true = escaped := by simpa [Mode.literal] using hm
    cases hvalue : escapeValue c with
    | some x =>
      rw [extend_escape v hvalue] at hextend
      cases hextend
      exact .escaped x
    | none =>
      rw [extend_escape_none v hvalue] at hextend
      obtain ⟨-, hextend⟩ := Option.ite_none_right_eq_some.mp hextend
      cases hextend
      exact .escape rfl
  | unicode v digits =>
    obtain ⟨rfl, rfl⟩ : v = value ∧ true = escaped := by simpa [Mode.literal] using hm
    by_cases hdigits : digits.length < 3
    · rw [extend_digit v digits hdigits] at hextend
      cases hextend
      exact .escape rfl
    · rw [extend_unicode v digits hdigits] at hextend
      cases hvalue : hexValue (digits ++ [c]) with
      | none =>
        rw [hvalue] at hextend
        cases hextend
      | some n =>
        rw [hvalue] at hextend
        obtain ⟨-, hextend⟩ := Option.ite_none_right_eq_some.mp hextend
        cases hextend
        exact .escaped (Char.ofNat n)

theorem run_literal_inv {m m' : Mode} {cs value : List Char} {escaped : Bool} {found : List Token}
    (hm : m.literal = some (value, escaped)) (h : run Mode.next m cs = some (found, m'))
    (hfinish : m'.finish ≠ none) : ∃ body v rest more, cs = body ++ '"' :: rest ∧
      v.length ≤ body.length ∧ (escaped = false → v.length = body.length →
        ∀ c ∈ body, c ∉ ['"', '\\', '\n', '\r']) ∧
      run Mode.next .start rest = some (more, m') ∧
        found = .string (String.ofList (value ++ v)) :: more := by
  induction cs generalizing m value escaped found with
  | nil =>
    cases h
    exact absurd (Mode.finish_literal hm) hfinish
  | cons c cs ih =>
    obtain ⟨first, m₁, more, hnext, hrest, rfl⟩ := run_cons_inv h
    cases literalStep hm hnext with
    | close hc =>
      exact ⟨[], [], cs, more, by rw [hc]; rfl, Nat.le_refl 0,
        fun _ _ d hd => absurd hd List.not_mem_nil, hrest, by rw [List.append_nil]; rfl⟩
    | plain hc =>
      obtain ⟨body, v, rest, more', rfl, hle, hplain, hrun, rfl⟩ := ih rfl hrest
      refine ⟨c :: body, c :: v, rest, more', rfl, by simpa using hle, fun _ hlen => ?_, hrun, ?_⟩
      · have hbody := hplain rfl (by simpa using hlen)
        exact List.forall_mem_cons.mpr ⟨hc, hbody⟩
      · rw [List.append_assoc]
        rfl
    | escape hm₁ =>
      obtain ⟨body, v, rest, more', rfl, hle, -, hrun, rfl⟩ := ih hm₁ hrest
      refine ⟨c :: body, v, rest, more', rfl, ?_, fun _ hlen => ?_, hrun, rfl⟩
      · rw [List.length_cons]
        omega
      · rw [List.length_cons] at hlen
        omega
    | escaped x =>
      obtain ⟨body, v, rest, more', rfl, hle, -, hrun, rfl⟩ := ih rfl hrest
      refine ⟨c :: body, x :: v, rest, more', rfl, by simpa using hle, fun hfalse => ?_, hrun, ?_⟩
      · cases hfalse
      · rw [List.append_assoc]
        rfl

theorem mode_of_bracket {m m' : Mode} {found : List Token} (h : m.next '(' = some (found, m'))
    (hfinish : m'.finish ≠ none) (hcomment : m' ≠ .comment) : m' = .start := by
  rcases next_eq_some h with hextend | ⟨-, done, first, -, hbegin, -⟩
  · cases hm : m.literal with
    | some out =>
      obtain ⟨value, escaped⟩ := out
      cases literalStep hm h with
      | close hc => cases hc
      | plain | escaped => exact absurd rfl hfinish
      | escape hm' => exact absurd (Mode.finish_literal hm') hfinish
    | none =>
      cases m with
      | comment =>
        cases hextend
        exact absurd rfl hcomment
      | text value | escape value | unicode value digits => cases hm
      | start | word chars | number chars => cases hextend
      | pending c =>
        have hdouble : double c '(' = none := by
          unfold double
          split
          all_goals first | rfl | contradiction
        rw [extend_pending hdouble] at hextend
        cases hextend
  · cases hbegin
    rfl

/-- Fewer characters are in the strings that are found than have been read. -/
def Mode.cost (m : Mode) : Nat := m.literal.elim 0 fun out => out.1.length + if out.2 then 2 else 1

theorem finish_no_string {m : Mode} {found : List Token} (h : m.finish = some found) (v : String) :
    .string v ∉ found := by
  cases m with
  | start | comment =>
    cases h
    exact List.not_mem_nil
  | word chars =>
    cases h
    rw [List.mem_singleton, wordToken]
    split <;> simp
  | number chars =>
    cases h
    simp
  | pending c =>
    obtain ⟨-, h⟩ := Option.ite_none_right_eq_some.mp h
    cases h
    simp
  | text value | escape value | unicode value digits => cases h

theorem single_no_string {c : Char} {token : Token} (h : single c = some token) (v : String) :
    .string v ≠ token := by
  unfold single at h
  split at h
  all_goals cases h
  all_goals simp

theorem begin_cost {c : Char} {found : List Token} {m : Mode} (h : begin c = some (found, m)) :
    (∀ v, .string v ∉ found) ∧ m.cost ≤ 1 := by
  unfold begin at h
  by_cases hblank : isBlank c
  · rw [if_pos hblank] at h
    cases h
    exact ⟨fun v => List.not_mem_nil, Nat.zero_le 1⟩
  · rw [if_neg hblank] at h
    cases hsingle : single c with
    | some token =>
      rw [hsingle] at h
      cases h
      refine ⟨fun v hv => ?_, Nat.zero_le 1⟩
      exact single_no_string hsingle v (List.mem_singleton.mp hv)
    | none =>
      rw [hsingle] at h
      dsimp only at h
      split at h
      · cases h
        exact ⟨fun v => List.not_mem_nil, Nat.le_refl 1⟩
      · split at h
        · cases h
          exact ⟨fun v => List.not_mem_nil, Nat.zero_le 1⟩
        · split at h
          · cases h
            exact ⟨fun v => List.not_mem_nil, Nat.zero_le 1⟩
          · obtain ⟨-, h⟩ := Option.ite_none_right_eq_some.mp h
            cases h
            exact ⟨fun v => List.not_mem_nil, Nat.zero_le 1⟩

theorem extend_cost {m m' : Mode} {c : Char} {found : List Token} (hm : m.literal = none)
    (h : m.extend c = some (found, m')) : (∀ v, .string v ∉ found) ∧ m'.cost = 0 := by
  cases m with
  | text value | escape value | unicode value digits => cases hm
  | start => cases h
  | comment =>
    cases h
    refine ⟨fun v => List.not_mem_nil, ?_⟩
    split <;> rfl
  | word chars | number chars =>
    obtain ⟨-, h⟩ := Option.ite_none_right_eq_some.mp h
    cases h
    exact ⟨fun v => List.not_mem_nil, rfl⟩
  | pending p =>
    have htoken : ∀ token, double p c = some (some token) → ∀ v, .string v ≠ token := by
      intro token hdouble v
      unfold double at hdouble
      split at hdouble
      all_goals cases hdouble
      all_goals simp
    cases hdouble : double p c with
    | none =>
      rw [extend_pending hdouble] at h
      cases h
    | some out =>
      rw [extend_pending hdouble] at h
      cases out with
      | none =>
        cases h
        exact ⟨fun v => List.not_mem_nil, rfl⟩
      | some token =>
        cases h
        refine ⟨fun v hv => ?_, rfl⟩
        exact htoken token hdouble v (List.mem_singleton.mp hv)

theorem next_cost {m m' : Mode} {c : Char} {found : List Token} (h : m.next c = some (found, m')) :
    (∀ v, .string v ∈ found → v.length + 2 ≤ m.cost + 1) ∧ m'.cost ≤ m.cost + 1 := by
  cases hm : m.literal with
  | some out =>
    obtain ⟨value, escaped⟩ := out
    have hcost : m.cost = value.length + if escaped then 2 else 1 := by rw [Mode.cost, hm]; rfl
    cases literalStep hm h with
    | close hc =>
      refine ⟨fun v hv => ?_, Nat.zero_le _⟩
      have hvalue := List.mem_singleton.mp hv
      rw [Token.string.injEq] at hvalue
      have hlength : v.length = value.length := by rw [hvalue, String.length_ofList]
      rw [if_neg Bool.false_ne_true] at hcost
      omega
    | plain hc =>
      refine ⟨fun v hv => absurd hv List.not_mem_nil, ?_⟩
      have hlength : (value ++ [c]).length = value.length + 1 := List.length_append
      rw [hcost, if_neg Bool.false_ne_true]
      change (value ++ [c]).length + 1 ≤ _
      omega
    | escape hm' =>
      refine ⟨fun v hv => absurd hv List.not_mem_nil, ?_⟩
      rw [hcost, Mode.cost, hm']
      change value.length + 2 ≤ _
      split <;> omega
    | escaped x =>
      refine ⟨fun v hv => absurd hv List.not_mem_nil, ?_⟩
      have hlength : (value ++ [x]).length = value.length + 1 := List.length_append
      rw [hcost, if_pos rfl]
      change (value ++ [x]).length + 1 ≤ _
      omega
  | none =>
    rcases next_eq_some h with hextend | ⟨-, done, first, hdone, hbegin, rfl⟩
    · obtain ⟨hfound, hzero⟩ := extend_cost hm hextend
      exact ⟨fun v hv => absurd hv (hfound v), by omega⟩
    · obtain ⟨hfirst, hle⟩ := begin_cost hbegin
      refine ⟨fun v hv => ?_, by omega⟩
      rcases List.mem_append.mp hv with hv | hv
      · exact absurd hv (finish_no_string hdone v)
      · exact absurd hv (hfirst v)

theorem run_cost {m m' : Mode} {cs : List Char} {found : List Token}
    (h : run Mode.next m cs = some (found, m')) {v : String} (hv : .string v ∈ found) :
    v.length + 2 ≤ m.cost + cs.length := by
  induction cs generalizing m found with
  | nil =>
    cases h
    cases hv
  | cons c cs ih =>
    obtain ⟨first, m₁, more, hnext, hrest, rfl⟩ := run_cons_inv h
    obtain ⟨hfirst, hcost⟩ := next_cost hnext
    rw [List.length_cons]
    rcases List.mem_append.mp hv with hv | hv
    · have hle := hfirst v hv
      omega
    · have hle := ih hrest hv
      omega

theorem operand_constants {ts : List Token} {e : Expr} {s : String} (h : operand ts = some e) :
    ¬Mentions s e := by
  have hnumber : ∀ text, ¬Mentions s (numberExpr text) := by
    intro text hs
    unfold numberExpr at hs
    split at hs <;> cases hs
  unfold operand at h
  split at h
  · cases h
    exact hnumber _
  · cases h
    intro hs
    cases hs with
    | arg he h =>
      rw [List.mem_singleton.mp he] at h
      exact hnumber _ h
  · cases h
    intro hs
    cases hs
  · cases h

theorem relation_constants {ts : List Token} {e : Expr} {s : String} (h : relation ts = some e)
    (hs : Mentions s e) : .string s ∈ ts := by
  have hcomparison : ∀ {x : String} {operator : String} {us : List Token},
      (operand us).map (fun e => .call none operator [.ident x, e]) = some e → False := by
    intro x operator us hmap
    obtain ⟨e', he', rfl⟩ := Option.map_eq_some_iff.mp hmap
    cases hs with
    | arg he hmentions =>
      simp only [List.mem_cons, List.not_mem_nil, or_false] at he
      rcases he with rfl | rfl
      · cases hmentions
      · exact operand_constants he' hmentions
  unfold relation at h
  split at h
  · cases h
    cases hs
  · cases h
    cases hs with
    | arg he h =>
      simp only [List.mem_cons, List.not_mem_nil, or_false] at he
      rcases he with rfl | rfl
      · cases h
      · cases h
        simp
  · cases h
    cases hs with
    | target h => cases h
    | arg he h =>
      rw [List.mem_singleton.mp he] at h
      cases h
      simp
  · rename_i x rest
    obtain ⟨hrest, h⟩ := Option.ite_none_right_eq_some.mp h
    cases h
    cases hs with
    | arg he h =>
      simp only [List.mem_cons, List.not_mem_nil, or_false] at he
      rcases he with rfl | rfl
      · cases h
      · cases h with
        | element he h =>
          obtain ⟨v, hv, rfl⟩ := List.mem_map.mp he
          cases h
          have hmem : ∀ ts : List Token, s ∈ strings ts → .string s ∈ ts := by
            intro ts
            induction ts using strings.induct with
            | case1 v rest ih =>
              rw [strings]
              intro h
              rcases List.mem_cons.mp h with rfl | h
              · exact List.mem_cons_self
              · exact List.mem_cons_of_mem _ (ih h)
            | case2 rest ih =>
              rw [strings]
              exact fun h => List.mem_cons_of_mem _ (ih h)
            | case3 ts hstring hcomma =>
              intro h
              rw [strings] at h
              · cases h
              · exact hstring
              · exact hcomma
          simpa using hmem rest hv
  · exact (hcomparison h).elim
  · exact (hcomparison h).elim
  · cases h

theorem quoting : Quoting library where
  literal := by
    intro s u us ts b hs ht
    obtain ⟨found, m, last, hrun, hlast, rfl, hm⟩ := lex_eq_some.mp hs
    obtain ⟨found', m', last', hrun', hlast', rfl, hb⟩ := lex_eq_some.mp ht
    have hbracket : "(".toList = ['('] := rfl
    have hquote : "(\"".toList = ['(', '"'] := rfl
    rw [String.toList_append, hbracket] at hrun
    obtain ⟨first, m₁, more, hfirst, hnext, rfl⟩ := run_append_inv hrun
    obtain ⟨opened, m₂, nothing, hopen, hnothing, rfl⟩ := run_cons_inv hnext
    cases hnothing
    have hstart : m = .start := by
      refine mode_of_bracket hopen ?_ (of_decide_eq_false hm)
      rw [hlast]
      exact Option.some_ne_none last
    subst hstart
    cases hlast
    rw [String.toList_append, String.toList_append, hquote, List.append_assoc] at hrun'
    obtain ⟨first', m₁', more', hfirst', hnext', rfl⟩ := run_append_inv hrun'
    obtain ⟨rfl, rfl⟩ : first = first' ∧ m₁ = m₁' := by simpa using hfirst.symm.trans hfirst'
    obtain ⟨opened', m₂', rest', hopen', hrest', rfl⟩ := run_cons_inv hnext'
    obtain ⟨rfl, rfl⟩ : opened = opened' ∧ .start = m₂' := by simpa using hopen.symm.trans hopen'
    obtain ⟨quote, m₃, rest'', hstart', hrest'', rfl⟩ := run_cons_inv hrest'
    cases hstart'
    have hfinish : m'.finish ≠ none := by
      rw [hlast']
      exact Option.some_ne_none last'
    obtain ⟨body, v, rest, more₂, hu, hle, hplain, hmore, rfl⟩ :=
      run_literal_inv rfl hrest'' hfinish
    refine ⟨String.ofList body, String.ofList v, String.ofList rest, more₂ ++ last', ?_, ?_, ?_, ?_, ?_⟩
    · have hu' : u.toList = body ++ '"' :: rest := hu
      apply String.toList_inj.mp
      rw [hu']
      simp
    · rw [String.length_ofList, String.length_ofList]
      exact hle
    · rw [String.length_ofList, String.length_ofList]
      intro hlen c hc
      rw [String.toList_ofList] at hc
      exact hplain rfl hlen c hc
    · refine lex_eq_some.mpr ⟨more₂, m', last', ?_, hlast', rfl, hb⟩
      rw [String.toList_ofList]
      exact hmore
    · simp
  bound := by
    intro text v ts b h hv
    obtain ⟨found, m, last, hrun, hlast, rfl, -⟩ := lex_eq_some.mp h
    rcases List.mem_append.mp hv with hv | hv
    · have hle := run_cost hrun hv
      have hzero : Mode.start.cost = 0 := rfl
      rw [String.length_toList] at hle
      omega
    · exact absurd hv (finish_no_string hlast v)
  constants := relation_constants

end quoting

end Memoark.Cel.Reference
