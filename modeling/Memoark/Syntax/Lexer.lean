/-! Reading a text one character at a time with a machine that finds tokens, and a lexer for SQL
expressions: words, quoted names, strings, numbers, placeholders, operators and punctuation. -/
namespace Memoark.Syntax

section machine

variable {σ τ : Type}

/-- The tokens that a machine finds in some characters, and the state it reaches. -/
def run (next : σ → Char → Option (List τ × σ)) : σ → List Char → Option (List τ × σ)
  | m, [] => some ([], m)
  | m, c :: rest => do
    let (found, m') ← next m c
    let (more, m'') ← run next m' rest
    return (found ++ more, m'')

theorem run_append (next : σ → Char → Option (List τ × σ)) (m : σ) (cs ds : List Char) :
    run next m (cs ++ ds) = do
      let (found, m') ← run next m cs
      let (more, m'') ← run next m' ds
      return (found ++ more, m'') := by
  induction cs generalizing m with
  | nil =>
    cases h : run next m ds <;> simp [run, h]
  | cons c cs ih =>
    rw [List.cons_append, run, run]
    cases hc : next m c with
    | none => rfl
    | some out =>
      obtain ⟨found, m'⟩ := out
      simp only [Option.bind_eq_bind, Option.bind_some, ih]
      cases hcs : run next m' cs with
      | none => rfl
      | some out =>
        obtain ⟨more, m''⟩ := out
        simp only [Option.bind_some, Option.pure_def]
        cases hds : run next m'' ds with
        | none => rfl
        | some out => simp [List.append_assoc]

theorem run_cons {next : σ → Char → Option (List τ × σ)} {m m' m'' : σ} {c : Char}
    {rest : List Char} {found more : List τ} (hc : next m c = some (found, m'))
    (hrest : run next m' rest = some (more, m'')) :
    run next m (c :: rest) = some (found ++ more, m'') := by
  rw [run, hc]
  simp [hrest]

theorem run_join {next : σ → Char → Option (List τ × σ)} {m m' m'' : σ} {cs ds : List Char}
    {found more : List τ} (hcs : run next m cs = some (found, m'))
    (hds : run next m' ds = some (more, m'')) :
    run next m (cs ++ ds) = some (found ++ more, m'') := by
  rw [run_append, hcs]
  simp [hds]

end machine

inductive Lexeme where
  | word (text : String)
  | name
  | string
  | number
  | placeholder
  | operator (text : String)
  | dot
  | comma
  | lparen
  | rparen
  deriving DecidableEq, Repr

inductive Mode where
  | start
  | word (chars : List Char)
  | name
  | string
  | number
  | dollar
  | placeholder
  | operator (chars : List Char)
  deriving DecidableEq, Repr

def isWordChar (c : Char) : Bool := c.isAlphanum || c == '_'

def isOperatorChar (c : Char) : Bool := c ∈ ['=', '!', '<', '>', '|', '-', '@', ':', '+', '*', '/']

def begin (c : Char) : Option (List Lexeme × Mode) :=
  if c = ' ' then some ([], .start)
  else if c = '(' then some ([.lparen], .start)
  else if c = ')' then some ([.rparen], .start)
  else if c = ',' then some ([.comma], .start)
  else if c = '.' then some ([.dot], .start)
  else if c = '?' then some ([.placeholder], .start)
  else if c = '$' then some ([], .dollar)
  else if c = '\'' then some ([], .string)
  else if c = '`' then some ([], .name)
  else if isOperatorChar c then some ([], .operator [c])
  else if c.isDigit then some ([], .number)
  else if isWordChar c then some ([], .word [c])
  else none

/-- The lexeme that the end of the text or a character of another kind completes. -/
def Mode.finish : Mode → Option (List Lexeme)
  | .start => some []
  | .word chars => some [.word (String.ofList chars)]
  | .number => some [.number]
  | .placeholder => some [.placeholder]
  | .operator chars => some [.operator (String.ofList chars)]
  | .name | .string | .dollar => none

def Mode.continues : Mode → Char → Bool
  | .start, _ => false
  | .word _, c => isWordChar c
  | .number, c | .placeholder, c => isWordChar c
  | .operator _, c => isOperatorChar c
  | .name, _ | .string, _ | .dollar, _ => true

def Mode.extend : Mode → Char → Option (List Lexeme × Mode)
  | .start, _ => none
  | .word chars, c => some ([], .word (chars ++ [c]))
  | .number, c => if c.isDigit then some ([], .number) else none
  | .placeholder, c | .dollar, c => if c.isDigit then some ([], .placeholder) else none
  | .operator chars, c => some ([], .operator (chars ++ [c]))
  | .name, c => if c = '`' then some ([.name], .start) else some ([], .name)
  | .string, c => if c = '\'' then some ([.string], .start) else some ([], .string)

def Mode.next (m : Mode) (c : Char) : Option (List Lexeme × Mode) :=
  if m.continues c then m.extend c
  else do
    let done ← m.finish
    let (found, m') ← begin c
    return (done ++ found, m')

def scan (m : Mode) : List Char → Option (List Lexeme × Mode)
  | [] => some ([], m)
  | c :: rest => do
    let (found, m') ← m.next c
    let (more, m'') ← scan m' rest
    return (found ++ more, m'')

def lex (text : String) : Option (List Lexeme) := do
  let (found, m) ← scan .start text.toList
  let last ← m.finish
  return found ++ last

theorem scan_eq_run (m : Mode) (cs : List Char) : scan m cs = run Mode.next m cs := by
  induction cs generalizing m with
  | nil => rfl
  | cons c cs ih => simp only [scan, run, ih]

theorem scan_append (m : Mode) (cs ds : List Char) :
    scan m (cs ++ ds) = do
      let (found, m') ← scan m cs
      let (more, m'') ← scan m' ds
      return (found ++ more, m'') := by
  simp only [scan_eq_run, run_append]

/-- A lexeme is complete or is completed by any character that no word contains. -/
def Mode.Open (m : Mode) : Prop :=
  match m with
  | .start | .word _ | .number | .placeholder => True
  | .name | .string | .dollar | .operator _ => False

instance (m : Mode) : Decidable m.Open := by
  unfold Mode.Open
  cases m <;> infer_instance

/-- The text has these lexemes wherever a lexeme may start before it and no word goes on after
it. -/
def Lexes (text : String) (lexemes : List Lexeme) : Prop :=
  ∃ found m last, scan .start text.toList = some (found, m) ∧ m.Open ∧ m.finish = some last ∧
    found ++ last = lexemes

def Breaks (text : String) : Prop := ∀ c ∈ text.toList.head?, isWordChar c = false

instance (text : String) : Decidable (Breaks text) :=
  decidable_of_iff ((text.toList.head?.all fun c => !isWordChar c) = true)
    (by simp [Breaks, Option.all_eq_true])

theorem Lexes.lex {text : String} {lexemes : List Lexeme} (h : Lexes text lexemes) :
    lex text = some lexemes := by
  obtain ⟨found, m, last, hscan, -, hfinish, hlexemes⟩ := h
  simp [Syntax.lex, hscan, hfinish, hlexemes]

theorem Lexes.congr {s t : String} {ls ms : List Lexeme} (ht : s = t) (hl : ls = ms)
    (h : Lexes s ls) : Lexes t ms := ht ▸ hl ▸ h

theorem Mode.Open.not_continues {m : Mode} (hm : m.Open) {c : Char} (hc : isWordChar c = false) :
    m.continues c = false := by
  cases m with
  | start => rfl
  | word chars | number | placeholder => exact hc
  | name | string | dollar | operator chars => exact absurd hm id

theorem scan_interrupted {m : Mode} {last : List Lexeme} (hlast : m.finish = some last)
    {text : String} (hne : text ≠ "") (hb : ∀ c ∈ text.toList.head?, m.continues c = false)
    {ls : List Lexeme} {m' : Mode} (hscan : scan .start text.toList = some (ls, m')) :
    scan m text.toList = some (last ++ ls, m') := by
  cases hcs : text.toList with
  | nil => exact absurd (String.toList_eq_nil_iff.mp hcs) hne
  | cons c cs =>
    have hcont : m.continues c = false := hb c (by simp [hcs])
    have hstart : Mode.start.continues c = false := rfl
    rw [hcs, scan, Mode.next, hstart] at hscan
    rw [scan, Mode.next, hcont]
    cases hfirst : begin c with
    | none => simp [hfirst, Mode.finish] at hscan
    | some out =>
      obtain ⟨first, m₁⟩ := out
      cases hrest : scan m₁ cs with
      | none => simp [hfirst, hrest, Mode.finish] at hscan
      | some out =>
        obtain ⟨more, m₂⟩ := out
        obtain ⟨rfl, rfl⟩ : first ++ more = ls ∧ m₂ = m' := by
          simpa [hfirst, hrest, Mode.finish] using hscan
        simp [hlast, hrest, List.append_assoc]

/-- Texts side by side, the second of which ends any word before it. -/
theorem Lexes.append {s t : String} {ls ms : List Lexeme} (hs : Lexes s ls) (ht : Lexes t ms)
    (hb : Breaks t) : Lexes (s ++ t) (ls ++ ms) := by
  obtain ⟨found, m, last, hscan, hm, hlast, rfl⟩ := hs
  by_cases hne : t = ""
  · obtain rfl : ms = [] := by
      have hlex := ht.lex
      rw [hne] at hlex
      exact (Option.some.inj hlex).symm
    rw [hne, String.append_empty, List.append_nil]
    exact ⟨found, m, last, hscan, hm, hlast, rfl⟩
  · obtain ⟨found', m', last', hscan', hm', hlast', rfl⟩ := ht
    have hnext := scan_interrupted hlast hne (fun c hc => hm.not_continues (hb c hc)) hscan'
    refine ⟨found ++ (last ++ found'), m', last', ?_, hm', hlast', by simp [List.append_assoc]⟩
    rw [String.toList_append, scan_append, hscan]
    simp [hnext]

def Ends (text : String) (lexemes : List Lexeme) : Prop :=
  scan .start text.toList = some (lexemes, .start)

instance (text : String) (lexemes : List Lexeme) : Decidable (Ends text lexemes) :=
  inferInstanceAs (Decidable (_ = _))

theorem Ends.lexes {text : String} {ls : List Lexeme} (h : Ends text ls) : Lexes text ls :=
  ⟨ls, .start, [], h, trivial, rfl, List.append_nil ls⟩

theorem Lexes.after {s t : String} {ls ms : List Lexeme} (hs : Ends s ls) (ht : Lexes t ms) :
    Lexes (s ++ t) (ls ++ ms) := by
  obtain ⟨found, m, last, hscan, hm, hlast, rfl⟩ := ht
  refine ⟨ls ++ found, m, last, ?_, hm, hlast, List.append_assoc ..⟩
  have hstart : scan .start s.toList = some (ls, .start) := hs
  rw [String.toList_append, scan_append, hstart]
  simp [hscan]

theorem Ends.append {s t : String} {ls ms : List Lexeme} (hs : Ends s ls) (ht : Ends t ms) :
    Ends (s ++ t) (ls ++ ms) := by
  have hstart : scan .start s.toList = some (ls, .start) := hs
  have hnext : scan .start t.toList = some (ms, .start) := ht
  unfold Ends
  rw [String.toList_append, scan_append, hstart]
  simp [hnext]

theorem Lexes.ends {s t : String} {ls ms : List Lexeme} (hs : Lexes s ls) (ht : Ends t ms)
    (hb : Breaks t) (hne : t ≠ "") : Ends (s ++ t) (ls ++ ms) := by
  obtain ⟨found, m, last, hscan, hm, hlast, rfl⟩ := hs
  have hnext := scan_interrupted hlast hne (fun c hc => hm.not_continues (hb c hc)) ht
  unfold Ends
  rw [String.toList_append, scan_append, hscan]
  simp [hnext, List.append_assoc]

/-- A text that may stand between any two others. -/
def Separator (text : String) (lexemes : List Lexeme) : Prop :=
  Ends text lexemes ∧ Breaks text ∧ text ≠ ""

instance (text : String) (lexemes : List Lexeme) : Decidable (Separator text lexemes) :=
  inferInstanceAs (Decidable (_ ∧ _))

theorem Lexes.before {s sep : String} {ls us : List Lexeme} (hs : Lexes s ls)
    (hsep : Separator sep us) : Ends (s ++ sep) (ls ++ us) := hs.ends hsep.1 hsep.2.1 hsep.2.2

theorem Lexes.join {s sep t : String} {ls ms us : List Lexeme} (hs : Lexes s ls)
    (hsep : Separator sep us) (ht : Lexes t ms) : Lexes (s ++ sep ++ t) (ls ++ us ++ ms) :=
  .after (hs.before hsep) ht

theorem Ends.wrap {start t close : String} {ls ms us : List Lexeme} (hstart : Ends start us)
    (ht : Lexes t ls) (hclose : Separator close ms) :
    Ends (start ++ t ++ close) (us ++ ls ++ ms) := (Lexes.after hstart ht).before hclose

private theorem scan_string {cs : List Char} (h : '\'' ∉ cs) :
    scan .string (cs ++ ['\'']) = some ([.string], .start) := by
  induction cs with
  | nil => rfl
  | cons c cs ih =>
    obtain ⟨hc, hcs⟩ := List.ne_and_not_mem_of_not_mem_cons h
    have hnext : Mode.string.next c = some ([], .string) := by
      simp [Mode.next, Mode.continues, Mode.extend, Ne.symm hc]
    rw [List.cons_append, scan, hnext]
    simp [ih hcs]

private theorem scan_name {cs : List Char} (h : '`' ∉ cs) :
    scan .name (cs ++ ['`']) = some ([.name], .start) := by
  induction cs with
  | nil => rfl
  | cons c cs ih =>
    obtain ⟨hc, hcs⟩ := List.ne_and_not_mem_of_not_mem_cons h
    have hnext : Mode.name.next c = some ([], .name) := by
      simp [Mode.next, Mode.continues, Mode.extend, Ne.symm hc]
    rw [List.cons_append, scan, hnext]
    simp [ih hcs]

theorem Ends.string {s : String} (h : '\'' ∉ s.toList) : Ends ("'" ++ s ++ "'") [.string] := by
  have hquote : "'".toList = ['\''] := rfl
  have hopen : Mode.start.next '\'' = some ([], .string) := rfl
  unfold Ends
  rw [String.toList_append, String.toList_append, hquote, List.append_assoc, List.singleton_append,
    scan, hopen]
  simp [scan_string h]

theorem Ends.name {s : String} (h : '`' ∉ s.toList) : Ends ("`" ++ s ++ "`") [.name] := by
  have hquote : "`".toList = ['`'] := rfl
  have hopen : Mode.start.next '`' = some ([], .name) := rfl
  unfold Ends
  rw [String.toList_append, String.toList_append, hquote, List.append_assoc, List.singleton_append,
    scan, hopen]
  simp [scan_name h]

theorem Ends.operator {op s : String} (hop : scan .start op.toList = some ([], .operator op.toList))
    (h : '\'' ∉ s.toList) : Ends (op ++ ("'" ++ s ++ "'")) [.operator op, .string] := by
  have hquote : "'".toList = ['\''] := rfl
  have hne : "'" ++ s ++ "'" ≠ "" := by
    intro he
    have hlist := congrArg String.toList he
    simp [String.toList_append] at hlist
  have hb : ∀ c ∈ ("'" ++ s ++ "'").toList.head?, (Mode.operator op.toList).continues c = false := by
    intro c hc
    rw [String.toList_append, String.toList_append, hquote, List.append_assoc] at hc
    obtain rfl : '\'' = c := by simpa using hc
    rfl
  have hnext := scan_interrupted (m := .operator op.toList) rfl hne hb (Ends.string h)
  unfold Ends
  rw [String.toList_append, scan_append, hop]
  simp only [Option.bind_eq_bind, Option.bind_some, hnext, String.ofList_toList]
  rfl

def Word (text : String) : Prop :=
  text.toList.all isWordChar ∧ text.toList.head?.any fun c => !c.isDigit

instance (text : String) : Decidable (Word text) := inferInstanceAs (Decidable (_ ∧ _))

theorem Word.no_quote {text : String} (h : Word text) :
    '`' ∉ text.toList ∧ '\'' ∉ text.toList := by
  have hall : ∀ c ∈ text.toList, isWordChar c = true := List.all_eq_true.mp h.1
  exact ⟨fun hc => absurd (hall _ hc) (by decide), fun hc => absurd (hall _ hc) (by decide)⟩

private theorem not_isOperatorChar {p : Char → Bool} {c : Char} (hc : p c = true)
    (hp : (['=', '!', '<', '>', '|', '-', '@', ':', '+', '*', '/'].all fun x => !p x) = true) :
    isOperatorChar c = false := by
  refine decide_eq_false fun hmem => ?_
  have hnot := List.all_eq_true.mp hp c hmem
  simp [hc] at hnot

private theorem begin_word {c : Char} (hc : isWordChar c = true) (hd : c.isDigit = false) :
    begin c = some ([], .word [c]) := by
  have hne : ∀ x, isWordChar x = false → c ≠ x := by
    rintro x hx rfl
    exact absurd (hc.symm.trans hx) (by decide)
  have hop : isOperatorChar c = false := not_isOperatorChar hc (by decide)
  unfold begin
  rw [if_neg (hne _ (by decide)), if_neg (hne _ (by decide)), if_neg (hne _ (by decide)),
    if_neg (hne _ (by decide)), if_neg (hne _ (by decide)), if_neg (hne _ (by decide)),
    if_neg (hne _ (by decide)), if_neg (hne _ (by decide)), if_neg (hne _ (by decide)), hop, hd, hc]
  rfl

private theorem scan_word {cs : List Char} (h : cs.all isWordChar) (chars : List Char) :
    scan (.word chars) cs = some ([], .word (chars ++ cs)) := by
  induction cs generalizing chars with
  | nil => simp [scan]
  | cons c cs ih =>
    obtain ⟨hc, hcs⟩ : isWordChar c = true ∧ cs.all isWordChar = true := by simpa using h
    have hnext : (Mode.word chars).next c = some ([], .word (chars ++ [c])) := by
      simp [Mode.next, Mode.continues, Mode.extend, hc]
    rw [scan, hnext]
    simp [ih hcs]

theorem Lexes.word {text : String} (h : Word text) : Lexes text [.word text] := by
  obtain ⟨hall, hfirst⟩ := h
  cases hcs : text.toList with
  | nil => simp [hcs] at hfirst
  | cons c cs =>
    obtain ⟨hc, hrest⟩ : isWordChar c = true ∧ cs.all isWordChar = true := by
      simpa [hcs] using hall
    have hd : c.isDigit = false := by simpa [hcs] using hfirst
    have hnext : Mode.start.next c = some ([], .word [c]) := by
      simp [Mode.next, Mode.continues, Mode.finish, begin_word hc hd]
    have hscan : scan .start text.toList = some ([], .word text.toList) := by
      rw [hcs, scan, hnext]
      simp [scan_word hrest]
    refine ⟨[], _, _, hscan, trivial, rfl, ?_⟩
    rw [String.ofList_toList]
    rfl

def Digits (text : String) : Prop := text ≠ "" ∧ ∀ c ∈ text.toList, c.isDigit = true

private theorem begin_digit {c : Char} (h : c.isDigit = true) : begin c = some ([], .number) := by
  have hne : ∀ x : Char, x.isDigit = false → c ≠ x := by
    rintro x hx rfl
    exact absurd (h.symm.trans hx) (by decide)
  have hop : isOperatorChar c = false := not_isOperatorChar h (by decide)
  unfold begin
  rw [if_neg (hne _ (by decide)), if_neg (hne _ (by decide)), if_neg (hne _ (by decide)),
    if_neg (hne _ (by decide)), if_neg (hne _ (by decide)), if_neg (hne _ (by decide)),
    if_neg (hne _ (by decide)), if_neg (hne _ (by decide)), if_neg (hne _ (by decide)), hop, h]
  rfl

private theorem scan_digits {m : Mode} (hm : m = .number ∨ m = .placeholder) {cs : List Char}
    (h : ∀ c ∈ cs, c.isDigit = true) : scan m cs = some ([], m) := by
  induction cs with
  | nil => rfl
  | cons c cs ih =>
    have hc := h c (by simp)
    have hword : isWordChar c = true := by simp [isWordChar, Char.isAlphanum, hc]
    have hnext : m.next c = some ([], m) := by
      rcases hm with rfl | rfl <;> simp [Mode.next, Mode.continues, Mode.extend, hc, hword]
    rw [scan, hnext]
    simp [ih fun d hd => h d (List.mem_cons_of_mem c hd)]

theorem Lexes.number {text : String} (h : Digits text) : Lexes text [.number] := by
  obtain ⟨hne, hdigits⟩ := h
  cases hcs : text.toList with
  | nil => exact absurd (String.toList_eq_nil_iff.mp hcs) hne
  | cons c cs =>
    rw [hcs] at hdigits
    have hnext : Mode.start.next c = some ([], .number) := by
      simp [Mode.next, Mode.continues, Mode.finish, begin_digit (hdigits c (by simp))]
    have hrest := scan_digits (.inl rfl) fun d hd => hdigits d (List.mem_cons_of_mem c hd)
    refine ⟨[], .number, [.number], ?_, trivial, rfl, rfl⟩
    rw [hcs, scan, hnext]
    simp [hrest]

theorem Lexes.dollar {text : String} (h : Digits text) : Lexes ("$" ++ text) [.placeholder] := by
  obtain ⟨hne, hdigits⟩ := h
  have hdollar : "$".toList = ['$'] := rfl
  cases hcs : text.toList with
  | nil => exact absurd (String.toList_eq_nil_iff.mp hcs) hne
  | cons c cs =>
    rw [hcs] at hdigits
    have hc := hdigits c (by simp)
    have hfirst : Mode.start.next '$' = some ([], .dollar) := rfl
    have hnext : Mode.dollar.next c = some ([], .placeholder) := by
      simp [Mode.next, Mode.continues, Mode.extend, hc]
    have hrest := scan_digits (.inr rfl) fun d hd => hdigits d (List.mem_cons_of_mem c hd)
    refine ⟨[], .placeholder, [.placeholder], ?_, trivial, rfl, rfl⟩
    rw [String.toList_append, hdollar, hcs, List.singleton_append, scan, hfirst]
    simp [scan, hnext, hrest]

end Memoark.Syntax
