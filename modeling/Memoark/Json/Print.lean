import Mathlib.Data.List.DropRight
import Memoark.Js.Json
import Memoark.Json.Parse

/-! `JSON.stringify` with an indentation of two spaces, and that the parser reads its text back. -/
namespace Memoark.Json

def indent (depth : Nat) : List Char := '\n' :: List.replicate (2 * depth) ' '

def printString (s : String) : List Char := '"' :: s.toList.flatMap Js.quoteChar ++ ['"']

def enclose (opening closing : Char) (depth : Nat) (parts : List (List Char)) : List Char :=
  if parts = [] then [opening, closing]
  else opening :: [','].intercalate parts ++ indent depth ++ [closing]

mutual

def print (depth : Nat) : Json → List Char
  | .null => ['n', 'u', 'l', 'l']
  | .bool true => ['t', 'r', 'u', 'e']
  | .bool false => ['f', 'a', 'l', 's', 'e']
  | .num literal => literal.toList
  | .str s => printString s
  | .arr items => enclose '[' ']' depth (printItems (depth + 1) items)
  | .obj members => enclose '\x7b' '\x7d' depth (printMembers (depth + 1) members)

def printItems (depth : Nat) : List Json → List (List Char)
  | [] => []
  | v :: vs => (indent depth ++ print depth v) :: printItems depth vs

def printMembers (depth : Nat) : List (String × Json) → List (List Char)
  | [] => []
  | (key, v) :: members =>
    (indent depth ++ printString key ++ ':' :: ' ' :: print depth v) :: printMembers depth members

end

def IsNumber (literal : String) : Prop := scanNumber literal.toList = some (literal, [])

mutual

def Numbers : Json → Prop
  | .num literal => IsNumber literal
  | .arr items => ItemsNumbers items
  | .obj members => MembersNumbers members
  | _ => True

def ItemsNumbers : List Json → Prop
  | [] => True
  | v :: vs => v.Numbers ∧ ItemsNumbers vs

def MembersNumbers : List (String × Json) → Prop
  | [] => True
  | (_, v) :: members => v.Numbers ∧ MembersNumbers members

end

mutual

def nesting : Json → Nat
  | .arr items => itemsNesting items + 1
  | .obj members => membersNesting members + 1
  | _ => 0

def itemsNesting : List Json → Nat
  | [] => 0
  | v :: vs => max v.nesting (itemsNesting vs)

def membersNesting : List (String × Json) → Nat
  | [] => 0
  | (_, v) :: members => max v.nesting (membersNesting members)

end

/-- Nothing follows, or something that no number goes on with. -/
def Delimited (rest : List Char) : Prop :=
  ∀ c, rest.head? = some c → isDigit c = false ∧ c ≠ '.' ∧ c ≠ 'e' ∧ c ≠ 'E'

section numbers

variable {cs ds left rest : List Char}

theorem scanDigits_append (h : Delimited rest) (cs : List Char) :
    scanDigits (cs ++ rest) = ((scanDigits cs).1, (scanDigits cs).2 ++ rest) := by
  induction cs with
  | nil =>
    cases rest with
    | nil => rfl
    | cons c rest =>
      have hc := (h c rfl).1
      simp [scanDigits, hc]
  | cons c cs ih =>
    obtain ⟨htake, hdrop⟩ := Prod.mk.inj ih
    by_cases hc : isDigit c = true
    · simp [scanDigits, hc, htake, hdrop]
    · simp [scanDigits, hc]

theorem scanInt_append (h : Delimited rest) (hint : scanInt cs = some (ds, left)) :
    scanInt (cs ++ rest) = some (ds, left ++ rest) := by
  unfold scanInt at hint
  split at hint
  · cases hint
    rfl
  · rename_i c cs hzero
    split at hint
    · rename_i hc
      cases hint
      rw [List.cons_append, scanInt, if_pos hc, scanDigits_append h]
      exact hzero
    · cases hint
  · cases hint

theorem scanDigits1_append (h : Delimited rest) (hdigits : scanDigits1 cs = some (ds, left)) :
    scanDigits1 (cs ++ rest) = some (ds, left ++ rest) := by
  unfold scanDigits1 at hdigits ⊢
  rw [scanDigits_append h]
  split at hdigits
  · cases hdigits
  · rename_i hsome
    cases hdigits
    exact if_neg hsome

theorem scanFrac_append (h : Delimited rest) (hfrac : scanFrac cs = some (ds, left)) :
    scanFrac (cs ++ rest) = some (ds, left ++ rest) := by
  unfold scanFrac at hfrac
  split at hfrac
  · obtain ⟨⟨digits, left⟩, hdigits, heq⟩ := Option.map_eq_some_iff.mp hfrac
    cases heq
    rw [List.cons_append, scanFrac, scanDigits1_append h hdigits]
    rfl
  · rename_i hdot
    cases hfrac
    rw [scanFrac]
    intro tail heq
    cases cs with
    | nil =>
      rw [List.nil_append] at heq
      exact (h '.' (by rw [heq]; rfl)).2.1 rfl
    | cons c cs =>
      rw [List.cons_append] at heq
      obtain ⟨rfl, -⟩ := List.cons.inj heq
      exact hdot cs rfl

theorem scanExp_append (h : Delimited rest) (hexp : scanExp cs = some (ds, left)) :
    scanExp (cs ++ rest) = some (ds, left ++ rest) := by
  cases cs with
  | nil =>
    cases hexp
    cases rest with
    | nil => rfl
    | cons c rest =>
      obtain ⟨-, -, hlower, hupper⟩ := h c rfl
      exact if_neg (by simp [hlower, hupper])
  | cons e cs =>
    unfold scanExp at hexp ⊢
    rw [List.cons_append]
    dsimp only at hexp ⊢
    by_cases he : e = 'e' ∨ e = 'E'
    · rw [if_pos he] at hexp ⊢
      cases cs with
      | nil => cases hexp
      | cons sign cs =>
        rw [List.cons_append]
        dsimp only at hexp ⊢
        split at hexp
        · rename_i hsign
          obtain ⟨⟨digits, left⟩, hdigits, heq⟩ := Option.map_eq_some_iff.mp hexp
          cases heq
          rw [if_pos hsign, scanDigits1_append h hdigits]
          rfl
        · rename_i hsign
          obtain ⟨⟨digits, left⟩, hdigits, heq⟩ := Option.map_eq_some_iff.mp hexp
          cases heq
          rw [if_neg hsign, ← List.cons_append, scanDigits1_append h hdigits]
          rfl
    · rw [if_neg he] at hexp ⊢
      cases hexp
      rfl

theorem scanUnsigned_append (h : Delimited rest) (hnumber : scanUnsigned cs = some (ds, left)) :
    scanUnsigned (cs ++ rest) = some (ds, left ++ rest) := by
  simp only [scanUnsigned, Option.bind_eq_bind, Option.bind_eq_some_iff] at hnumber
  obtain ⟨⟨int, cs₁⟩, hint, ⟨frac, cs₂⟩, hfrac, ⟨exp, cs₃⟩, hexp, heq⟩ := hnumber
  cases heq
  simp only [scanUnsigned, scanInt_append h hint, scanFrac_append h hfrac, scanExp_append h hexp,
    Option.bind_eq_bind, Option.bind_some]
  rfl

theorem scanNumber_append (h : Delimited rest) {s : String}
    (hnumber : scanNumber cs = some (s, left)) :
    scanNumber (cs ++ rest) = some (s, left ++ rest) := by
  unfold scanNumber at hnumber
  split at hnumber
  · obtain ⟨⟨digits, left⟩, hdigits, heq⟩ := Option.map_eq_some_iff.mp hnumber
    cases heq
    rw [List.cons_append, scanNumber, scanUnsigned_append h hdigits]
    rfl
  · rename_i hminus
    obtain ⟨⟨digits, left⟩, hdigits, heq⟩ := Option.map_eq_some_iff.mp hnumber
    cases heq
    cases cs with
    | nil => cases hdigits
    | cons c cs =>
      have hnumber := scanUnsigned_append h hdigits
      rw [List.cons_append] at hnumber ⊢
      rw [scanNumber, hnumber]
      · rfl
      · rintro cs' heq
        exact hminus cs (by rw [(List.cons.inj heq).1])

theorem scanNumber_start {s : String} (hnumber : scanNumber cs = some (s, left)) :
    ∃ c tail, cs = c :: tail ∧ (c = '-' ∨ isDigit c = true) := by
  unfold scanNumber at hnumber
  split at hnumber
  · exact ⟨_, _, rfl, .inl rfl⟩
  · obtain ⟨⟨digits, left⟩, hdigits, -⟩ := Option.map_eq_some_iff.mp hnumber
    simp only [scanUnsigned, Option.bind_eq_bind, Option.bind_eq_some_iff] at hdigits
    obtain ⟨_, hint, -⟩ := hdigits
    unfold scanInt at hint
    split at hint
    · exact ⟨_, _, rfl, .inr rfl⟩
    · split at hint
      · rename_i hc
        exact ⟨_, _, rfl, .inr hc⟩
      · cases hint
    · cases hint

end numbers

section strings

/-- A character, or the `\u` escape of a control character. -/
inductive Stands : Piece → Char → Prop
  | char (c : Char) : Stands (.char c) c
  | unit {c : Char} (h : c.toNat < 32) : Stands (.unit c.toNat) c

theorem joinPieces_cons {piece : Piece} {c : Char} (h : Stands piece c) (pieces : List Piece) :
    joinPieces (piece :: pieces) = c :: joinPieces pieces := by
  cases h with
  | char => rfl
  | unit hc =>
    have hhigh : isHighSurrogate c.toNat = false := by
      simp only [isHighSurrogate, Bool.and_eq_false_iff, decide_eq_false_iff_not]
      omega
    have hlow : isLowSurrogate c.toNat = false := by
      simp only [isLowSurrogate, Bool.and_eq_false_iff, decide_eq_false_iff_not]
      omega
    have hchar : unitChar c.toNat = c := by
      rw [unitChar, hhigh, hlow]
      exact Char.ofNat_toNat c
    cases pieces with
    | nil => simp [joinPieces, hchar]
    | cons next pieces =>
      cases next with
      | char d => simp [joinPieces, hchar]
      | unit v => simp [joinPieces, hchar, hhigh]

theorem scanPieces_escape {e : Char} (he : e ≠ 'u') (rest : List Char) :
    scanPieces ('\\' :: e :: rest) = push ((unescape e).map .char) (scanPieces rest) := by
  rw [scanPieces]
  intro a b c d tail heq
  exact absurd heq he

theorem scanPieces_plain {c : Char} (hquote : c ≠ '"') (hslash : c ≠ '\\') (h : 32 ≤ c.toNat)
    (rest : List Char) : scanPieces (c :: rest) = push (some (.char c)) (scanPieces rest) := by
  have hplain : plain c = some (.char c) := if_neg (by omega)
  rw [scanPieces, hplain]
  · exact hquote
  · intro a b c d tail heq
    exact absurd heq hslash
  · intro e tail heq
    exact absurd heq hslash

theorem hexUnit_unicodeEscape {n : Nat} (h : n < 32) :
    hexUnit (n / 4096 % 16).digitChar (n / 256 % 16).digitChar (n / 16 % 16).digitChar
      (n % 16).digitChar = some n := by
  have hall : ∀ m : Fin 32, hexUnit (m.val / 4096 % 16).digitChar (m.val / 256 % 16).digitChar
    (m.val / 16 % 16).digitChar (m.val % 16).digitChar = some m.val := by decide
  exact hall ⟨n, h⟩

theorem scanPieces_quoteChar (c : Char) : ∃ piece, Stands piece c ∧
    ∀ rest, scanPieces (Js.quoteChar c ++ rest) = push (some piece) (scanPieces rest) := by
  have hescape : ∀ e, e ≠ 'u' → unescape e = some c → Js.quoteChar c = ['\\', e] →
      ∃ piece, Stands piece c ∧
        ∀ rest, scanPieces (Js.quoteChar c ++ rest) = push (some piece) (scanPieces rest) := by
    intro e he hc hquote
    refine ⟨.char c, .char c, fun rest => ?_⟩
    have hstep := scanPieces_escape he rest
    rw [hc] at hstep
    rw [hquote]
    exact hstep
  by_cases hb : c = Char.ofNat 8
  · subst hb
    exact hescape 'b' (by decide) rfl rfl
  by_cases ht : c = '\t'
  · subst ht
    exact hescape 't' (by decide) rfl rfl
  by_cases hn : c = '\n'
  · subst hn
    exact hescape 'n' (by decide) rfl rfl
  by_cases hf : c = Char.ofNat 12
  · subst hf
    exact hescape 'f' (by decide) rfl rfl
  by_cases hr : c = '\r'
  · subst hr
    exact hescape 'r' (by decide) rfl rfl
  by_cases hq : c = '"'
  · subst hq
    exact hescape '"' (by decide) rfl rfl
  by_cases hs : c = '\\'
  · subst hs
    exact hescape '\\' (by decide) rfl rfl
  unfold Js.quoteChar
  rw [if_neg hb, if_neg ht, if_neg hn, if_neg hf, if_neg hr, if_neg hq, if_neg hs]
  by_cases hcontrol : c.toNat < 32
  · refine ⟨.unit c.toNat, .unit hcontrol, fun rest => ?_⟩
    rw [if_pos hcontrol]
    show scanPieces ('\\' :: 'u' :: _ :: _ :: _ :: _ :: rest) = _
    rw [scanPieces, hexUnit_unicodeEscape hcontrol]
    rfl
  · refine ⟨.char c, .char c, fun rest => ?_⟩
    rw [if_neg hcontrol]
    exact scanPieces_plain hq hs (Nat.not_lt.mp hcontrol) rest

theorem scanString_quote (cs rest : List Char) :
    scanString (cs.flatMap Js.quoteChar ++ '"' :: rest) = some (String.ofList cs, rest) := by
  have hpieces : ∃ pieces, scanPieces (cs.flatMap Js.quoteChar ++ '"' :: rest) =
      some (pieces, rest) ∧ joinPieces pieces = cs := by
    induction cs with
    | nil => exact ⟨[], by rw [List.flatMap_nil, List.nil_append, scanPieces], rfl⟩
    | cons c cs ih =>
      obtain ⟨pieces, hscan, hjoin⟩ := ih
      obtain ⟨piece, hstands, hquote⟩ := scanPieces_quoteChar c
      refine ⟨piece :: pieces, ?_, ?_⟩
      · rw [List.flatMap_cons, List.append_assoc, hquote, hscan]
        rfl
      · rw [joinPieces_cons hstands, hjoin]
  obtain ⟨pieces, hscan, hjoin⟩ := hpieces
  subst hjoin
  rw [scanString, hscan]
  rfl

end strings

section values

variable {fuel limit : Nat} {rest : List Char}

theorem skipSpace_cons {c : Char} (h : isSpace c = false) (cs : List Char) :
    skipSpace (c :: cs) = c :: cs := by simp [skipSpace, h]

theorem skipSpace_indent (depth : Nat) (cs : List Char) :
    skipSpace (indent depth ++ cs) = skipSpace cs := by
  have hspaces : ∀ n, skipSpace (List.replicate n ' ' ++ cs) = skipSpace cs := by
    intro n
    induction n with
    | zero => rfl
    | succ n ih => exact ih
  exact hspaces (2 * depth)

theorem skipSpace_idem (cs : List Char) : skipSpace (skipSpace cs) = skipSpace cs :=
  List.dropWhile_idempotent _ cs

theorem parseValue_skipSpace (fuel limit : Nat) (cs : List Char) :
    parseValue fuel limit (skipSpace cs) = parseValue fuel limit cs := by
  cases fuel with
  | zero => simp only [parseValue]
  | succ fuel => simp only [parseValue, skipSpace_idem]

theorem parseItems_skipSpace (fuel limit : Nat) (cs : List Char) :
    parseItems fuel limit (skipSpace cs) = parseItems fuel limit cs := by
  cases fuel with
  | zero => simp only [parseItems]
  | succ fuel => simp only [parseItems, parseValue_skipSpace]

theorem parseMembers_skipSpace (fuel limit : Nat) (cs : List Char) :
    parseMembers fuel limit (skipSpace cs) = parseMembers fuel limit cs := by
  cases fuel with
  | zero => simp only [parseMembers]
  | succ fuel => simp only [parseMembers, parseKey, skipSpace_idem]

theorem delimited_cons {c : Char} (h : c = '\n' ∨ c = ',') (rest : List Char) :
    Delimited (c :: rest) := by
  intro d hd
  obtain rfl := Option.some.inj hd
  rcases h with rfl | rfl <;> decide

theorem delimited_indent (depth : Nat) (rest : List Char) : Delimited (indent depth ++ rest) :=
  delimited_cons (.inl rfl) _

theorem start_ne {c d : Char} (hc : c = '-' ∨ isDigit c = true) (hminus : d ≠ '-')
    (hdigit : isDigit d = false) : c ≠ d := by
  rintro rfl
  rcases hc with hc | hc
  · exact hminus hc
  · rw [hdigit] at hc
    cases hc

theorem isSpace_start {c : Char} (hc : c = '-' ∨ isDigit c = true) : isSpace c = false := by
  have hspace := start_ne hc (d := ' ') (by decide) (by decide)
  have htab := start_ne hc (d := '\t') (by decide) (by decide)
  have hline := start_ne hc (d := '\n') (by decide) (by decide)
  have hreturn := start_ne hc (d := '\r') (by decide) (by decide)
  simp [isSpace, hspace, htab, hline, hreturn]

theorem print_start {v : Json} (h : v.Numbers) (depth : Nat) :
    ∃ c tail, print depth v = c :: tail ∧ isSpace c = false ∧ c ≠ ']' := by
  cases v with
  | null => exact ⟨'n', _, by rw [print], by decide, by decide⟩
  | bool b =>
    cases b with
    | false => exact ⟨'f', _, by rw [print], by decide, by decide⟩
    | true => exact ⟨'t', _, by rw [print], by decide, by decide⟩
  | num literal =>
    obtain ⟨c, tail, hliteral, hc⟩ := scanNumber_start h
    exact ⟨c, tail, by rw [print, hliteral], isSpace_start hc, start_ne hc (by decide) (by decide)⟩
  | str s => exact ⟨'"', _, by rw [print, printString]; rfl, by decide, by decide⟩
  | arr items =>
    rw [print, enclose]
    split
    · exact ⟨'[', _, rfl, by decide, by decide⟩
    · exact ⟨'[', _, rfl, by decide, by decide⟩
  | obj members =>
    rw [print, enclose]
    split
    · exact ⟨'\x7b', _, rfl, by decide, by decide⟩
    · exact ⟨'\x7b', _, rfl, by decide, by decide⟩

theorem parseValue_number {literal : String} (h : IsNumber literal) (hrest : Delimited rest) :
    parseValue (fuel + 1) limit (literal.toList ++ rest) = some (.num literal, rest) := by
  have hscan := scanNumber_append hrest h
  obtain ⟨c, tail, hliteral, hc⟩ := scanNumber_start h
  rw [hliteral] at hscan ⊢
  rw [List.cons_append] at hscan ⊢
  have hn := start_ne hc (d := 'n') (by decide) (by decide)
  have ht := start_ne hc (d := 't') (by decide) (by decide)
  have hf := start_ne hc (d := 'f') (by decide) (by decide)
  have hquote := start_ne hc (d := '"') (by decide) (by decide)
  have hbracket := start_ne hc (d := '[') (by decide) (by decide)
  have hbrace := start_ne hc (d := '\x7b') (by decide) (by decide)
  rw [parseValue, skipSpace_cons (isSpace_start hc)]
  split
  all_goals
    rename_i heq
    first
    | exact absurd (List.cons.inj heq).1 ‹_›
    | skip
  rw [hscan]
  rfl

theorem parseValue_string (s : String) :
    parseValue (fuel + 1) limit (printString s ++ rest) = some (.str s, rest) := by
  have hscan := scanString_quote s.toList rest
  rw [String.ofList_toList] at hscan
  have htext : printString s ++ rest = '"' :: (s.toList.flatMap Js.quoteChar ++ '"' :: rest) := by
    simp [printString]
  rw [htext, parseValue, skipSpace_cons (by decide)]
  show (scanString (s.toList.flatMap Js.quoteChar ++ '"' :: rest)).map _ = _
  rw [hscan]
  rfl

theorem parseKey_print (key : String) (depth : Nat) :
    parseKey (indent depth ++ (printString key ++ ':' :: rest)) = some (key, rest) := by
  have hscan := scanString_quote key.toList (':' :: rest)
  rw [String.ofList_toList] at hscan
  have htext : printString key ++ ':' :: rest =
      '"' :: (key.toList.flatMap Js.quoteChar ++ '"' :: ':' :: rest) := by
    simp [printString]
  rw [htext, parseKey, skipSpace_indent, skipSpace_cons (by decide)]
  simp only [hscan]
  rfl

theorem parseValue_array {cs : List Char} (h : ∀ tail, skipSpace cs ≠ ']' :: tail) :
    parseValue (fuel + 1) (limit + 1) ('[' :: cs) =
      (parseItems fuel limit cs).map fun (vs, rest) => (.arr vs, rest) := by
  rw [parseValue_bracket, ← parseItems_skipSpace fuel limit cs]
  split
  · rename_i heq
    exact absurd heq (h _)
  · rfl

theorem parseValue_object {cs : List Char} (h : ∀ tail, skipSpace cs ≠ '\x7d' :: tail) :
    parseValue (fuel + 1) (limit + 1) ('\x7b' :: cs) =
      (parseMembers fuel limit cs).map fun (ms, rest) => (.obj ms, rest) := by
  rw [parseValue_brace, ← parseMembers_skipSpace fuel limit cs]
  split
  · rename_i heq
    exact absurd heq (h _)
  · rfl

def ValuePrints (fuel : Nat) : Prop :=
  ∀ v depth limit rest, v.Numbers → v.nesting ≤ limit → 2 * v.size ≤ fuel → Delimited rest →
    parseValue fuel limit (print depth v ++ rest) = some (v, rest)

def ItemsPrint (fuel : Nat) : Prop :=
  ∀ v vs depth limit rest, ItemsNumbers (v :: vs) → itemsNesting (v :: vs) ≤ limit →
    2 * size.sizeItems (v :: vs) + 1 ≤ fuel →
    parseItems fuel limit ([','].intercalate (printItems (depth + 1) (v :: vs)) ++
      (indent depth ++ ']' :: rest)) = some (v :: vs, rest)

def MembersPrint (fuel : Nat) : Prop :=
  ∀ m ms depth limit rest, MembersNumbers (m :: ms) → membersNesting (m :: ms) ≤ limit →
    2 * size.sizeMembers (m :: ms) + 1 ≤ fuel →
    parseMembers fuel limit ([','].intercalate (printMembers (depth + 1) (m :: ms)) ++
      (indent depth ++ '\x7d' :: rest)) = some (m :: ms, rest)

theorem itemsPrint_succ (hv : ValuePrints fuel) (hi : ItemsPrint fuel) :
    ItemsPrint (fuel + 1) := by
  intro v vs depth limit rest hnumbers hnesting hfuel
  obtain ⟨hnumber, hrest⟩ := hnumbers
  have hvalue := one_le_size v
  simp only [itemsNesting, size.sizeItems] at hnesting hfuel
  cases vs with
  | nil =>
    have hread := hv v (depth + 1) limit (indent depth ++ ']' :: rest) hnumber (by omega)
      (by omega) (delimited_indent depth _)
    have hclose : skipSpace (indent depth ++ ']' :: rest) = ']' :: rest := by
      rw [skipSpace_indent, skipSpace_cons (by decide)]
    simp only [printItems, List.intercalate_singleton, List.append_assoc]
    rw [parseItems, ← parseValue_skipSpace, skipSpace_indent, parseValue_skipSpace, hread]
    simp only [hclose]
  | cons w ws =>
    have hread := hv v (depth + 1) limit (',' :: ([','].intercalate
      (printItems (depth + 1) (w :: ws)) ++ (indent depth ++ ']' :: rest))) hnumber (by omega)
      (by omega) (delimited_cons (.inr rfl) _)
    have hitems := hi w ws depth limit rest hrest (by omega) (by omega)
    have hcomma : ∀ cs, skipSpace (',' :: cs) = ',' :: cs := skipSpace_cons (by decide)
    have htext : printItems (depth + 1) (v :: w :: ws) =
        (indent (depth + 1) ++ print (depth + 1) v) :: printItems (depth + 1) (w :: ws) := rfl
    have hnext : ∃ p ps, printItems (depth + 1) (w :: ws) = p :: ps := ⟨_, _, rfl⟩
    obtain ⟨p, ps, hps⟩ := hnext
    rw [htext]
    rw [hps] at hread hitems ⊢
    simp only [List.intercalate_cons_cons, List.append_assoc, List.nil_append,
      List.cons_append]
    rw [parseItems, ← parseValue_skipSpace, skipSpace_indent, parseValue_skipSpace, hread]
    simp only [hcomma, hitems, Option.map_some]

theorem membersPrint_succ (hv : ValuePrints fuel) (hm : MembersPrint fuel) :
    MembersPrint (fuel + 1) := by
  intro m ms depth limit rest hnumbers hnesting hfuel
  obtain ⟨key, v⟩ := m
  obtain ⟨hnumber, hrest⟩ := hnumbers
  have hvalue := one_le_size v
  have hspace : ∀ cs, parseValue fuel limit (' ' :: cs) = parseValue fuel limit cs := by
    intro cs
    rw [← parseValue_skipSpace, ← parseValue_skipSpace fuel limit cs]
    rfl
  simp only [membersNesting, size.sizeMembers] at hnesting hfuel
  cases ms with
  | nil =>
    have hread := hv v (depth + 1) limit (indent depth ++ '\x7d' :: rest) hnumber (by omega)
      (by omega) (delimited_indent depth _)
    have hclose : skipSpace (indent depth ++ '\x7d' :: rest) = '\x7d' :: rest := by
      rw [skipSpace_indent, skipSpace_cons (by decide)]
    simp only [printMembers, List.intercalate_singleton, List.append_assoc, List.cons_append]
    rw [parseMembers, parseKey_print]
    simp only [hspace, hread, hclose]
  | cons w ws =>
    have hread := hv v (depth + 1) limit (',' :: ([','].intercalate
      (printMembers (depth + 1) (w :: ws)) ++ (indent depth ++ '\x7d' :: rest))) hnumber
      (by omega) (by omega) (delimited_cons (.inr rfl) _)
    have hmembers := hm w ws depth limit rest hrest (by omega) (by omega)
    have hcomma : ∀ cs, skipSpace (',' :: cs) = ',' :: cs := skipSpace_cons (by decide)
    have htext : printMembers (depth + 1) ((key, v) :: w :: ws) =
        (indent (depth + 1) ++ printString key ++ ':' :: ' ' :: print (depth + 1) v) ::
          printMembers (depth + 1) (w :: ws) := rfl
    have hnext : ∃ p ps, printMembers (depth + 1) (w :: ws) = p :: ps := ⟨_, _, rfl⟩
    obtain ⟨p, ps, hps⟩ := hnext
    rw [htext]
    rw [hps] at hread hmembers ⊢
    simp only [List.intercalate_cons_cons, List.append_assoc, List.nil_append,
      List.cons_append]
    rw [parseMembers, parseKey_print]
    simp only [hspace, hread, hcomma, hmembers, Option.map_some]

theorem intercalate_cons (p : List Char) (ps : List (List Char)) :
    ∃ tail, [','].intercalate (p :: ps) = p ++ tail := by
  cases ps with
  | nil => exact ⟨[], by simp⟩
  | cons q qs => exact ⟨',' :: [','].intercalate (q :: qs), by simp⟩

theorem print_array (v : Json) (vs : List Json) (depth : Nat) (rest : List Char) :
    print depth (.arr (v :: vs)) ++ rest =
      '[' :: ([','].intercalate (printItems (depth + 1) (v :: vs)) ++
        (indent depth ++ ']' :: rest)) := by
  have hne : printItems (depth + 1) (v :: vs) ≠ [] := List.cons_ne_nil _ _
  rw [print, enclose, if_neg hne]
  simp

theorem print_object (m : String × Json) (ms : List (String × Json)) (depth : Nat)
    (rest : List Char) : print depth (.obj (m :: ms)) ++ rest =
      '\x7b' :: ([','].intercalate (printMembers (depth + 1) (m :: ms)) ++
        (indent depth ++ '\x7d' :: rest)) := by
  have hne : printMembers (depth + 1) (m :: ms) ≠ [] := List.cons_ne_nil _ _
  rw [print, enclose, if_neg hne]
  simp

theorem printItems_open {w : Json} {ws : List Json} {depth : Nat} {rest : List Char}
    (hw : w.Numbers) (tail : List Char) :
    skipSpace ([','].intercalate (printItems depth (w :: ws)) ++ rest) ≠ ']' :: tail := by
  intro heq
  obtain ⟨c, start, hstart, hspace, hclose⟩ := print_start hw depth
  obtain ⟨others, htext⟩ := intercalate_cons (indent depth ++ print depth w) (printItems depth ws)
  rw [printItems, htext, List.append_assoc, List.append_assoc, skipSpace_indent, hstart,
    List.cons_append, skipSpace_cons hspace] at heq
  exact hclose (List.cons.inj heq).1

theorem printMembers_open {m : String × Json} {ms : List (String × Json)} {depth : Nat}
    {rest : List Char} (tail : List Char) :
    skipSpace ([','].intercalate (printMembers depth (m :: ms)) ++ rest) ≠ '\x7d' :: tail := by
  intro heq
  obtain ⟨key, w⟩ := m
  obtain ⟨others, htext⟩ := intercalate_cons
    (indent depth ++ printString key ++ ':' :: ' ' :: print depth w) (printMembers depth ms)
  rw [printMembers, htext, List.append_assoc, List.append_assoc, List.append_assoc,
    skipSpace_indent, printString, List.cons_append, List.cons_append,
    skipSpace_cons (by decide)] at heq
  exact absurd (List.cons.inj heq).1 (by decide)

theorem valuePrints_succ (hi : ItemsPrint fuel) (hm : MembersPrint fuel) :
    ValuePrints (fuel + 1) := by
  intro v depth limit rest hnumbers hnesting hfuel hrest
  cases v with
  | null => rw [print]; rfl
  | bool b => cases b <;> rw [print] <;> rfl
  | num literal =>
    rw [print]
    exact parseValue_number hnumbers hrest
  | str s =>
    rw [print]
    exact parseValue_string s
  | arr items =>
    rw [nesting] at hnesting
    rw [size] at hfuel
    obtain ⟨limit, rfl⟩ := Nat.exists_eq_add_of_le' (Nat.le_trans (Nat.le_add_left 1 _) hnesting)
    cases items with
    | nil => rfl
    | cons w ws =>
      have hitems := hi w ws depth limit rest hnumbers (by omega) (by omega)
      rw [print_array, parseValue_array (printItems_open hnumbers.1), hitems]
      rfl
  | obj members =>
    rw [nesting] at hnesting
    rw [size] at hfuel
    obtain ⟨limit, rfl⟩ := Nat.exists_eq_add_of_le' (Nat.le_trans (Nat.le_add_left 1 _) hnesting)
    cases members with
    | nil => rfl
    | cons m ms =>
      have hmembers := hm m ms depth limit rest hnumbers (by omega) (by omega)
      rw [print_object, parseValue_object printMembers_open, hmembers]
      rfl

theorem print_fuel (fuel : Nat) : ValuePrints fuel ∧ ItemsPrint fuel ∧ MembersPrint fuel := by
  induction fuel with
  | zero =>
    refine ⟨?_, ?_, ?_⟩
    · intro v _ _ _ _ _ hfuel
      have hsize := one_le_size v
      omega
    · intro _ _ _ _ _ _ _ hfuel
      omega
    · intro _ _ _ _ _ _ _ hfuel
      omega
  | succ fuel ih =>
    obtain ⟨hv, hi, hm⟩ := ih
    exact ⟨valuePrints_succ hi hm, itemsPrint_succ hv hi, membersPrint_succ hv hm⟩

theorem parse_print {v : Json} (hnumbers : v.Numbers) (hnesting : v.nesting ≤ maxNestingDepth) :
    parse (print 0 v ++ ['\n']) = some v := by
  have hend : Delimited ['\n'] := delimited_cons (.inl rfl) []
  -- The parser's own bound on sizes says that its fuel is enough.
  have hread := (print_fuel _).1 v 0 maxNestingDepth ['\n'] hnumbers hnesting le_rfl hend
  have hsize := (parse_fits _).1 _ _ _ _ hread
  have hfuel : 2 * v.size ≤ 2 * (print 0 v ++ ['\n']).length + 2 := by omega
  rw [parse, first, (print_fuel _).1 v 0 maxNestingDepth ['\n'] hnumbers hnesting hfuel hend]
  rfl

end values

section printable

variable {k : Nat}

/-- The numbers of a value are literals, and it is nested no deeper than that. -/
def Printable (k : Nat) (v : Json) : Prop := v.Numbers ∧ v.nesting ≤ k

theorem Printable.mono {v : Json} {k' : Nat} (h : v.Printable k) (hle : k ≤ k') : v.Printable k' :=
  ⟨h.1, Nat.le_trans h.2 hle⟩

@[simp] theorem printable_bool (b : Bool) : (Json.bool b).Printable k := by
  simp [Printable, Numbers, nesting]

@[simp] theorem printable_str (s : String) : (Json.str s).Printable k := by
  simp [Printable, Numbers, nesting]

theorem printable_arr {items : List Json} (h : ∀ v ∈ items, v.Printable k) :
    (Json.arr items).Printable (k + 1) := by
  have hitems : ItemsNumbers items ∧ itemsNesting items ≤ k := by
    induction items with
    | nil => exact ⟨trivial, Nat.zero_le k⟩
    | cons v vs ih =>
      obtain ⟨hnumbers, hnesting⟩ := ih fun w hw => h w (List.mem_cons_of_mem _ hw)
      obtain ⟨hnumber, hdepth⟩ := h v List.mem_cons_self
      exact ⟨⟨hnumber, hnumbers⟩, Nat.max_le.mpr ⟨hdepth, hnesting⟩⟩
  exact ⟨hitems.1, Nat.succ_le_succ hitems.2⟩

theorem printable_obj {members : List (String × Json)} (h : ∀ m ∈ members, m.2.Printable k) :
    (Json.obj members).Printable (k + 1) := by
  have hmembers : MembersNumbers members ∧ membersNesting members ≤ k := by
    induction members with
    | nil => exact ⟨trivial, Nat.zero_le k⟩
    | cons m ms ih =>
      obtain ⟨hnumbers, hnesting⟩ := ih fun w hw => h w (List.mem_cons_of_mem _ hw)
      obtain ⟨hnumber, hdepth⟩ := h m List.mem_cons_self
      exact ⟨⟨hnumber, hnumbers⟩, Nat.max_le.mpr ⟨hdepth, hnesting⟩⟩
  exact ⟨hmembers.1, Nat.succ_le_succ hmembers.2⟩

theorem isNumber_of_digits {ds : List Char} (hne : ds ≠ []) (hdigits : ∀ c ∈ ds, isDigit c = true)
    (hzero : ds.head? = some '0' → ds.length = 1) : IsNumber (String.ofList ds) := by
  have htail : ∀ {cs : List Char}, (∀ c ∈ cs, isDigit c = true) → scanDigits cs = (cs, []) := by
    intro cs h
    rw [scanDigits, List.takeWhile_eq_self_iff.mpr h, List.dropWhile_eq_nil_iff.mpr h]
  have hint : scanInt ds = some (ds, []) := by
    cases ds with
    | nil => exact absurd rfl hne
    | cons c cs =>
      have hc := hdigits c List.mem_cons_self
      by_cases h0 : c = '0'
      · subst h0
        have hlength := hzero rfl
        obtain rfl : cs = [] := by simpa using hlength
        rfl
      · rw [scanInt, if_pos hc, htail fun d hd => hdigits d (List.mem_cons_of_mem _ hd)]
        exact h0
  have hunsigned : scanUnsigned ds = some (ds, []) := by
    simp [scanUnsigned, hint, scanFrac, scanExp]
  rw [IsNumber, String.toList_ofList, scanNumber, hunsigned]
  · rfl
  · rintro cs rfl
    exact absurd (hdigits '-' List.mem_cons_self) (by decide)

end printable

end Memoark.Json
