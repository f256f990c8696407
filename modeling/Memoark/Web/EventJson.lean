import Memoark.Js.JsonFuel
import Memoark.Js.JsonRoundTrip
import Memoark.Server.SseHub

/-! `JSON.parse` of the events that `json.Marshal` writes. -/
namespace Memoark.Web
open Js Server.Sse

def eventObject (e : SSEEvent) : JsonValue :=
  .obj ([(utf16 "type", .str (utf16 e.type.text)), (utf16 "name", .str (utf16 e.name))] ++
    if e.parent = "" then [] else [(utf16 "parent", .str (utf16 e.parent))])

theorem utf16_append (s t : String) : utf16 (s ++ t) = utf16 s ++ utf16 t := by
  rw [utf16, String.toList_append, List.flatMap_append]
  rfl

section strings

variable {rest s r : Units}

theorem scanString_push {u : UInt16} {us : Units} (h : scanString us = some (s, r)) :
    push (some u) (scanString us) = some (u :: s, r) := by
  rw [h]
  rfl

theorem scanString_char {c : Char} (hquote : c ≠ '"') (hslash : c ≠ '\\') (hcontrol : 32 ≤ c.toNat)
    (h : scanString rest = some (s, r)) :
    scanString (charUnits c ++ rest) = some (charUnits c ++ s, r) := by
  have hvalid := toNat_lt_of_valid c
  unfold charUnits
  split
  · rename_i hsmall
    have hne : ∀ d : Char, d.toNat < 128 → c ≠ d → UInt16.ofNat c.toNat ≠ ascii d := by
      intro d hd hcd heq
      have hnat := congrArg UInt16.toNat heq
      rw [ascii, toNat_ofNat_lt hsmall, toNat_ofNat_lt (by omega)] at hnat
      exact hcd (Char.toNat_inj.mp hnat)
    rw [List.singleton_append, scanString_plain (hne '"' (by decide) hquote)
      (hne '\\' (by decide) hslash) (by rw [toNat_ofNat_lt hsmall]; exact hcontrol)]
    exact scanString_push h
  · have hhigh : isHighSurrogate (UInt16.ofNat (0xD800 + (c.toNat - 0x10000) / 0x400)) = true := by
      rw [isHighSurrogate, toNat_ofNat_lt (by omega), Bool.and_eq_true, decide_eq_true_eq,
        decide_eq_true_eq]
      omega
    have hlow : isLowSurrogate (UInt16.ofNat (0xDC00 + (c.toNat - 0x10000) % 0x400)) = true := by
      rw [isLowSurrogate, toNat_ofNat_lt (by omega), Bool.and_eq_true, decide_eq_true_eq,
        decide_eq_true_eq]
      omega
    rw [List.cons_append, List.singleton_append, scanString_surrogate (.inl hhigh)]
    refine scanString_push ?_
    rw [scanString_surrogate (.inr hlow)]
    exact scanString_push h

theorem units_escaped : ∀ n < 64, ['\\', 'u', '0', '0', Nat.digitChar (n / 16),
    Nat.digitChar (n % 16)].flatMap charUnits = escapedUnit (UInt16.ofNat n) := by decide

theorem scanString_escaped {c : Char} {text : List Char} (hc : c.toNat < 0x10000)
    (htext : text.flatMap charUnits = escapedUnit (UInt16.ofNat c.toNat))
    (h : scanString rest = some (s, r)) :
    scanString (text.flatMap charUnits ++ rest) = some (charUnits c ++ s, r) := by
  rw [htext, scanString_unicode, charUnits, if_pos hc]
  exact scanString_push h

theorem scanString_short {c : Char} {e : UInt16} {text : List Char}
    (htext : text.flatMap charUnits = [ascii '\\', e]) (he : e ≠ ascii 'u')
    (hc : (unescape e).map ([·]) = some (charUnits c)) (h : scanString rest = some (s, r)) :
    scanString (text.flatMap charUnits ++ rest) = some (charUnits c ++ s, r) := by
  obtain ⟨u, hu, huc⟩ := Option.map_eq_some_iff.mp hc
  rw [htext, List.cons_append, List.singleton_append, scanString_escape he, hu, ← huc]
  exact scanString_push h

/-- What is written for a character: two characters, an escape with four digits, or itself. -/
theorem escape_cases (c : Char) :
    (∃ e, escape c = ['\\', e] ∧ e ≠ '\n' ∧ charUnits e = [ascii e] ∧ ascii e ≠ ascii 'u' ∧
      (unescape (ascii e)).map ([·]) = some (charUnits c)) ∨
    (c.toNat < 0x10000 ∧ '\n' ∉ escape c ∧
      (escape c).flatMap charUnits = escapedUnit (UInt16.ofNat c.toNat)) ∨
    (escape c = [c] ∧ c ≠ '"' ∧ c ≠ '\\' ∧ c ≠ '\n' ∧ 32 ≤ c.toNat) := by
  by_cases hquote : c = '"'
  · subst hquote
    exact .inl ⟨'"', rfl, by decide, rfl, by decide, rfl⟩
  by_cases hslash : c = '\\'
  · subst hslash
    exact .inl ⟨'\\', rfl, by decide, rfl, by decide, rfl⟩
  by_cases hb : c = '\x08'
  · subst hb
    exact .inl ⟨'b', rfl, by decide, rfl, by decide, rfl⟩
  by_cases hf : c = '\x0c'
  · subst hf
    exact .inl ⟨'f', rfl, by decide, rfl, by decide, rfl⟩
  by_cases hn : c = '\n'
  · subst hn
    exact .inl ⟨'n', rfl, by decide, rfl, by decide, rfl⟩
  by_cases hr : c = '\r'
  · subst hr
    exact .inl ⟨'r', rfl, by decide, rfl, by decide, rfl⟩
  by_cases ht : c = '\t'
  · subst ht
    exact .inl ⟨'t', rfl, by decide, rfl, by decide, rfl⟩
  right
  have hother : escape c = if c.toNat < 32 ∨ c ∈ ['<', '>', '&'] then
        ['\\', 'u', '0', '0', Nat.digitChar (c.toNat / 16), Nat.digitChar (c.toNat % 16)]
      else if c.toNat = 0x2028 then "\\u2028".toList
      else if c.toNat = 0x2029 then "\\u2029".toList
      else [c] := by
    rw [escape, if_neg hquote, if_neg hslash, if_neg hb, if_neg hf, if_neg hn, if_neg hr, if_neg ht]
  by_cases hcontrol : c.toNat < 32 ∨ c ∈ ['<', '>', '&']
  · have hsmall : c.toNat < 64 := by
      rcases hcontrol with hcontrol | hmem
      · omega
      · simp only [List.mem_cons, List.not_mem_nil, or_false] at hmem
        rcases hmem with rfl | rfl | rfl <;> decide
    have hdigits : ∀ n < 64, '\n' ∉ ['\\', 'u', '0', '0', Nat.digitChar (n / 16),
        Nat.digitChar (n % 16)] := by decide
    left
    rw [hother, if_pos hcontrol]
    exact ⟨by omega, hdigits _ hsmall, units_escaped _ hsmall⟩
  rw [if_neg hcontrol] at hother
  by_cases h2028 : c.toNat = 0x2028
  · left
    rw [hother, if_pos h2028, h2028]
    decide
  rw [if_neg h2028] at hother
  by_cases h2029 : c.toNat = 0x2029
  · left
    rw [hother, if_pos h2029, h2029]
    decide
  rw [if_neg h2029] at hother
  exact .inr ⟨hother, hquote, hslash, hn, by omega⟩

theorem scanString_marshal (c : Char) (h : scanString rest = some (s, r)) :
    scanString ((escape c).flatMap charUnits ++ rest) = some (charUnits c ++ s, r) := by
  rcases escape_cases c with ⟨e, hescape, -, hunit, hu, hunescape⟩ | ⟨hsmall, -, hescape⟩ |
    ⟨hescape, hquote, hslash, -, hcontrol⟩
  · have hunits : ['\\', e].flatMap charUnits = [ascii '\\', ascii e] := by
      rw [List.flatMap_cons, List.flatMap_singleton, hunit]
      rfl
    rw [hescape]
    exact scanString_short hunits hu hunescape h
  · exact scanString_escaped hsmall hescape h
  · rw [hescape, List.flatMap_singleton]
    exact scanString_char hquote hslash hcontrol h

theorem scanString_text (cs : List Char) (rest : Units) :
    scanString ((cs.flatMap escape).flatMap charUnits ++ ascii '"' :: rest) =
      some (cs.flatMap charUnits, rest) := by
  induction cs with
  | nil =>
    rw [List.flatMap_nil, List.flatMap_nil, List.nil_append, scanString.eq_def]
    exact if_pos rfl
  | cons c cs ih =>
    rw [List.flatMap_cons, List.flatMap_append, List.append_assoc]
    exact scanString_marshal c ih

theorem utf16_marshalString (s : String) : utf16 (marshalString s) =
    ascii '"' :: ((s.toList.flatMap escape).flatMap charUnits ++ [ascii '"']) := by
  rw [utf16, marshalString, String.toList_ofList, List.cons_append, List.flatMap_cons,
    List.flatMap_append]
  rfl

end strings

section object

variable {fuel : Nat} {rest : Units}

theorem parseValue_string (s : String) (rest : Units) :
    parseValue (fuel + 1) (utf16 (marshalString s) ++ rest) = some (.str (utf16 s), rest) := by
  rw [utf16_marshalString, List.cons_append, List.append_assoc, parseValue,
    skipSpace_cons (by decide)]
  dsimp only
  rw [if_pos rfl, List.singleton_append, scanString_text]
  rfl

theorem parseMembers_string {text key : Units} (hkey : ∀ us, scanKey (text ++ us) = some (key, us))
    (s : String) (rest : Units) :
    parseMembers (fuel + 2) (text ++ (utf16 (marshalString s) ++ rest)) =
      match skipToken ',' rest with
      | some rest =>
        (parseMembers (fuel + 1) rest).map fun (ms, rest) => ((key, .str (utf16 s)) :: ms, rest)
      | none => (skipToken '\x7d' rest).map fun rest => ([(key, .str (utf16 s))], rest) := by
  have hvalue : parseValue (fuel + 1) (utf16 (marshalString s) ++ rest) =
      some (.str (utf16 s), rest) := parseValue_string s rest
  rw [parseMembers, hkey]
  dsimp only
  generalize parseValue (fuel + 1) (utf16 (marshalString s) ++ rest) = value at hvalue ⊢
  subst hvalue
  rfl

theorem scanKey_text {text : Units} (key : Units) (htext : text = quoteJSONString key ++ [ascii ':'])
    (us : Units) : scanKey (text ++ us) = some (key, us) := by
  rw [htext, List.append_assoc]
  exact scanKey_quote key us

theorem skipToken_comma (us : Units) : skipToken ',' (ascii ',' :: us) = some us :=
  skipToken_self (by decide) us

theorem skipToken_close (us : Units) : skipToken '\x7d' (ascii '\x7d' :: us) = some us :=
  skipToken_self (by decide) us

theorem skipToken_comma_close (us : Units) : skipToken ',' (ascii '\x7d' :: us) = none :=
  skipToken_other (by decide) (by decide) us

def parentText (e : SSEEvent) : Units :=
  if e.parent = "" then [ascii '\x7d']
  else ascii ',' :: (utf16 "\"parent\":" ++ (utf16 (marshalString e.parent) ++ [ascii '\x7d']))

theorem utf16_JSON (e : SSEEvent) : utf16 e.JSON =
    ascii '\x7b' :: (utf16 "\"type\":" ++ (utf16 (marshalString e.type.text) ++
      (ascii ',' :: (utf16 "\"name\":" ++ (utf16 (marshalString e.name) ++ parentText e))))) := by
  have htype : utf16 "\x7b\"type\":" = ascii '\x7b' :: utf16 "\"type\":" := rfl
  have hname : utf16 ",\"name\":" = ascii ',' :: utf16 "\"name\":" := rfl
  have hparent : utf16 ",\"parent\":" = ascii ',' :: utf16 "\"parent\":" := rfl
  have hclose : utf16 "\x7d" = [ascii '\x7d'] := rfl
  rw [SSEEvent.JSON, parentText]
  split
  · simp only [utf16_append, htype, hname, hclose, List.cons_append, List.append_assoc]
    rfl
  · simp only [utf16_append, htype, hname, hparent, hclose, List.cons_append, List.append_assoc]

theorem parseMembers_name (e : SSEEvent) (fuel : Nat) :
    parseMembers (fuel + 3) (utf16 "\"name\":" ++ (utf16 (marshalString e.name) ++ parentText e)) =
      some ((utf16 "name", .str (utf16 e.name)) ::
        (if e.parent = "" then [] else [(utf16 "parent", .str (utf16 e.parent))]), []) := by
  rw [parseMembers_string (scanKey_text (utf16 "name") (by decide)), parentText]
  by_cases hparent : e.parent = ""
  · rw [if_pos hparent, if_pos hparent, skipToken_comma_close, skipToken_close]
    rfl
  · rw [if_neg hparent, if_neg hparent, skipToken_comma]
    dsimp only
    rw [parseMembers_string (scanKey_text (utf16 "parent") (by decide)), skipToken_comma_close,
      skipToken_close]
    rfl

theorem jsonParse_JSON (e : SSEEvent) : jsonParse (utf16 e.JSON) = some (eventObject e) := by
  refine jsonParse_eq_some_iff.mpr ⟨[], rfl, 5, fun fuel hfuel => ?_⟩
  obtain ⟨fuel, rfl⟩ := Nat.exists_eq_add_of_le' hfuel
  have hopen : ∀ us : Units, skipToken '\x7d' (utf16 "\"type\":" ++ us) = none :=
    fun us => skipToken_other (by decide) (by decide) _
  rw [utf16_JSON, parseValue, skipSpace_cons (by decide)]
  dsimp only
  rw [if_neg (by decide), if_neg (by decide), if_pos rfl, hopen]
  dsimp only
  rw [parseMembers_string (scanKey_text (utf16 "type") (by decide)), skipToken_comma]
  dsimp only
  rw [parseMembers_name]
  rfl

end object

section lines

theorem newline_escape (c : Char) : '\n' ∉ escape c := by
  rcases escape_cases c with ⟨e, hescape, hn, -⟩ | ⟨-, hnewline, -⟩ | ⟨hescape, -, -, hn, -⟩
  · rw [hescape]
    simpa using Ne.symm hn
  · exact hnewline
  · rw [hescape]
    simpa using Ne.symm hn

theorem newline_marshalString (s : String) : '\n' ∉ (marshalString s).toList := by
  have hchars : '\n' ∉ s.toList.flatMap escape := by
    intro h
    obtain ⟨c, -, hc⟩ := List.mem_flatMap.mp h
    exact newline_escape c hc
  simp [marshalString, hchars]

theorem newline_JSON (e : SSEEvent) : '\n' ∉ e.JSON.toList := by
  have htype := newline_marshalString e.type.text
  have hname := newline_marshalString e.name
  have hparent := newline_marshalString e.parent
  unfold SSEEvent.JSON
  split <;> simp [String.toList_append, htype, hname, hparent]

end lines

end Memoark.Web
