import Mathlib.Data.List.DropRight
import Memoark.Go.Strings
import Memoark.Js.Strings

/-! The URL parser of the browsers, on a reference that begins with a slash and against a base
address that has a host. -/
namespace Memoark.Js.Url

inductive Scheme where
  | http
  | https
  deriving DecidableEq

def Scheme.defaultPort : Scheme → Nat
  | .http => 80
  | .https => 443

structure Origin (H : Type) where
  scheme : Scheme
  host : H
  /-- `none` for the port that the scheme has by default. -/
  port : Option Nat
  deriving DecidableEq

/-- The parts of a URL record that an origin and a path name consist of. -/
structure Record (H : Type) where
  origin : Origin H
  path : List (List Char)

def Record.pathname {H : Type} (url : Record H) : List Char := url.path.flatMap ('/' :: ·)

section text

/-- The text of a lone code unit. A lone surrogate becomes the replacement character. -/
def scalar (u : UInt16) : Char :=
  if isHighSurrogate u || isLowSurrogate u then Char.ofNat 0xFFFD else Char.ofNat u.toNat

def toScalars : Units → List Char
  | [] => []
  | [u] => [scalar u]
  | u :: v :: us =>
    if isHighSurrogate u && isLowSurrogate v then
      Char.ofNat (0x10000 + (u.toNat - 0xD800) * 0x400 + (v.toNat - 0xDC00)) :: toScalars us
    else scalar u :: toScalars (v :: us)

def isC0OrSpace (c : Char) : Bool := c.toNat ≤ 0x20

def isTabOrNewline (c : Char) : Bool := c = '\t' || c = '\n' || c = '\r'

def clean (text : List Char) : List Char :=
  ((text.dropWhile isC0OrSpace).rdropWhile isC0OrSpace).filter (!isTabOrNewline ·)

def isSlash (c : Char) : Bool := c = '/' || c = '\\'

def endsPath (c : Char) : Bool := c = '?' || c = '#'

end text

section path

def inPathSet (c : Char) : Bool :=
  c.toNat < 0x20 || 0x7E < c.toNat || " \"#<>?^`\x7b\x7d".toList.contains c

def encodePathChar (c : Char) : List Char :=
  if inPathSet c then (String.utf8EncodeChar c).flatMap percentEncode else [c]

def singleDots : List (List Char) := [".".toList, "%2e".toList]

def doubleDots : List (List Char) :=
  ["..".toList, ".%2e".toList, "%2e.".toList, "%2e%2e".toList]

def lowercase (buffer : List Char) : List Char := buffer.map Char.toLower

def closeSegment (path : List (List Char)) (buffer : List Char) (slash : Bool) : List (List Char) :=
  if lowercase buffer ∈ doubleDots then
    if slash then path.dropLast else path.dropLast ++ [[]]
  else if lowercase buffer ∈ singleDots then
    if slash then path else path ++ [[]]
  else path ++ [buffer]

def pathState (path : List (List Char)) (buffer : List Char) : List Char → List (List Char)
  | [] => closeSegment path buffer false
  | c :: cs =>
    if isSlash c then pathState (closeSegment path buffer true) [] cs
    else if endsPath c then closeSegment path buffer false
    else pathState path (buffer ++ encodePathChar c) cs

end path

section states

variable {H : Type} (parseHost : List Char → Option H) (base : Origin H)

/-- The port state. The value is `none` for a failure and `some none` for the default port. -/
def portState (port : List Char) : Option (Option Nat) :=
  let n := port.foldl (fun n c => 10 * n + (c.toNat - 48)) 0
  if !port.all Char.isDigit then none
  else if port = [] then some none
  else if 65535 < n then none
  else if n = base.scheme.defaultPort then some none
  else some (some n)

def hostState (insideBrackets : Bool) (buffer : List Char) : List Char → Option (Origin H)
  | [] => if buffer = [] then none else (parseHost buffer).map fun host => ⟨base.scheme, host, none⟩
  | c :: cs =>
    if c = ':' ∧ insideBrackets = false then
      if buffer = [] then none
      else (parseHost buffer).bind fun host =>
        (portState base cs).map fun port => ⟨base.scheme, host, port⟩
    else hostState (if c = '[' then true else if c = ']' then false else insideBrackets)
      (buffer ++ [c]) cs

def endsAuthority (c : Char) : Bool := isSlash c || endsPath c

def authorityState (authority : List Char) : Option (Origin H) :=
  hostState parseHost base false [] (authority.rtakeWhile (· ≠ '@'))

def pathStart : List Char → List Char
  | [] => []
  | c :: cs => if isSlash c then cs else c :: cs

def authorityText (text : List Char) : List Char :=
  (text.dropWhile isSlash).takeWhile (!endsAuthority ·)

def pathText (text : List Char) : List Char :=
  if text.head?.any isSlash then
    pathStart ((text.dropWhile isSlash).dropWhile (!endsAuthority ·))
  else text

def relativeSlash (text : List Char) : Option (Record H) :=
  if text.head?.any isSlash then
    (authorityState parseHost base (authorityText text)).map fun origin =>
      ⟨origin, pathState [] [] (pathText text)⟩
  else some ⟨base, pathState [] [] (pathText text)⟩

/-- What a reference resolves to that begins with a slash. Other references are not modelled. -/
def resolveRooted (reference : Units) : Option (Record H) :=
  match clean (toScalars reference) with
  | '/' :: text => relativeSlash parseHost base text
  | _ => none

end states

section segments

def segments (text : List Char) : List (List Char) :=
  (text.takeWhile (!endsPath ·)).splitOnP isSlash

def remaining (path : List (List Char)) : List (List Char) → List (List Char)
  | [] => path
  | [last] => closeSegment path last false
  | segment :: rest => remaining (closeSegment path segment true) rest

def encodeSegment (segment : List Char) : List Char := segment.flatMap encodePathChar

end segments

section rooted

theorem rdropWhile_cons {α : Type} {p : α → Bool} {a : α} (h : ¬p a) (l : List α) :
    (a :: l).rdropWhile p = a :: l.rdropWhile p := by
  induction l using List.reverseRecOn with
  | nil => rw [List.rdropWhile_singleton, if_neg h, List.rdropWhile_nil]
  | append_singleton l b ih =>
    rw [← List.cons_append, List.rdropWhile_concat, List.rdropWhile_concat, ih]
    split
    · rfl
    · rfl

theorem clean_slash (text : List Char) : clean ('/' :: text) =
    '/' :: (text.rdropWhile isC0OrSpace).filter (!isTabOrNewline ·) := by
  have hslash : ¬isC0OrSpace '/' := by decide
  rw [clean, List.dropWhile_cons_of_neg hslash, rdropWhile_cons hslash,
    List.filter_cons_of_pos (by decide)]

theorem toScalars_cons {u : UInt16} (h : isHighSurrogate u = false) (us : Units) :
    toScalars (u :: us) = scalar u :: toScalars us := by
  cases us with
  | nil => rfl
  | cons v us => rw [toScalars, h, Bool.false_and, if_neg Bool.false_ne_true]

end rooted

section encoding

theorem first_octet (c : Char) : ∃ first others, String.utf8EncodeChar c = first :: others ∧
    (first.toNat = c.toNat ∨ 0x80 ≤ first.toNat) := by
  cases hencode : String.utf8EncodeChar c with
  | nil =>
    have hlen := String.length_utf8EncodeChar c
    have hpos := c.utf8Size_pos
    rw [hencode, List.length_nil] at hlen
    omega
  | cons first others =>
    have hmem : first ∈ String.utf8EncodeChar c := by
      rw [hencode]
      exact List.mem_cons_self
    exact ⟨first, others, rfl, (Go.octet_cases hmem).imp_left And.left⟩

theorem encodePathChar_of_not_mem {c : Char} (h : inPathSet c = false) : encodePathChar c = [c] := by
  rw [encodePathChar, h, if_neg Bool.false_ne_true]

theorem encodePathChar_of_mem {c : Char} (h : inPathSet c) : ∃ octet : UInt8, ∃ others,
    encodePathChar c = percentEncode octet ++ others ∧ octet.toNat ≠ 0x2E := by
  obtain ⟨first, others, hencode, hfirst⟩ := first_octet c
  refine ⟨first, others.flatMap percentEncode, ?_, ?_⟩
  · rw [encodePathChar, if_pos h, hencode, List.flatMap_cons]
  · intro hdot
    have hc : c.toNat = '.'.toNat := by
      have hcode : '.'.toNat = 0x2E := rfl
      omega
    rw [Char.toNat_inj.mp hc] at h
    exact absurd h (by decide)

theorem encodeSegment_cons (c : Char) (cs : List Char) :
    encodeSegment (c :: cs) = encodePathChar c ++ encodeSegment cs := List.flatMap_cons

def escapesDots : List Char → Bool
  | [] => true
  | c :: cs => !inPathSet c && (c ≠ '%' || cs.take 2 = ['2', 'e']) && escapesDots cs

theorem toLower_hexChar {a b : Nat} (ha : a < 16) (hb : b < 16)
    (h : [(hexChar a).toLower, (hexChar b).toLower] = ['2', 'e']) : 16 * a + b = 0x2E := by
  have hall : ∀ a b : Fin 16, [(hexChar a.val).toLower, (hexChar b.val).toLower] = ['2', 'e'] →
      16 * a.val + b.val = 0x2E := by decide
  exact hall ⟨a, ha⟩ ⟨b, hb⟩ h

theorem toLower_of_mem {c : Char} (h : inPathSet c) : c.toLower = c := by
  have hupper : ¬(65 ≤ c.toNat ∧ c.toNat ≤ 90) := by
    intro hrange
    obtain ⟨hlower, hupper⟩ := hrange
    have hall : ∀ n : Fin 26, inPathSet (Char.ofNat (65 + n.val)) = false := by decide
    have hc := hall ⟨c.toNat - 65, by omega⟩
    have hn : 65 + (c.toNat - 65) = c.toNat := by omega
    rw [hn, Char.ofNat_toNat, h] at hc
    exact Bool.noConfusion hc
  apply dif_neg
  intro hrange
  exact hupper ⟨hrange.1, hrange.2⟩

theorem lowercase_encodeSegment {s : List Char} (hs : escapesDots s) (buffer : List Char) :
    lowercase (encodeSegment buffer) = s ↔ lowercase buffer = s := by
  induction buffer generalizing s with
  | nil => rfl
  | cons c cs ih =>
    cases s with
    | nil =>
      have hne : encodePathChar c ≠ [] := by
        by_cases hc : inPathSet c = true
        · obtain ⟨octet, others, hencode, -⟩ := encodePathChar_of_mem hc
          rw [hencode]
          exact List.cons_ne_nil _ _
        · rw [encodePathChar_of_not_mem (by simpa using hc)]
          exact List.cons_ne_nil _ _
      simp [lowercase, encodeSegment_cons, hne]
    | cons d s =>
      rw [escapesDots, Bool.and_eq_true, Bool.and_eq_true] at hs
      obtain ⟨⟨hd, hescape⟩, hs⟩ := hs
      by_cases hc : inPathSet c = true
      · obtain ⟨octet, others, hencode, hdot⟩ := encodePathChar_of_mem hc
        have hsize := octet.toNat_lt
        constructor
        · intro h
          rw [encodeSegment_cons, hencode] at h
          obtain ⟨hd, h⟩ := List.cons.inj h
          have htake : s.take 2 = [(hexChar (octet.toNat / 16)).toLower,
              (hexChar (octet.toNat % 16)).toLower] := by
            rw [← h]
            rfl
          have hpercent : d = '%' := hd.symm
          rw [htake, hpercent] at hescape
          have hdigits : [(hexChar (octet.toNat / 16)).toLower,
              (hexChar (octet.toNat % 16)).toLower] = ['2', 'e'] := by simpa using hescape
          have hvalue := toLower_hexChar (by omega) (by omega) hdigits
          omega
        · intro h
          obtain ⟨hhead, -⟩ := List.cons.inj h
          rw [← hhead, toLower_of_mem hc, hc] at hd
          exact Bool.noConfusion hd
      · rw [encodeSegment_cons, encodePathChar_of_not_mem (by simpa using hc)]
        show c.toLower :: lowercase (encodeSegment cs) = d :: s ↔ c.toLower :: lowercase cs = d :: s
        rw [List.cons.injEq, List.cons.injEq, ih hs]

theorem doubleDots_encodeSegment (buffer : List Char) :
    lowercase (encodeSegment buffer) ∈ doubleDots ↔ lowercase buffer ∈ doubleDots := by
  have hdots : ∀ s ∈ doubleDots, escapesDots s := by decide
  constructor
  · intro h
    exact (lowercase_encodeSegment (hdots _ h) buffer).mp rfl ▸ h
  · intro h
    exact (lowercase_encodeSegment (hdots _ h) buffer).mpr rfl ▸ h

theorem singleDots_encodeSegment (buffer : List Char) :
    lowercase (encodeSegment buffer) ∈ singleDots ↔ lowercase buffer ∈ singleDots := by
  have hdots : ∀ s ∈ singleDots, escapesDots s := by decide
  constructor
  · intro h
    exact (lowercase_encodeSegment (hdots _ h) buffer).mp rfl ▸ h
  · intro h
    exact (lowercase_encodeSegment (hdots _ h) buffer).mpr rfl ▸ h

theorem encodeSegment_of_not_mem {cs : List Char} (h : '%' ∉ encodeSegment cs) :
    encodeSegment cs = cs := by
  induction cs with
  | nil => rfl
  | cons c cs ih =>
    rw [encodeSegment_cons] at h ⊢
    rw [List.mem_append, not_or] at h
    by_cases hc : inPathSet c = true
    · obtain ⟨octet, others, hencode, -⟩ := encodePathChar_of_mem hc
      rw [hencode] at h
      exact absurd (List.mem_append_left others List.mem_cons_self) h.1
    · rw [encodePathChar_of_not_mem (by simpa using hc), ih h.2]
      rfl

theorem slash_mem_encodeSegment {cs : List Char} (h : '/' ∈ encodeSegment cs) : '/' ∈ cs := by
  obtain ⟨c, hc, hslash⟩ := List.mem_flatMap.mp h
  unfold encodePathChar at hslash
  split at hslash
  · obtain ⟨octet, -, hmem⟩ := List.mem_flatMap.mp hslash
    have hsize := octet.toNat_lt
    have hhex : ∀ n : Fin 16, '/' ≠ hexChar n.val := by decide
    have hhigh := hhex ⟨octet.toNat / 16, by omega⟩
    have hlow := hhex ⟨octet.toNat % 16, by omega⟩
    simp [percentEncode, hhigh, hlow] at hmem
  · rw [List.mem_singleton.mp hslash]
    exact hc

end encoding

section run

variable {path : List (List Char)} {buffer : List Char}

theorem closeSegment_encode (path : List (List Char)) (buffer : List Char) (slash : Bool) :
    closeSegment (path.map encodeSegment) (encodeSegment buffer) slash =
      (closeSegment path buffer slash).map encodeSegment := by
  have hempty : [([] : List Char)] = [[]].map encodeSegment := rfl
  unfold closeSegment
  rw [if_congr (doubleDots_encodeSegment buffer) rfl rfl,
    if_congr (singleDots_encodeSegment buffer) rfl rfl]
  split
  · cases slash with
    | true => exact List.map_dropLast.symm
    | false =>
      show (path.map encodeSegment).dropLast ++ [[]] = (path.dropLast ++ [[]]).map encodeSegment
      rw [List.map_append, List.map_dropLast, ← hempty]
  · split
    · cases slash with
      | true => rfl
      | false =>
        show path.map encodeSegment ++ [[]] = (path ++ [[]]).map encodeSegment
        rw [List.map_append, ← hempty]
    · rw [List.map_append, List.map_singleton]

theorem segments_slash {c : Char} (h : isSlash c) (cs : List Char) :
    segments (c :: cs) = [] :: segments cs := by
  have hpath : (!endsPath c) = true := by
    have hc : c = '/' ∨ c = '\\' := by simpa [isSlash] using h
    rcases hc with rfl | rfl
    · decide
    · decide
  rw [segments, List.takeWhile_cons, if_pos hpath, List.splitOnP_cons_eq_if_modifyHead,
    if_pos h]
  rfl

theorem segments_end {c : Char} (h : endsPath c) (cs : List Char) : segments (c :: cs) = [[]] := by
  have hpath : ¬(!endsPath c) = true := by simp [h]
  rw [segments, List.takeWhile_cons, if_neg hpath]
  rfl

theorem segments_char {c : Char} (hslash : isSlash c = false) (hpath : endsPath c = false)
    (cs : List Char) : segments (c :: cs) = (segments cs).modifyHead (c :: ·) := by
  have hpath : (!endsPath c) = true := by simp [hpath]
  rw [segments, List.takeWhile_cons, if_pos hpath, List.splitOnP_cons_eq_if_modifyHead,
    hslash, if_neg Bool.false_ne_true]
  rfl

theorem segments_ne_nil (text : List Char) : segments text ≠ [] := List.splitOnP_ne_nil _ _

theorem remaining_cons {path : List (List Char)} (segment : List Char) {rest : List (List Char)}
    (h : rest ≠ []) :
    remaining path (segment :: rest) = remaining (closeSegment path segment true) rest := by
  cases rest with
  | nil => exact absurd rfl h
  | cons segment' rest => rfl

theorem pathState_eq (path : List (List Char)) (buffer text : List Char) :
    pathState (path.map encodeSegment) (encodeSegment buffer) text =
      (remaining path ((segments text).modifyHead (buffer ++ ·))).map encodeSegment := by
  induction text generalizing path buffer with
  | nil =>
    have hsegments : (segments []).modifyHead (buffer ++ ·) = [buffer] := by
      show [buffer ++ []] = [buffer]
      rw [List.append_nil]
    rw [hsegments]
    exact closeSegment_encode path buffer false
  | cons c cs ih =>
    rw [pathState]
    by_cases hslash : isSlash c = true
    · have hrest := ih (closeSegment path buffer true) []
      have hid : (segments cs).modifyHead (([] : List Char) ++ ·) = segments cs := by
        cases segments cs with
        | nil => rfl
        | cons segment rest => rfl
      have hhead : (segments (c :: cs)).modifyHead (buffer ++ ·) = buffer :: segments cs := by
        rw [segments_slash hslash, List.modifyHead_cons, List.append_nil]
      rw [hid] at hrest
      rw [if_pos hslash, closeSegment_encode, hhead, remaining_cons buffer (segments_ne_nil cs)]
      exact hrest
    · rw [if_neg hslash]
      by_cases hend : endsPath c = true
      · have hhead : (segments (c :: cs)).modifyHead (buffer ++ ·) = [buffer] := by
          rw [segments_end hend, List.modifyHead_cons, List.append_nil]
        rw [if_pos hend, hhead]
        exact closeSegment_encode path buffer false
      · have hencode : encodeSegment buffer ++ encodePathChar c = encodeSegment (buffer ++ [c]) := by
          rw [encodeSegment, encodeSegment, List.flatMap_append, List.flatMap_singleton]
        have hhead : (segments (c :: cs)).modifyHead (buffer ++ ·) =
            (segments cs).modifyHead (buffer ++ [c] ++ ·) := by
          rw [segments_char (by simpa using hslash) (by simpa using hend)]
          cases segments cs with
          | nil => rfl
          | cons segment rest => simp
        rw [if_neg hend, hencode, ih, hhead]

theorem pathState_nil (text : List Char) :
    pathState [] [] text = (remaining [] (segments text)).map encodeSegment := by
  have h := pathState_eq [] [] text
  have hid : (segments text).modifyHead (([] : List Char) ++ ·) = segments text := by
    cases segments text with
    | nil => rfl
    | cons segment rest => rfl
  rw [hid] at h
  exact h

end run

section slashes

theorem slash_not_mem_segments {text segment : List Char} (h : segment ∈ segments text) :
    '/' ∉ segment := by
  induction text generalizing segment with
  | nil =>
    rw [List.mem_singleton.mp h]
    exact List.not_mem_nil
  | cons c cs ih =>
    by_cases hslash : isSlash c = true
    · rw [segments_slash hslash] at h
      rcases List.mem_cons.mp h with rfl | h
      · exact List.not_mem_nil
      · exact ih h
    · by_cases hend : endsPath c = true
      · rw [segments_end hend] at h
        rw [List.mem_singleton.mp h]
        exact List.not_mem_nil
      · rw [segments_char (by simpa using hslash) (by simpa using hend)] at h
        have hc : '/' ≠ c := fun hc => hslash (hc ▸ rfl)
        cases hsegments : segments cs with
        | nil => exact absurd hsegments (segments_ne_nil cs)
        | cons first rest =>
          rw [hsegments, List.modifyHead_cons] at h
          rcases List.mem_cons.mp h with rfl | h
          · have hfirst := ih (hsegments ▸ List.mem_cons_self)
            simp [hc, hfirst]
          · exact ih (hsegments ▸ List.mem_cons_of_mem first h)

theorem mem_closeSegment {path : List (List Char)} {buffer segment : List Char} {slash : Bool}
    (h : segment ∈ closeSegment path buffer slash) : segment ∈ path ∨ segment = buffer ∨ segment = [] := by
  unfold closeSegment at h
  split at h
  · cases slash with
    | true => exact .inl (List.dropLast_subset path h)
    | false =>
      rcases List.mem_append.mp h with h | h
      · exact .inl (List.dropLast_subset path h)
      · exact .inr (.inr (List.mem_singleton.mp h))
  · split at h
    · cases slash with
      | true => exact .inl h
      | false =>
        rcases List.mem_append.mp h with h | h
        · exact .inl h
        · exact .inr (.inr (List.mem_singleton.mp h))
    · rcases List.mem_append.mp h with h | h
      · exact .inl h
      · exact .inr (.inl (List.mem_singleton.mp h))

theorem mem_remaining {path rest : List (List Char)} {segment : List Char}
    (h : segment ∈ remaining path rest) : segment ∈ path ∨ segment ∈ rest ∨ segment = [] := by
  induction rest generalizing path with
  | nil => exact .inl h
  | cons first rest ih =>
    have hclose : ∀ slash, segment ∈ closeSegment path first slash →
        segment ∈ path ∨ segment ∈ first :: rest ∨ segment = [] := by
      intro slash hmem
      rcases mem_closeSegment hmem with hmem | rfl | hmem
      · exact .inl hmem
      · exact .inr (.inl List.mem_cons_self)
      · exact .inr (.inr hmem)
    cases rest with
    | nil => exact hclose false h
    | cons second rest =>
      rcases ih h with hmem | hmem | hmem
      · exact hclose true hmem
      · exact .inr (.inl (List.mem_cons_of_mem first hmem))
      · exact .inr (.inr hmem)

theorem slash_not_mem_pathState {text segment : List Char} (h : segment ∈ pathState [] [] text) :
    '/' ∉ segment := by
  rw [pathState_nil] at h
  obtain ⟨written, hwritten, rfl⟩ := List.mem_map.mp h
  intro hslash
  have hmem := slash_mem_encodeSegment hslash
  rcases mem_remaining hwritten with hwritten | hwritten | rfl
  · cases hwritten
  · exact slash_not_mem_segments hwritten hmem
  · cases hmem

theorem takeWhile_pathname {segment : List Char} (h : '/' ∉ segment) (rest : List (List Char)) :
    (segment ++ rest.flatMap ('/' :: ·)).takeWhile (· ≠ '/') = segment := by
  have hall : ∀ c ∈ segment, decide (c ≠ '/') = true := by
    intro c hc
    exact decide_eq_true fun hslash => h (hslash ▸ hc)
  rw [List.takeWhile_append_of_pos hall]
  cases rest with
  | nil => simp
  | cons second rest => simp

def AtOrBelow (name pathname : List Char) : Prop :=
  pathname = '/' :: name ∨ '/' :: name ++ ['/'] <+: pathname

theorem atOrBelow_iff {path : List (List Char)} (hpath : ∀ segment ∈ path, '/' ∉ segment)
    {name : List Char} (hname : '/' ∉ name) :
    AtOrBelow name (path.flatMap ('/' :: ·)) ↔ path.head? = some name := by
  cases path with
  | nil => simp [AtOrBelow]
  | cons segment rest =>
    have htake := takeWhile_pathname (hpath segment List.mem_cons_self) rest
    rw [List.flatMap_cons, List.head?_cons, Option.some.injEq]
    constructor
    · rintro (h | ⟨below, h⟩)
      · have h : segment ++ rest.flatMap ('/' :: ·) = name := (List.cons.inj h).2
        have hself := takeWhile_pathname hname []
        rw [List.flatMap_nil, List.append_nil] at hself
        rw [h, hself] at htake
        exact htake.symm
      · have h : name ++ ['/'] ++ below = segment ++ rest.flatMap ('/' :: ·) := (List.cons.inj h).2
        rw [← h] at htake
        have hself : (name ++ ['/'] ++ below).takeWhile (· ≠ '/') = name := by
          have hone := takeWhile_pathname hname [below]
          rw [List.flatMap_singleton] at hone
          rwa [List.append_assoc]
        rw [hself] at htake
        exact htake.symm
    · rintro rfl
      cases rest with
      | nil =>
        left
        rw [List.flatMap_nil, List.append_nil]
      | cons second rest =>
        right
        rw [List.flatMap_cons]
        exact ⟨second ++ rest.flatMap ('/' :: ·), by simp⟩

theorem head_pathState (text : List Char) {name : List Char} (hpercent : '%' ∉ name)
    (hname : encodeSegment name = name) :
    (pathState [] [] text).head? = some name ↔ (remaining [] (segments text)).head? = some name := by
  rw [pathState_nil, List.head?_map, Option.map_eq_some_iff]
  constructor
  · rintro ⟨written, hwritten, hencode⟩
    have hself := encodeSegment_of_not_mem (hencode ▸ hpercent)
    rw [hwritten, ← hself, hencode]
  · intro h
    exact ⟨name, h, hname⟩

end slashes

end Memoark.Js.Url
