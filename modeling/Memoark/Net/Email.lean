import Memoark.Go.Time
import Memoark.Go.Strings

/-! The messages of `internal/email/message.go`: header lines, an empty line, and a body. Strings are
bytes, since nothing checks that they are UTF-8. -/
namespace Memoark.Net.Email
open Go

abbrev Bytes := List UInt8

structure Message where
  to' : List Bytes
  cc : List Bytes
  bcc : List Bytes
  subject : Bytes
  body : Bytes
  isHTML : Bool
  replyTo : Bytes

section sanitize

def spaces : List Bytes :=
  ([0x09, 0x0A, 0x0B, 0x0C, 0x0D, 0x20, 0x85, 0xA0, 0x1680, 0x2000, 0x2001, 0x2002, 0x2003, 0x2004,
    0x2005, 0x2006, 0x2007, 0x2008, 0x2009, 0x200A, 0x2028, 0x2029, 0x202F, 0x205F, 0x3000].map
      Char.ofNat).map String.utf8EncodeChar

/-- The bytes of the space that a text begins with. A byte that begins an encoding is always the
first one of its rune, so runes other than spaces need not be told apart. -/
def spaceLength (s : Bytes) : Nat := (spaces.find? (·.isPrefixOf s)).elim 0 List.length

def splitSpaces : Nat → Bytes → List Bytes
  | _, [] => [[]]
  | skip + 1, _ :: s => splitSpaces skip s
  | 0, b :: s =>
    let length := spaceLength (b :: s)
    if length = 0 then (splitSpaces 0 s).modifyHead (b :: ·) else [] :: splitSpaces (length - 1) s

def byteFields (s : Bytes) : List Bytes := (splitSpaces 0 s).filter (· ≠ [])

def join (values : List Bytes) (sep : String) : Bytes := (utf8 sep).intercalate values

def sanitizeEmailHeaderValue (value : Bytes) : Bytes :=
  let value := value.map fun b => if b = 0x0D ∨ b = 0x0A then 0x20 else b
  join (byteFields value) " "

def sanitizeEmailHeaderValues (values : List Bytes) : List Bytes :=
  values.map sanitizeEmailHeaderValue

end sanitize

section date

def shortDayNames : List String := ["Sun", "Mon", "Tue", "Wed", "Thu", "Fri", "Sat"]

def shortMonthNames : List String :=
  ["Jan", "Feb", "Mar", "Apr", "May", "Jun", "Jul", "Aug", "Sep", "Oct", "Nov", "Dec"]

def appendInt (x : Int) (width : Nat) : List Char :=
  (if x < 0 then ['-'] else []) ++ (Nat.toDigits 10 x.natAbs).leftpad width '0'

def rfc1123Z (t : Time) : List Char :=
  let zone := (t.loc.lookup t.unix).offset.tdiv 60
  (shortDayNames.getD t.weekday.toNat "").toList ++ [',', ' '] ++ appendInt t.date.day 2 ++ [' '] ++
    (shortMonthNames.getD (t.date.month - 1) "").toList ++ [' '] ++ appendInt t.date.year 4 ++
    [' '] ++ appendInt t.hour 2 ++ [':'] ++ appendInt t.minute 2 ++ [':'] ++ appendInt t.second 2 ++
    [' '] ++ [if zone < 0 then '-' else '+'] ++ appendInt (zone.natAbs / 60) 2 ++
    appendInt (zone.natAbs % 60) 2

end date

def Message.format (m : Message) (now : Time) (fromEmail fromName : Bytes) : Bytes :=
  let fromEmail := sanitizeEmailHeaderValue fromEmail
  let fromName := sanitizeEmailHeaderValue fromName
  let to' := sanitizeEmailHeaderValues m.to'
  let cc := sanitizeEmailHeaderValues m.cc
  let replyTo := sanitizeEmailHeaderValue m.replyTo
  let subject := sanitizeEmailHeaderValue m.subject
  (if fromName ≠ [] then utf8 "From: " ++ fromName ++ utf8 " <" ++ fromEmail ++ utf8 ">\r\n"
    else utf8 "From: " ++ fromEmail ++ utf8 "\r\n") ++
  (utf8 "To: " ++ join to' ", " ++ utf8 "\r\n") ++
  (if cc ≠ [] then utf8 "Cc: " ++ join cc ", " ++ utf8 "\r\n" else []) ++
  (if replyTo ≠ [] then utf8 "Reply-To: " ++ replyTo ++ utf8 "\r\n" else []) ++
  (utf8 "Subject: " ++ subject ++ utf8 "\r\n") ++
  (utf8 "Date: " ++ utf8 (String.ofList (rfc1123Z now)) ++ utf8 "\r\n") ++
  utf8 "MIME-Version: 1.0\r\n" ++
  (if m.isHTML then utf8 "Content-Type: text/html; charset=utf-8\r\n"
    else utf8 "Content-Type: text/plain; charset=utf-8\r\n") ++
  utf8 "\r\n" ++ m.body

section lines

/-- The lines of a text, which end with CR LF, CR or LF; the first argument says whether a CR is the
byte before. -/
def linesAfter : Bool → Bytes → List Bytes
  | _, [] => [[]]
  | afterCR, b :: s =>
    if b = 0x0A then if afterCR then linesAfter false s else [] :: linesAfter false s
    else if b = 0x0D then [] :: linesAfter true s
    else (linesAfter false s).modifyHead (b :: ·)

def splitLines (s : Bytes) : List Bytes := linesAfter false s

def OneLine (s : Bytes) : Prop := 0x0A ∉ s ∧ 0x0D ∉ s

instance (s : Bytes) : Decidable (OneLine s) := inferInstanceAs (Decidable (_ ∧ _))

variable {s t : Bytes}

theorem OneLine.append (hs : OneLine s) (ht : OneLine t) : OneLine (s ++ t) := by
  constructor
  · intro h
    rcases List.mem_append.mp h with h | h
    · exact hs.1 h
    · exact ht.1 h
  · intro h
    rcases List.mem_append.mp h with h | h
    · exact hs.2 h
    · exact ht.2 h

theorem splitLines_oneLine (h : OneLine s) (rest : Bytes) :
    splitLines (s ++ utf8 "\r\n" ++ rest) = s :: splitLines rest := by
  unfold splitLines
  induction s with
  | nil => rfl
  | cons b s ih =>
    have hb : b ≠ 0x0A ∧ b ≠ 0x0D :=
      ⟨fun heq => h.1 (heq ▸ List.mem_cons_self), fun heq => h.2 (heq ▸ List.mem_cons_self)⟩
    have hs : OneLine s :=
      ⟨fun hmem => h.1 (List.mem_cons_of_mem b hmem), fun hmem => h.2 (List.mem_cons_of_mem b hmem)⟩
    rw [List.cons_append, List.cons_append, linesAfter, if_neg hb.1, if_neg hb.2, ih hs,
      List.modifyHead_cons]

theorem splitLines_flatMap {lines : List Bytes} (h : ∀ s ∈ lines, OneLine s) (rest : Bytes) :
    splitLines (lines.flatMap (· ++ utf8 "\r\n") ++ rest) = lines ++ splitLines rest := by
  induction lines with
  | nil => rfl
  | cons s lines ih =>
    obtain ⟨hs, hlines⟩ := List.forall_mem_cons.mp h
    rw [List.flatMap_cons, List.append_assoc, splitLines_oneLine hs, ih hlines, List.cons_append]

end lines

section values

variable {s : Bytes} {b : UInt8}

theorem of_mem_splitSpaces {skip : Nat} {piece : Bytes} (h : piece ∈ splitSpaces skip s)
    (hb : b ∈ piece) : b ∈ s := by
  induction s generalizing skip piece with
  | nil =>
    have hnil : piece ∈ [[]] := by
      cases skip <;> exact h
    rw [List.mem_singleton.mp hnil] at hb
    cases hb
  | cons c s ih =>
    cases skip with
    | succ skip =>
      rw [splitSpaces] at h
      exact List.mem_cons_of_mem c (ih h hb)
    | zero =>
      rw [splitSpaces] at h
      split at h
      · cases hsplit : splitSpaces 0 s with
        | nil =>
          rw [hsplit] at h
          cases h
        | cons head tail =>
          rw [hsplit, List.modifyHead_cons] at h
          rcases List.mem_cons.mp h with rfl | htail
          · rcases List.mem_cons.mp hb with rfl | hhead
            · exact List.mem_cons_self
            · exact List.mem_cons_of_mem c (ih (hsplit ▸ List.mem_cons_self) hhead)
          · exact List.mem_cons_of_mem c (ih (hsplit ▸ List.mem_cons_of_mem head htail) hb)
      · rcases List.mem_cons.mp h with rfl | htail
        · cases hb
        · exact List.mem_cons_of_mem c (ih htail hb)

theorem oneLine_join {values : List Bytes} {sep : String} (hsep : OneLine (utf8 sep))
    (h : ∀ value ∈ values, OneLine value) : OneLine (join values sep) := by
  unfold join
  induction values with
  | nil => exact ⟨List.not_mem_nil, List.not_mem_nil⟩
  | cons value values ih =>
    obtain ⟨hvalue, hvalues⟩ := List.forall_mem_cons.mp h
    cases values with
    | nil =>
      rw [List.intercalate_singleton]
      exact hvalue
    | cons next values =>
      rw [List.intercalate_cons_cons]
      exact (hvalue.append hsep).append (ih hvalues)

theorem oneLine_sanitize (value : Bytes) : OneLine (sanitizeEmailHeaderValue value) := by
  apply oneLine_join (by decide)
  intro field hfield
  have hbyte : ∀ b ∈ field, b ≠ 0x0A ∧ b ≠ 0x0D := by
    intro b hb
    obtain ⟨c, -, rfl⟩ := List.mem_map.mp (of_mem_splitSpaces (List.mem_filter.mp hfield).1 hb)
    split
    · decide
    · rename_i hne
      rw [not_or] at hne
      exact hne.symm
  exact ⟨fun h => (hbyte _ h).1 rfl, fun h => (hbyte _ h).2 rfl⟩

example : sanitizeEmailHeaderValue (utf8 " Ada\u2028\r\nBcc: eve@\u00a0") = utf8 "Ada Bcc: eve@" := by
  decide +kernel

theorem oneLine_sanitizeValues (values : List Bytes) :
    OneLine (join (sanitizeEmailHeaderValues values) ", ") := by
  apply oneLine_join (by decide)
  intro value hvalue
  obtain ⟨raw, -, rfl⟩ := List.mem_map.mp hvalue
  exact oneLine_sanitize raw

def isPrintable (c : Char) : Bool := 0x20 ≤ c.toNat

theorem oneLine_utf8 {cs : List Char} (h : cs.all isPrintable) :
    OneLine (utf8 (String.ofList cs)) := by
  have hbyte : ∀ b ∈ utf8 (String.ofList cs), 0x20 ≤ b.toNat := by
    intro b hb
    rw [utf8, String.toList_ofList] at hb
    obtain ⟨c, hc, hbc⟩ := List.mem_flatMap.mp hb
    have hprintable : 0x20 ≤ c.toNat := of_decide_eq_true (List.all_eq_true.mp h c hc)
    rcases octet_cases hbc with ⟨heq, -⟩ | hlarge
    · omega
    · omega
  exact ⟨fun h => absurd (hbyte _ h) (by decide), fun h => absurd (hbyte _ h) (by decide)⟩

theorem all_appendInt (x : Int) (width : Nat) : (appendInt x width).all isPrintable := by
  have hdigits : (Nat.toDigits 10 x.natAbs).all isPrintable := by
    apply List.all_eq_true.mpr
    intro c hc
    have hrange := Char.isDigit_iff_toNat.mp
      (Nat.isDigit_of_mem_toDigits (by decide) (by decide) hc)
    have hzero : '0'.toNat = 0x30 := rfl
    exact decide_eq_true (by omega)
  have hzeros : ∀ n, (List.replicate n '0').all isPrintable := by
    intro n
    apply List.all_eq_true.mpr
    intro c hc
    rw [List.eq_of_mem_replicate hc]
    rfl
  unfold appendInt List.leftpad
  rw [List.all_append, List.all_append, hzeros, hdigits]
  split <;> rfl

theorem all_getD {names : List String} (h : names.all fun name => name.toList.all isPrintable)
    (n : Nat) : (names.getD n "").toList.all isPrintable := by
  rw [List.getD_eq_getElem?_getD]
  cases hget : names[n]? with
  | none => rfl
  | some name => exact List.all_eq_true.mp h name (List.mem_of_getElem? hget)

theorem oneLine_date (t : Time) : OneLine (utf8 (String.ofList (rfc1123Z t))) := by
  have hday := @all_getD shortDayNames rfl t.weekday.toNat
  have hmonth := @all_getD shortMonthNames rfl (t.date.month - 1)
  apply oneLine_utf8
  unfold rfc1123Z
  dsimp only
  simp only [List.all_append, all_appendInt, hday, hmonth, Bool.true_and, Bool.and_true]
  split <;> rfl

end values

section headers

def Message.headers (m : Message) (now : Time) (fromEmail fromName : Bytes) :
    List (String × Bytes) :=
  let fromEmail := sanitizeEmailHeaderValue fromEmail
  let fromName := sanitizeEmailHeaderValue fromName
  let replyTo := sanitizeEmailHeaderValue m.replyTo
  [("From", if fromName ≠ [] then fromName ++ utf8 " <" ++ fromEmail ++ utf8 ">" else fromEmail),
    ("To", join (sanitizeEmailHeaderValues m.to') ", ")] ++
  (if m.cc ≠ [] then [("Cc", join (sanitizeEmailHeaderValues m.cc) ", ")] else []) ++
  (if replyTo ≠ [] then [("Reply-To", replyTo)] else []) ++
  [("Subject", sanitizeEmailHeaderValue m.subject),
    ("Date", utf8 (String.ofList (rfc1123Z now))),
    ("MIME-Version", utf8 "1.0"),
    ("Content-Type", if m.isHTML then utf8 "text/html; charset=utf-8"
      else utf8 "text/plain; charset=utf-8")]

def headerLine (header : String × Bytes) : Bytes := utf8 header.1 ++ utf8 ": " ++ header.2

variable {m : Message} {now : Time} {fromEmail fromName : Bytes}

theorem headerLine_oneLine {name : String} {value : Bytes} (hname : OneLine (utf8 name))
    (hvalue : OneLine value) : OneLine (headerLine (name, value)) :=
  (hname.append (by decide)).append hvalue

theorem headers_oneLine {header : String × Bytes}
    (h : header ∈ m.headers now fromEmail fromName) : OneLine (headerLine header) := by
  unfold Message.headers at h
  dsimp only at h
  simp only [List.mem_append, List.mem_cons, List.not_mem_nil, or_false] at h
  rcases h with (((rfl | rfl) | h) | h) | rfl | rfl | rfl | rfl
  · apply headerLine_oneLine (by decide)
    split
    · have hopen := (oneLine_sanitize fromName).append (show OneLine (utf8 " <") by decide)
      exact (hopen.append (oneLine_sanitize fromEmail)).append (by decide)
    · exact oneLine_sanitize fromEmail
  · exact headerLine_oneLine (by decide) (oneLine_sanitizeValues m.to')
  · obtain ⟨-, h⟩ := List.mem_ite_nil_right.mp h
    rw [List.mem_singleton.mp h]
    exact headerLine_oneLine (by decide) (oneLine_sanitizeValues m.cc)
  · obtain ⟨-, h⟩ := List.mem_ite_nil_right.mp h
    rw [List.mem_singleton.mp h]
    exact headerLine_oneLine (by decide) (oneLine_sanitize m.replyTo)
  · exact headerLine_oneLine (by decide) (oneLine_sanitize m.subject)
  · exact headerLine_oneLine (by decide) (oneLine_date now)
  · exact headerLine_oneLine (by decide +kernel) (by decide)
  · apply headerLine_oneLine (by decide +kernel)
    split
    · decide +kernel
    · decide +kernel

theorem format_eq : m.format now fromEmail fromName =
    ((m.headers now fromEmail fromName).map headerLine).flatMap (· ++ utf8 "\r\n") ++
      (utf8 "\r\n" ++ m.body) := by
  have hcc : sanitizeEmailHeaderValues m.cc ≠ [] ↔ m.cc ≠ [] := not_congr List.map_eq_nil_iff
  have hfrom : utf8 "From: " = utf8 "From" ++ utf8 ": " := rfl
  have hend : utf8 ">\r\n" = utf8 ">" ++ utf8 "\r\n" := rfl
  have hto : utf8 "To: " = utf8 "To" ++ utf8 ": " := rfl
  have hccName : utf8 "Cc: " = utf8 "Cc" ++ utf8 ": " := rfl
  have hreplyTo : utf8 "Reply-To: " = utf8 "Reply-To" ++ utf8 ": " := rfl
  have hsubject : utf8 "Subject: " = utf8 "Subject" ++ utf8 ": " := rfl
  have hdate : utf8 "Date: " = utf8 "Date" ++ utf8 ": " := rfl
  have hmime : utf8 "MIME-Version: 1.0\r\n" =
      utf8 "MIME-Version" ++ utf8 ": " ++ utf8 "1.0" ++ utf8 "\r\n" := rfl
  have hhtml : utf8 "Content-Type: text/html; charset=utf-8\r\n" =
      utf8 "Content-Type" ++ utf8 ": " ++ utf8 "text/html; charset=utf-8" ++ utf8 "\r\n" := rfl
  have hplain : utf8 "Content-Type: text/plain; charset=utf-8\r\n" =
      utf8 "Content-Type" ++ utf8 ": " ++ utf8 "text/plain; charset=utf-8" ++ utf8 "\r\n" := rfl
  unfold Message.format Message.headers headerLine
  simp only [hcc, hfrom, hend, hto, hccName, hreplyTo, hsubject, hdate, hmime, hhtml, hplain]
  by_cases hname : sanitizeEmailHeaderValue fromName = [] <;> by_cases hc : m.cc = [] <;>
    by_cases hreply : sanitizeEmailHeaderValue m.replyTo = [] <;> cases m.isHTML <;>
      simp [hname, hc, hreply]

/-- Split into lines, the text has one line for each header, an empty line, and the lines of the
body; nothing that is put into a header adds a line. -/
theorem format_lines (m : Message) (now : Time) (fromEmail fromName : Bytes) :
    (m.headers now fromEmail fromName).map Prod.fst =
      ["From", "To"] ++ (if m.cc ≠ [] then ["Cc"] else []) ++
        (if sanitizeEmailHeaderValue m.replyTo ≠ [] then ["Reply-To"] else []) ++
        ["Subject", "Date", "MIME-Version", "Content-Type"] ∧
    splitLines (m.format now fromEmail fromName) =
      (m.headers now fromEmail fromName).map headerLine ++ [] :: splitLines m.body ∧
    m.format now fromEmail fromName =
      ((m.headers now fromEmail fromName).map headerLine).flatMap (· ++ utf8 "\r\n") ++
        (utf8 "\r\n" ++ m.body) := by
  refine ⟨?_, ?_, format_eq⟩
  · unfold Message.headers
    simp only [List.map_append, List.map_cons, List.map_nil, apply_ite (List.map Prod.fst)]
  · rw [format_eq, splitLines_flatMap]
    · rfl
    · intro s hs
      obtain ⟨header, hheader, rfl⟩ := List.mem_map.mp hs
      exact headers_oneLine hheader

end headers

end Memoark.Net.Email
