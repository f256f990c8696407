import Mathlib.Data.List.Nodup
import Memoark.Import.Strict
import Memoark.Json.Written

/-! What becomes of the content of an entry as it is written in the export. -/
namespace Memoark.Import
open Time Program Go
open Memoark.Written (text codeUnits stringUnits Encodable)

def readWrittenText (text : List Char) : Option Written :=
  if text.all Go.isSpace then none else Json.read text

def readWritten (data : ByteArray) : Option Written :=
  (String.fromUTF8? data).bind fun text => readWrittenText text.toList

theorem readText_eq (text : List Char) :
    readText text = (readWrittenText text).bind fun w => decodeDocument w.decode := by
  unfold readText readWrittenText
  by_cases hblank : text.all Go.isSpace = true
  · rw [if_pos hblank, if_pos hblank]
    rfl
  · rw [if_neg hblank, if_neg hblank, Json.parse_eq_read, Option.bind_map]
    rfl

theorem readDocument_eq (data : ByteArray) :
    readDocument data = (readWritten data).bind fun w => decodeDocument w.decode := by
  unfold readDocument readWritten
  rw [Option.bind_assoc]
  exact congrArg _ (funext fun text => readText_eq text.toList)

def writtenItems : Written → Option (List Written)
  | .arr items => some items
  | _ => none

def lastMemos : Option (List Written) → List (List Json.Piece × Written) → Option (List Written)
  | entries, [] => entries
  | entries, (key, v) :: members =>
    if fieldOf RawDocument.fields (text key) = some "memos" then lastMemos (writtenItems v) members
    else lastMemos entries members

def writtenMemos : Written → Option (List Written)
  | .obj members => lastMemos none members
  | _ => none

theorem decodeItems_eq (items : List Written) : Written.decodeItems items = items.map (·.decode) := by
  induction items with
  | nil => rfl
  | cons item items ih => rw [Written.decodeItems, ih, List.map_cons]

theorem decode_obj {w : Written} {fields : Fields} (h : w.decode = .obj fields) :
    ∃ ms, w = Written.obj ms ∧ Written.decodeMembers ms = fields := by
  cases w with
  | obj ms => exact ⟨ms, rfl, Json.obj.inj h⟩
  | _ => cases h

theorem RawDocument.set_memos_written {d d' : RawDocument} {v : Written}
    (h : d.set "memos" v.decode = some d') :
    d'.memos = (writtenItems v).map (·.map (·.decode)) := by
  obtain ⟨p, hp, rfl⟩ := Option.map_eq_some_iff.mp h
  cases v with
  | arr items =>
    rw [Written.decode, decodeItems_eq] at hp
    exact (Option.some.inj hp).symm
  | null => exact (Option.some.inj hp).symm
  | _ => cases hp

theorem RawDocument.set_other {d d' : RawDocument} {field : String} {v : Json}
    (h : d.set field v = some d') (hfield : field ∈ RawDocument.fields) (hne : field ≠ "memos") :
    d'.memos = d.memos := by
  unfold RawDocument.set at h
  iterate 6
    split at h
    · obtain ⟨_, _, rfl⟩ := Option.map_eq_some_iff.mp h
      rfl
  simp_all [RawDocument.fields]

theorem fieldOf_mem {names : List String} {key field : String} (h : fieldOf names key = some field) :
    field ∈ names := by
  unfold fieldOf at h
  split at h
  · rename_i hmem
    exact Option.some.inj h ▸ hmem
  · exact List.mem_of_find?_eq_some h

theorem decodeMembers_memos_written {d d' : RawDocument} {entries : Option (List Written)}
    {members : List (List Json.Piece × Written)}
    (h : decodeMembers RawDocument.fields RawDocument.set d (Written.decodeMembers members) = some d')
    (hd : d.memos = entries.map (·.map (·.decode))) :
    d'.memos = (lastMemos entries members).map (·.map (·.decode)) := by
  induction members generalizing d entries with
  | nil =>
    cases h
    exact hd
  | cons member members ih =>
    obtain ⟨key, v⟩ := member
    rw [Written.decodeMembers, decodeMembers] at h
    cases hfield : fieldOf RawDocument.fields (text key) with
    | none =>
      rw [hfield] at h
      cases h
    | some field =>
      rw [hfield] at h
      dsimp only at h
      cases hset : d.set field v.decode with
      | none =>
        rw [hset] at h
        cases h
      | some d₁ =>
        rw [hset] at h
        rw [lastMemos, hfield]
        by_cases hmemos : field = "memos"
        · subst hmemos
          rw [if_pos rfl]
          exact ih h (RawDocument.set_memos_written hset)
        · rw [if_neg fun heq => hmemos (Option.some.inj heq)]
          exact ih h ((RawDocument.set_other hset (fieldOf_mem hfield) hmemos).trans hd)

theorem decodeDocument_memos_written {w : Written} {raw : RawDocument}
    (h : decodeDocument w.decode = some raw) :
    raw.memos = (writtenMemos w).map (·.map (·.decode)) := by
  cases w with
  | obj members => exact decodeMembers_memos_written h rfl
  | null =>
    cases h
    rfl
  | _ => cases h

section entry

variable {w : Written} {ms : List (List Json.Piece × Written)} {key : String} {limit : Nat}

def DistinctKeys (w : Written) : Prop := (w.members.map fun m => text m.1).Nodup

def ContentLiteral (w : Written) (pieces : List Json.Piece) : Prop :=
  ∃ key, (key, .str pieces) ∈ w.members ∧ text key = "content"

def isNonemptyString : Json → Bool
  | .str text => text ≠ ""
  | _ => false

def isComment (entry : Json) : Bool := (memberAt "parent" entry).any isNonemptyString

theorem lookup_mem {v : Json} (h : Json.lookup key (Written.decodeMembers ms) = some v) :
    ∃ m ∈ ms, text m.1 = key ∧ m.2.decode = v := by
  induction ms with
  | nil => cases h
  | cons m ms ih =>
    rw [Written.decodeMembers, Json.lookup] at h
    cases hrest : Json.lookup key (Written.decodeMembers ms) with
    | some v' =>
      rw [hrest] at h
      obtain ⟨m', hmem, hkey, hv⟩ := ih (hrest.trans h)
      exact ⟨m', List.mem_cons_of_mem _ hmem, hkey, hv⟩
    | none =>
      rw [hrest] at h
      dsimp only at h
      by_cases hkey : text m.1 = key
      · rw [if_pos hkey] at h
        exact ⟨m, List.mem_cons_self, hkey, Option.some.inj h⟩
      · rw [if_neg hkey] at h
        cases h

theorem lookup_of_distinct (h : (ms.map fun m => text m.1).Nodup)
    {m : List Json.Piece × Written} (hm : m ∈ ms) :
    Json.lookup (text m.1) (Written.decodeMembers ms) = some m.2.decode := by
  cases hlookup : Json.lookup (text m.1) (Written.decodeMembers ms) with
  | some v =>
    obtain ⟨m', hm', hkey, hv⟩ := lookup_mem hlookup
    rw [← List.inj_on_of_nodup_map h hm' hm hkey, hv]
  | none =>
    exfalso
    induction ms with
    | nil => cases hm
    | cons m' ms ih =>
      rw [Written.decodeMembers, Json.lookup] at hlookup
      cases hrest : Json.lookup (text m.1) (Written.decodeMembers ms) with
      | some v =>
        rw [hrest] at hlookup
        cases hlookup
      | none =>
        rw [hrest] at hlookup
        dsimp only at hlookup
        rcases List.mem_cons.mp hm with rfl | hm
        · rw [if_pos rfl] at hlookup
          cases hlookup
        · exact ih (List.nodup_cons.mp h).2 hm hrest

theorem parseCore_content {fields : Fields} {name state : String} {record : Record}
    (h : parseCore fields name state limit = .ok record) :
    requiredString fields "content" = .ok record.content := by
  obtain ⟨createTime, _, h⟩ := bind_ok h
  obtain ⟨updateTime, _, h⟩ := bind_ok h
  obtain ⟨content, hcontent, h⟩ := bind_ok h
  obtain ⟨_, h⟩ := check_ok h
  obtain ⟨visibility, _, h⟩ := bind_ok h
  obtain ⟨_, h⟩ := check_ok h
  obtain ⟨pinned, _, h⟩ := bind_ok h
  cases h
  exact hcontent

theorem parseRecord_content {fields : Fields} {record : Record} {comment : Bool}
    (h : (parseRecord (.obj fields) limit).result = .ok (record, comment)) :
    requiredString fields "content" = .ok record.content ∧
      comment = isComment (.obj fields) := by
  unfold parseRecord at h
  split at h
  · cases h
  · rename_i fields' name hname
    obtain ⟨hfields, -, -, -⟩ := parseName_ok hname
    obtain rfl := Json.obj.inj hfields
    split at h
    · cases h
    · split at h
      · cases h
      · split at h
        · cases h
        · rename_i hcore
          obtain ⟨_, _, h⟩ := bind_ok h
          obtain ⟨comment', hparent, h⟩ := bind_ok h
          cases h
          refine ⟨parseCore_content hcore, ?_⟩
          unfold parseParent at hparent
          rw [isComment, memberAt]
          split at hparent
          · rename_i hnone
            rw [hnone, ← Except.ok.inj hparent]
            rfl
          · rename_i hnull
            rw [hnull, ← Except.ok.inj hparent]
            rfl
          · rename_i parent hstr
            rw [hstr, ← Except.ok.inj hparent]
            rfl
          · cases hparent

theorem judge_record_iff {seen : List String} {parsed : ParsedRecord} {record : Record}
    {comment : Bool} (h : parsed.result = .ok (record, comment))
    (hnew : ¬∃ name message, judge seen parsed = .invalid name message) :
    (∃ r c, judge seen parsed = .record r c) ↔ comment = false := by
  unfold judge at hnew ⊢
  rw [h] at hnew ⊢
  dsimp only at hnew ⊢
  by_cases hseen : record.sourceName ∈ seen
  · rw [if_pos hseen] at hnew
    exact absurd ⟨_, _, rfl⟩ hnew
  · rw [if_neg hseen]
    cases comment <;> simp

theorem content_written {members : List (List Json.Piece × Written)} {content : String}
    {pieces : List Json.Piece}
    (h : requiredString (Written.decodeMembers members) "content" = .ok content)
    (hdistinct : DistinctKeys (.obj members)) (hliteral : ContentLiteral (.obj members) pieces) :
    content = text pieces := by
  obtain ⟨key, hmem, hkey⟩ := hliteral
  have hlookup : Json.lookup "content" (Written.decodeMembers members) = some (.str (text pieces)) :=
    hkey ▸ lookup_of_distinct hdistinct hmem
  rw [requiredString_str hlookup] at h
  exact (Except.ok.inj h).symm

theorem contentLiteral_unique (hdistinct : DistinctKeys w) {pieces pieces' : List Json.Piece}
    (h : ContentLiteral w pieces) (h' : ContentLiteral w pieces') : pieces = pieces' := by
  obtain ⟨key, hmem, hkey⟩ := h
  obtain ⟨key', hmem', hkey'⟩ := h'
  have hsame := List.inj_on_of_nodup_map hdistinct hmem hmem' (hkey.trans hkey'.symm)
  exact Written.str.inj (Prod.mk.inj hsame).2

theorem exists_contentLiteral {members : List (List Json.Piece × Written)} {content : String}
    (h : Json.lookup "content" (Written.decodeMembers members) = some (.str content)) :
    ∃ pieces, ContentLiteral (.obj members) pieces ∧ text pieces = content := by
  obtain ⟨⟨key, v⟩, hmem, hkey, hv⟩ := lookup_mem h
  cases v with
  | str pieces => exact ⟨pieces, ⟨key, hmem, hkey⟩, Json.str.inj hv⟩
  | _ => cases hv

end entry

section documents

variable {data : ByteArray} {doc : Written} {raw : RawDocument} {counts : RawCounts}
  {entries : List Json} {limit i : Nat} {w : Written}

structure Lossless (d : Document) (vs : List Verdict) (i : Nat) (w : Written) : Prop where
  exact : ∀ r c, vs[i]? = some (.record r c) →
    ∃ pieces, ContentLiteral w pieces ∧ codeUnits pieces = stringUnits r.content
  encodable : ∀ pieces, ContentLiteral w pieces → ¬Encodable pieces → d.CountedInvalid i
  distinct : ¬DistinctKeys w → d.CountedInvalid i

def Faithful (w : Written) : Prop :=
  DistinctKeys w ∧ ((∃ pieces, ContentLiteral w pieces ∧ Encodable pieces) ∨
    isComment w.decode ∧ nullAt "content" w.decode)

theorem read_of_not_rejected (hentry : entries[i]? = some w.decode)
    (h : ¬Rejected limit entries i w.decode) :
    ∃ ms record comment, w = Written.obj ms ∧ Acceptable limit (Written.decodeMembers ms) ∧
      (parseRecord w.decode limit).result = .ok (record, comment) ∧
      ∃ seen, (verdicts limit [] entries)[i]? = some (judge seen (parseRecord w.decode limit)) ∧
        ¬∃ name message, judge seen (parseRecord w.decode limit) = .invalid name message := by
  obtain ⟨seen, hverdict, hinvalid⟩ := verdicts_invalid_iff limit hentry
  obtain ⟨name, hname⟩ := Classical.not_not.mp (not_or.mp h).1
  obtain ⟨record, comment, hresult, -⟩ := acceptedAs_iff.mp hname
  obtain ⟨fields, hfields, hacceptable, -⟩ := hname
  obtain ⟨ms, rfl, hms⟩ := decode_obj hfields
  rw [← hms] at hacceptable
  exact ⟨ms, record, comment, rfl, hacceptable, hresult, seen, hverdict, mt hinvalid.mp h⟩

theorem lossless_of_faithful (hread : readDocument data = some raw)
    (hopened : Opened raw counts entries) (hentry : entries[i]? = some w.decode)
    (h : ¬Rejected limit entries i w.decode → Faithful w) :
    Lossless (parse data limit) (verdicts limit [] entries) i w := by
  by_cases hrejected : Rejected limit entries i w.decode
  · have hcounted := (parse_countedInvalid_iff hread hopened hentry).mpr hrejected
    refine ⟨fun r c hrecord => ?_, fun _ _ _ => hcounted, fun _ => hcounted⟩
    obtain ⟨name, message, hinvalid⟩ := ((parse_reports hread hopened limit).counted i).mp hcounted
    rw [hrecord] at hinvalid
    cases hinvalid
  · obtain ⟨hdistinct, hcontent⟩ := h hrejected
    obtain ⟨ms, record, comment, rfl, -, hresult, seen, hverdict, -⟩ :=
      read_of_not_rejected hentry hrejected
    obtain ⟨hstring, hcomment⟩ := parseRecord_content hresult
    refine ⟨fun r c hrecord => ?_, fun pieces hliteral hnot => ?_,
      fun hnot => absurd hdistinct hnot⟩
    · rw [hverdict] at hrecord
      have hresult' := (judge_record (Option.some.inj hrecord)).1
      rw [hresult] at hresult'
      obtain ⟨rfl, rfl⟩ := Prod.mk.inj (Except.ok.inj hresult')
      rcases hcontent with ⟨pieces, hliteral, hencodable⟩ | ⟨hparent, -⟩
      · refine ⟨pieces, hliteral, ?_⟩
        rw [content_written hstring hdistinct hliteral, Written.stringUnits_text hencodable]
      · exact absurd (hcomment.trans hparent) Bool.false_ne_true
    · exfalso
      rcases hcontent with ⟨pieces', hliteral', hencodable⟩ | ⟨-, hnull⟩
      · rw [contentLiteral_unique hdistinct hliteral hliteral'] at hnot
        exact hnot hencodable
      · obtain ⟨key, hmem, hkey⟩ := hliteral
        have hlookup : Json.lookup "content" (Written.decodeMembers ms) = some (.str (text pieces)) :=
          hkey ▸ lookup_of_distinct hdistinct hmem
        rw [nullAt_iff.mp hnull] at hlookup
        cases hlookup

theorem faithful_of_lossless (hread : readDocument data = some raw)
    (hopened : Opened raw counts entries) (hentry : entries[i]? = some w.decode)
    (h : Lossless (parse data limit) (verdicts limit [] entries) i w)
    (hrejected : ¬Rejected limit entries i w.decode) : Faithful w := by
  have hcounted := mt (parse_countedInvalid_iff hread hopened hentry).mp hrejected
  have hdistinct : DistinctKeys w := by
    by_contra hnot
    exact hcounted (h.distinct hnot)
  refine ⟨hdistinct, ?_⟩
  obtain ⟨ms, record, comment, rfl, hacceptable, hresult, seen, hverdict, hinvalid⟩ :=
    read_of_not_rejected hentry hrejected
  obtain ⟨-, hcomment⟩ := parseRecord_content hresult
  cases comment with
  | false =>
    obtain ⟨r, c, hrecord⟩ := (judge_record_iff hresult hinvalid).mpr rfl
    obtain ⟨pieces, hliteral, hunits⟩ := h.exact r c (hverdict.trans (congrArg some hrecord))
    exact .inl ⟨pieces, hliteral, r.content, hunits⟩
  | true =>
    rcases hacceptable.content with hnull | ⟨content, hstr, -⟩
    · exact .inr ⟨hcomment.symm, nullAt_iff.mpr hnull⟩
    · obtain ⟨pieces, hliteral, -⟩ := exists_contentLiteral hstr
      refine .inl ⟨pieces, hliteral, ?_⟩
      by_contra hnot
      exact hcounted (h.encodable pieces hliteral hnot)

/-- Exactly when nothing of an entry is lost. -/
theorem parse_lossless_iff (hwritten : readWritten data = some doc)
    (hraw : decodeDocument doc.decode = some raw) (hopened : Opened raw counts entries)
    (limit : Int) : ∃ ws, writtenMemos doc = some ws ∧ ws.map (·.decode) = entries ∧
      (parse data limit.toNat).Reports (verdicts limit.toNat [] entries) ∧
      ∀ i w, ws[i]? = some w →
        (Lossless (parse data limit.toNat) (verdicts limit.toNat [] entries) i w ↔
          (¬Rejected limit.toNat entries i w.decode → Faithful w)) := by
  have hread : readDocument data = some raw := by
    rw [readDocument_eq, hwritten, Option.bind_some, hraw]
  have hmemos := decodeDocument_memos_written hraw
  rw [hopened.memos] at hmemos
  obtain ⟨ws, hws, hmap⟩ := Option.map_eq_some_iff.mp hmemos.symm
  refine ⟨ws, hws, hmap, parse_reports hread hopened limit.toNat, fun i w hw => ?_⟩
  have hentry : entries[i]? = some w.decode := by
    rw [← hmap, List.getElem?_map, hw, Option.map_some]
  exact ⟨faithful_of_lossless hread hopened hentry, lossless_of_faithful hread hopened hentry⟩

end documents

section tests

def isEncodable : Written → Bool
  | .str pieces => stringUnits (text pieces) = codeUnits pieces
  | _ => false

def isFaithful (w : Written) : Bool :=
  decide (w.members.map fun m => text m.1).Nodup &&
    ((w.members.any fun m => text m.1 = "content" && isEncodable m.2) ||
      isComment w.decode && nullAt "content" w.decode)

theorem faithful_iff {w : Written} : Faithful w ↔ isFaithful w := by
  have hliteral : (∃ pieces, ContentLiteral w pieces ∧ Encodable pieces) ↔
      w.members.any fun m => text m.1 = "content" && isEncodable m.2 := by
    simp only [List.any_eq_true, Bool.and_eq_true, decide_eq_true_eq]
    constructor
    · rintro ⟨pieces, ⟨key, hmem, hkey⟩, hencodable⟩
      exact ⟨(key, .str pieces), hmem, hkey, decide_eq_true (Written.stringUnits_text hencodable)⟩
    · rintro ⟨⟨key, v⟩, hmem, hkey, hencodable⟩
      cases v with
      | str pieces => exact ⟨pieces, ⟨key, hmem, hkey⟩, _, (of_decide_eq_true hencodable).symm⟩
      | _ => cases hencodable
  simp only [Faithful, DistinctKeys, hliteral, isFaithful, Bool.and_eq_true, Bool.or_eq_true,
    decide_eq_true_eq]

theorem written_oneMemo {normal archived : String} {entry : List Char} {b : Bool}
    (hvalid : (parseText (oneMemoText normal archived entry) 8192).envelopeValid)
    (h : (readWrittenText (oneMemoText normal archived entry)).bind
      (fun doc => (writtenMemos doc).map (·.map isFaithful)) = some [b]) :
    ∃ doc raw counts w, readWritten (oneMemoData normal archived entry) = some doc ∧
      decodeDocument doc.decode = some raw ∧ Opened raw counts [w.decode] ∧
      writtenMemos doc = some [w] ∧ isFaithful w = b := by
  obtain ⟨raw, counts, entries, -, htext, hopened⟩ := opened_oneMemo hvalid
  rw [readText_eq] at htext
  obtain ⟨doc, hdoc, hraw⟩ := Option.bind_eq_some_iff.mp htext
  rw [hdoc, Option.bind_some] at h
  obtain ⟨ws, hws, htest⟩ := Option.map_eq_some_iff.mp h
  obtain ⟨w, rfl, hw⟩ := List.map_eq_singleton_iff.mp htest
  have hread : readWritten (oneMemoData normal archived entry) = some doc := by
    rw [readWritten, oneMemoData, fromUTF8?_toByteArray, Option.bind_some, String.toList_ofList,
      hdoc]
  have hmemos := decodeDocument_memos_written hraw
  rw [hws, hopened.memos] at hmemos
  rw [Option.some.inj hmemos] at hopened
  exact ⟨doc, raw, counts, w, hread, hraw, hopened, hws, hw⟩

/-- Nothing of the archived memo is lost. -/
theorem parse_lossless_archived : ∃ doc raw counts w,
    readWritten (oneMemoData "0" "1" archivedEntry) = some doc ∧
      decodeDocument doc.decode = some raw ∧ Opened raw counts [w.decode] ∧
      writtenMemos doc = some [w] ∧
      Lossless (parse (oneMemoData "0" "1" archivedEntry) 8192)
        (verdicts 8192 [] [w.decode]) 0 w := by
  have hfacts : (parseText (oneMemoText "0" "1" archivedEntry) 8192).envelopeValid = true ∧
      (readWrittenText (oneMemoText "0" "1" archivedEntry)).bind
        (fun doc => (writtenMemos doc).map (·.map isFaithful)) = some [true] := by decide +kernel
  obtain ⟨doc, raw, counts, w, hread, hraw, hopened, hws, hw⟩ :=
    written_oneMemo hfacts.1 hfacts.2
  refine ⟨doc, raw, counts, w, hread, hraw, hopened, hws, ?_⟩
  obtain ⟨ws, hws', -, -, hall⟩ := parse_lossless_iff hread hraw hopened 8192
  obtain rfl := Option.some.inj (hws.symm.trans hws')
  exact (hall 0 w rfl).mpr fun _ => faithful_iff.mpr hw

def surrogateEntry : List Char := memoEntry "NORMAL" "\"content\": \"\\ud800\", " "false"

def twiceEntry : List Char :=
  memoEntry "NORMAL" "\"content\": \"1\", \"content\": \"2\", " "false"

theorem lossy_of_accepted {entry : List Char}
    (hvalid : (parseText (oneMemoText "1" "0" entry) 8192).envelopeValid)
    (hissues : (parseText (oneMemoText "1" "0" entry) 8192).issues.isEmpty)
    (h : (readWrittenText (oneMemoText "1" "0" entry)).bind
      (fun doc => (writtenMemos doc).map (·.map isFaithful)) = some [false]) :
    ∃ doc raw counts w, readWritten (oneMemoData "1" "0" entry) = some doc ∧
      decodeDocument doc.decode = some raw ∧ Opened raw counts [w.decode] ∧
      writtenMemos doc = some [w] ∧
      ¬Lossless (parse (oneMemoData "1" "0" entry) 8192) (verdicts 8192 [] [w.decode]) 0 w := by
  obtain ⟨doc, raw, counts, w, hread, hraw, hopened, hws, hw⟩ := written_oneMemo hvalid h
  refine ⟨doc, raw, counts, w, hread, hraw, hopened, hws, fun hlossless => ?_⟩
  have hdocument : readDocument (oneMemoData "1" "0" entry) = some raw := by
    rw [readDocument_eq, hread, Option.bind_some, hraw]
  have hfaithful := faithful_of_lossless hdocument hopened rfl hlossless ?_
  · rw [faithful_iff, hw] at hfaithful
    cases hfaithful
  · intro hrejected
    obtain ⟨name, message, hissue⟩ :=
      (parse_countedInvalid_iff hdocument hopened rfl).mpr hrejected
    rw [oneMemoData, parse_ofList, List.isEmpty_iff.mp hissues] at hissue
    cases hissue

theorem altered {entry : List Char} {content : String}
    (h : (parseText (oneMemoText "1" "0" entry) 8192).envelopeValid = true ∧
      (parseText (oneMemoText "1" "0" entry) 8192).issues.isEmpty = true ∧
      (readWrittenText (oneMemoText "1" "0" entry)).bind
        (fun doc => (writtenMemos doc).map (·.map isFaithful)) = some [false] ∧
      (parseText (oneMemoText "1" "0" entry) 8192).records.map (·.content) = [content]) :
    (parse (oneMemoData "1" "0" entry) 8192).records.map (·.content) = [content] ∧
      ∃ doc raw counts w, readWritten (oneMemoData "1" "0" entry) = some doc ∧
        decodeDocument doc.decode = some raw ∧ Opened raw counts [w.decode] ∧
        writtenMemos doc = some [w] ∧
        ¬Lossless (parse (oneMemoData "1" "0" entry) 8192) (verdicts 8192 [] [w.decode]) 0 w := by
  obtain ⟨hvalid, hissues, htest, hcontent⟩ := h
  rw [← parse_ofList] at hcontent
  exact ⟨hcontent, lossy_of_accepted hvalid hissues htest⟩

/-- Both become records of something else than what is written: the replacement character, and
the second content. -/
theorem contents_altered :
    (parse (oneMemoData "1" "0" surrogateEntry) 8192).records.map (·.content) = ["\uFFFD"] ∧
      (parse (oneMemoData "1" "0" twiceEntry) 8192).records.map (·.content) = ["2"] ∧
      ∀ entry ∈ [surrogateEntry, twiceEntry], ∃ doc raw counts w,
        readWritten (oneMemoData "1" "0" entry) = some doc ∧
          decodeDocument doc.decode = some raw ∧ Opened raw counts [w.decode] ∧
          writtenMemos doc = some [w] ∧
          ¬Lossless (parse (oneMemoData "1" "0" entry) 8192) (verdicts 8192 [] [w.decode]) 0 w := by
  obtain ⟨hsurrogate, hlossySurrogate⟩ := @altered surrogateEntry "\uFFFD" (by decide +kernel)
  obtain ⟨htwice, hlossyTwice⟩ := @altered twiceEntry "2" (by decide +kernel)
  refine ⟨hsurrogate, htwice, ?_⟩
  simp only [List.forall_mem_cons]
  exact ⟨hlossySurrogate, hlossyTwice, fun entry hentry => absurd hentry List.not_mem_nil⟩

end tests

end Memoark.Import
