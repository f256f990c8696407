import Memoark.Import.Verdicts

/-! The counts that `Parse` shows of an export with a valid envelope. -/
namespace Memoark.Import
open Time Program

def entryState : Json → Option String
  | .obj fields =>
    match Json.lookup "state" fields with
    | some (.str state) => some state
    | _ => none
  | _ => none

def Named : Json → Prop
  | .obj fields => (∀ field ∈ fields, field.1 ∈ allowedMemoFields) ∧
      ∃ name, Json.lookup "name" fields = some (.str name) ∧ (memoUid name).isSome
  | _ => False

section records

variable {fields : Fields} {key text name state : String} {entry : Json} {limit : Nat}
  {record : Record} {comment : Bool}

theorem requiredString_str (h : Json.lookup key fields = some (.str text)) :
    requiredString fields key = .ok text := by
  unfold requiredString
  rw [h]

theorem requiredString_ok (h : requiredString fields key = .ok text) :
    Json.lookup key fields = some (.str text) ∨
      Json.lookup key fields = some .null ∧ text = "" := by
  unfold requiredString at h
  split at h
  · cases h
  · rename_i hnull
    exact .inr ⟨hnull, (Except.ok.inj h).symm⟩
  · rename_i hstr
    rw [← Except.ok.inj h]
    exact .inl hstr
  · cases h

theorem parseName_ok (h : parseName entry = .ok (fields, name)) :
    entry = .obj fields ∧ (∀ field ∈ fields, field.1 ∈ allowedMemoFields) ∧
      Json.lookup "name" fields = some (.str name) ∧ (memoUid name).isSome := by
  unfold parseName at h
  split at h
  · rename_i members
    split at h
    · cases h
    · rename_i hknown
      split at h
      · cases h
      · rename_i name' hname
        split at h
        · rename_i uid huid
          obtain ⟨rfl, rfl⟩ := Prod.mk.inj (Except.ok.inj h)
          refine ⟨rfl, fun field hfield => ?_, ?_, by rw [huid]; rfl⟩
          · simpa using List.find?_eq_none.mp hknown field hfield
          · rcases requiredString_ok hname with hstr | ⟨-, rfl⟩
            · exact hstr
            · cases huid
        · cases h
  · cases h

theorem parseName_named (hknown : ∀ field ∈ fields, field.1 ∈ allowedMemoFields)
    (hname : Json.lookup "name" fields = some (.str name)) (huid : (memoUid name).isSome) :
    parseName (.obj fields) = .ok (fields, name) := by
  obtain ⟨uid, huid⟩ := Option.isSome_iff_exists.mp huid
  unfold parseName
  dsimp only
  split
  · rename_i hfind
    have hunknown := List.find?_some hfind
    exact absurd (hknown _ (List.mem_of_find?_eq_some hfind)) (of_decide_eq_true hunknown)
  · rw [requiredString_str hname]
    dsimp only
    rw [huid]

theorem entryState_obj (h : entryState (.obj fields) = some state) :
    Json.lookup "state" fields = some (.str state) := by
  simp only [entryState] at h
  split at h
  · rename_i hstr
    rw [← Option.some.inj h]
    exact hstr
  · cases h

theorem parseRecord_state (hstate : state = "NORMAL" ∨ state = "ARCHIVED") :
    (parseRecord entry limit).state = state ↔ Named entry ∧ entryState entry = some state := by
  have hne : state ≠ "" := by
    rintro rfl
    rcases hstate with h | h <;> exact absurd h (by decide)
  constructor
  · intro h
    unfold parseRecord at h
    split at h
    · exact absurd h.symm hne
    · rename_i fields name hname
      obtain ⟨rfl, hknown, hlookup, huid⟩ := parseName_ok hname
      split at h
      · exact absurd h.symm hne
      · rename_i state' hstate'
        have heq : state' = state := by
          split at h
          · exact h
          · split at h <;> exact h
        refine ⟨⟨hknown, name, hlookup, huid⟩, ?_⟩
        rcases requiredString_ok hstate' with hstr | ⟨-, hempty⟩
        · rw [entryState, hstr, ← heq]
        · exact absurd (heq.symm.trans hempty) hne
  · rintro ⟨hnamed, hstate'⟩
    cases entry with
    | obj fields =>
      obtain ⟨hknown, name, hname, huid⟩ := hnamed
      have hlookup := entryState_obj hstate'
      unfold parseRecord
      rw [parseName_named hknown hname huid]
      dsimp only
      rw [requiredString_str hlookup]
      dsimp only
      split
      · rfl
      · split <;> rfl
    | _ => exact absurd hnamed id

def Record.Within (limit : Nat) (r : Record) : Prop :=
  0 < limit → r.content.utf8ByteSize ≤ limit

theorem parseCore_within (h : parseCore fields name state limit = .ok record) :
    record.Within limit := by
  obtain ⟨createTime, _, h⟩ := bind_ok h
  obtain ⟨updateTime, _, h⟩ := bind_ok h
  obtain ⟨content, _, h⟩ := bind_ok h
  obtain ⟨hlength, h⟩ := check_ok h
  obtain ⟨visibility, _, h⟩ := bind_ok h
  obtain ⟨_, h⟩ := check_ok h
  obtain ⟨pinned, _, h⟩ := bind_ok h
  cases h
  intro hpos
  simpa [hpos] using hlength

theorem parseRecord_ok (h : (parseRecord entry limit).result = .ok (record, comment)) :
    (memoUid record.sourceName).isSome ∧ record.Within limit := by
  unfold parseRecord at h
  split at h
  · cases h
  · rename_i hname
    split at h
    · cases h
    · split at h
      · cases h
      · split at h
        · cases h
        · rename_i hcore
          obtain ⟨_, _, h⟩ := bind_ok h
          obtain ⟨_, _, h⟩ := bind_ok h
          cases h
          rw [(parseCore_ok hcore).1]
          exact ⟨(parseName_ok hname).2.2.2, parseCore_within hcore⟩

end records

section verdicts

variable {limit : Nat} {seen : List String} {entries : List Json} {r : Record}
  {c : SkippedCounts}

theorem length_verdicts (limit : Nat) (seen : List String) (entries : List Json) :
    (verdicts limit seen entries).length = entries.length := by
  induction entries generalizing seen with
  | nil => rfl
  | cons entry entries ih => simp only [verdicts, List.length_cons, ih]

theorem judge_record {parsed : ParsedRecord} (h : judge seen parsed = .record r c) :
    parsed.result = .ok (r, false) ∧ r.sourceName ∉ seen := by
  unfold judge at h
  split at h
  · cases h
  · rename_i record comment hresult
    split at h
    · cases h
    · rename_i hnew
      split at h
      · cases h
      · rename_i hcomment
        cases h
        rw [eq_false_of_ne_true hcomment] at hresult
        exact ⟨hresult, hnew⟩

theorem verdicts_record (h : Verdict.record r c ∈ verdicts limit seen entries) :
    ∃ entry ∈ entries, (parseRecord entry limit).result = .ok (r, false) := by
  induction entries generalizing seen with
  | nil => cases h
  | cons entry entries ih =>
    rcases List.mem_cons.mp h with hhead | hrest
    · exact ⟨entry, List.mem_cons_self, (judge_record hhead.symm).1⟩
    · obtain ⟨entry', hmem, hresult⟩ := ih hrest
      exact ⟨entry', List.mem_cons_of_mem _ hmem, hresult⟩

theorem judge_name {parsed : ParsedRecord} {name : String}
    (h : (judge seen parsed).name? = some name) :
    name ∉ seen := by
  unfold judge at h
  split at h
  · cases h
  · split at h
    · cases h
    · rename_i hnew
      split at h <;> exact Option.some.inj h ▸ hnew

theorem nodup_verdicts (limit : Nat) (seen : List String) (entries : List Json) :
    ((verdicts limit seen entries).filterMap Verdict.name?).Nodup ∧
      ∀ name ∈ (verdicts limit seen entries).filterMap Verdict.name?, name ∉ seen := by
  induction entries generalizing seen with
  | nil => exact ⟨List.nodup_nil, fun _ h => absurd h List.not_mem_nil⟩
  | cons entry entries ih =>
    obtain ⟨hnodup, hnew⟩ := ih ((judge seen (parseRecord entry limit)).seen seen)
    rw [verdicts, List.filterMap_cons]
    have hjudge : ∀ name, (judge seen (parseRecord entry limit)).name? = some name → name ∉ seen :=
      fun name h => judge_name h
    generalize judge seen (parseRecord entry limit) = v at hnodup hnew hjudge
    cases hname : v.name? with
    | none =>
      rw [show v.seen seen = seen by rw [Verdict.seen, hname]; rfl] at hnodup hnew ⊢
      exact ⟨hnodup, hnew⟩
    | some name =>
      rw [show v.seen seen = name :: seen by rw [Verdict.seen, hname]; rfl] at hnodup hnew ⊢
      refine ⟨List.nodup_cons.mpr ⟨fun hmem => ?_, hnodup⟩, fun name' hmem => ?_⟩
      · exact hnew name hmem List.mem_cons_self
      · rcases List.mem_cons.mp hmem with rfl | hmem
        · exact hjudge name' hname
        · exact fun hseen => hnew name' hmem (List.mem_cons_of_mem _ hseen)

theorem names_records (vs : List Verdict) :
    ((vs.filterMap Verdict.record?).map (·.sourceName)).Sublist (vs.filterMap Verdict.name?) := by
  induction vs with
  | nil => exact List.Sublist.slnil
  | cons v vs ih =>
    cases v with
    | invalid => exact ih
    | comment => exact ih.cons _
    | record => exact ih.cons_cons _

theorem length_eq_verdicts (vs : List Verdict) : vs.length =
    (vs.filterMap Verdict.record?).length + vs.countP Verdict.isInvalid +
      vs.countP Verdict.isComment := by
  induction vs with
  | nil => rfl
  | cons v vs ih =>
    cases v <;>
      simp only [List.length_cons, List.filterMap_cons, Verdict.record?, List.countP_cons,
        Verdict.isInvalid, Verdict.isComment, ih] <;> simp <;> omega

end verdicts

section states

theorem Progress.add_states (p : Progress) (index : Nat) (parsed : ParsedRecord) :
    (p.add index parsed).actualNormal =
        p.actualNormal + (if parsed.state = "NORMAL" then 1 else 0) ∧
      (p.add index parsed).actualArchived =
        p.actualArchived + (if parsed.state = "ARCHIVED" then 1 else 0) ∧
      ((p.add index parsed).allStatesValid ↔
        p.allStatesValid ∧ (parsed.state = "NORMAL" ∨ parsed.state = "ARCHIVED")) := by
  rw [Progress.add_eq]
  dsimp only
  unfold Progress.countState
  by_cases hnormal : parsed.state = "NORMAL"
  · simp [hnormal]
  · by_cases harchived : parsed.state = "ARCHIVED"
    · simp [harchived]
    · simp [hnormal, harchived]

theorem parseMemos_states (limit index : Nat) (p : Progress) (entries : List Json) :
    (parseMemos limit index p entries).actualNormal = p.actualNormal +
        entries.countP (fun entry => (parseRecord entry limit).state = "NORMAL") ∧
      (parseMemos limit index p entries).actualArchived = p.actualArchived +
        entries.countP (fun entry => (parseRecord entry limit).state = "ARCHIVED") ∧
      ((parseMemos limit index p entries).allStatesValid ↔ p.allStatesValid ∧
        ∀ entry ∈ entries, (parseRecord entry limit).state = "NORMAL" ∨
          (parseRecord entry limit).state = "ARCHIVED") := by
  induction entries generalizing index p with
  | nil => simp [parseMemos]
  | cons entry entries ih =>
    obtain ⟨hnormal, harchived, hvalid⟩ := p.add_states index (parseRecord entry limit)
    obtain ⟨ihnormal, iharchived, ihvalid⟩ := ih (index + 1) (p.add index (parseRecord entry limit))
    rw [parseMemos]
    refine ⟨?_, ?_, ?_⟩
    · rw [ihnormal, hnormal, List.countP_cons]
      simp only [decide_eq_true_eq]
      omega
    · rw [iharchived, harchived, List.countP_cons]
      simp only [decide_eq_true_eq]
      omega
    · rw [ihvalid, hvalid, List.forall_mem_cons, and_assoc]

end states

structure Tally (limit : Int) (counts : RawCounts) (entries : List Json) (d : Document) : Prop where
  total : d.total = d.normal + d.archived + d.invalid + d.unsupported
  entries : d.total = entries.length
  records : d.records.length = d.normal + d.archived
  normal : d.records.countP isNormal = d.normal
  names : (d.records.map (·.sourceName)).Nodup
  uids : ∀ r ∈ d.records, (memoUid r.sourceName).isSome
  allowed : ∀ r ∈ d.records, r.Allowed
  contents : ∀ r ∈ d.records, 0 < limit → (r.content.utf8ByteSize : Int) ≤ limit
  issues : d.issues.countP isInvalidIssue = d.invalid
  comments : d.skipped.comments = d.unsupported

def Declared (counts : RawCounts) (entries : List Json) : Prop :=
  counts.normal = entries.countP (fun entry => entryState entry = some "NORMAL") ∧
    counts.archived = entries.countP (fun entry => entryState entry = some "ARCHIVED")

def Stated (entry : Json) : Prop :=
  entryState entry = some "NORMAL" ∨ entryState entry = some "ARCHIVED"

theorem Document.Shows.tally {d : Document} {limit : Int} {entries : List Json} {counts : RawCounts}
    (h : d.Shows (verdicts limit.toNat [] entries)) (haccounted : d.Accounted)
    (htotal : d.total = entries.length) : Tally limit counts entries d := by
  have hrecords : d.records.length = d.normal + d.archived := by
    rw [haccounted.normal, haccounted.archived]
    simpa using List.length_eq_countP_add_countP isNormal
  have hentry : ∀ r ∈ d.records, ∃ entry ∈ entries,
      (parseRecord entry limit.toNat).result = .ok (r, false) := by
    intro r hr
    rw [h.records] at hr
    obtain ⟨v, hv, hrecord⟩ := List.mem_filterMap.mp hr
    cases v with
    | record r' c =>
      obtain rfl := Option.some.inj hrecord
      exact verdicts_record hv
    | _ => cases hrecord
  refine ⟨?_, htotal, hrecords, haccounted.normal.symm, ?_, ?_, haccounted.allowed, ?_, ?_,
    h.comments⟩
  · rw [htotal, ← length_verdicts limit.toNat [] entries, length_eq_verdicts, ← h.records,
      ← h.invalid, ← h.unsupported, hrecords]
  · rw [h.records]
    exact (nodup_verdicts limit.toNat [] entries).1.sublist (names_records _)
  · intro r hr
    obtain ⟨entry, -, hresult⟩ := hentry r hr
    exact (parseRecord_ok hresult).1
  · intro r hr hpos
    obtain ⟨entry, -, hresult⟩ := hentry r hr
    have hwithin := (parseRecord_ok hresult).2 (by omega)
    omega
  · rw [List.countP_eq_length_filter, h.issues, length_invalidIssues, h.invalid]

theorem parseMemos_total (limit index : Nat) (p : Progress) (entries : List Json) :
    (parseMemos limit index p entries).document.total = p.document.total := by
  induction entries generalizing index p with
  | nil => rfl
  | cons entry entries ih =>
    rw [parseMemos, ih, Progress.add_eq]
    cases judge p.seenNames (parseRecord entry limit) <;> rfl

theorem finish_valid {counts : RawCounts} {p : Progress} (h : (finish counts p).envelopeValid) :
    (∃ reason, finish counts p = { p.document with blockingReason := reason }) ∧
      (p.allStatesValid → counts.normal = p.actualNormal ∧ counts.archived = p.actualArchived) := by
  unfold finish at h ⊢
  split at h
  · exact absurd h not_valid_invalidEnvelope
  · rename_i hcounts
    rw [if_neg hcounts]
    constructor
    · split
      · exact ⟨_, rfl⟩
      · exact ⟨_, rfl⟩
    · intro hstates
      simpa [hstates] using hcounts

/-- A document whose envelope is valid gives the account of its entries, and its declared counts
are right if the state of every entry is read. -/
theorem parse_tally {data : ByteArray} {limit : Int}
    (h : (parse data limit.toNat).envelopeValid) :
    ∃ raw counts entries, readDocument data = some raw ∧ raw.counts = some counts ∧
      raw.memos = some entries ∧ Tally limit counts entries (parse data limit.toNat) ∧
      ((∀ entry ∈ entries, Named entry ∧ Stated entry) → Declared counts entries) := by
  obtain ⟨raw, counts, entries, hread, hopened⟩ := parse_valid h
  obtain ⟨d, hblank, hparse⟩ := parse_opened hread hopened limit.toNat
  have haccounted := (parse_fits data limit.toNat).accounted
  rw [hparse] at h haccounted ⊢
  obtain ⟨⟨reason, hfinish⟩, hdeclared⟩ := finish_valid h
  obtain ⟨hnormal, harchived, hstates⟩ :=
    parseMemos_states limit.toNat 1 (d.start entries.length) entries
  refine ⟨raw, counts, entries, hread, hopened.declared, hopened.memos, ?_, fun hall => ?_⟩
  · have hshows := parseMemos_shows (hblank.shows.start entries.length) limit.toNat entries
    refine Document.Shows.tally ?_ haccounted ?_
    · rw [hfinish]
      exact ⟨hshows.records, hshows.invalid, hshows.unsupported, hshows.comments, hshows.issues⟩
    · rw [hfinish]
      exact parseMemos_total ..
  · have hread : ∀ entry ∈ entries, ∀ state, state = "NORMAL" ∨ state = "ARCHIVED" →
        ((parseRecord entry limit.toNat).state = state ↔ entryState entry = some state) := by
      intro entry hentry state hstate
      rw [parseRecord_state hstate]
      exact and_iff_right (hall entry hentry).1
    have hvalid := hstates.mpr ⟨rfl, fun entry hentry => (hall entry hentry).2.imp
      (hread entry hentry _ (.inl rfl)).mpr (hread entry hentry _ (.inr rfl)).mpr⟩
    obtain ⟨hcountNormal, hcountArchived⟩ := hdeclared hvalid
    constructor
    · rw [hcountNormal, hnormal, show (d.start entries.length).actualNormal = 0 from rfl,
        Nat.zero_add]
      congr 1
      exact List.countP_congr fun entry hentry => by simpa using hread entry hentry _ (.inl rfl)
    · rw [hcountArchived, harchived, show (d.start entries.length).actualArchived = 0 from rfl,
        Nat.zero_add]
      congr 1
      exact List.countP_congr fun entry hentry => by simpa using hread entry hentry _ (.inr rfl)

/-- A text in short pieces: evaluating a long literal takes quadratic time. -/
def chars (pieces : List String) : List Char := pieces.flatMap (·.toList)

def oneMemoText (normal archived : String) (entries : List Char) : List Char :=
  chars ["\x7b\"format\": ", "\"memoark.memo-export\", ", "\"formatVersion\": 1, ",
    "\"exportedAt\": ", "\"2026-01-01T00:00:00Z\", ", "\"user\": \x7b\"name\": ", "\"users/ann\", ",
    "\"username\": \"ann\"\x7d, ", "\"counts\": \x7b\"total\": 1, ", "\"normal\": ", normal,
    ", \"archived\": ", archived, "\x7d, \"includedContent\": ", "\x7b\"memoData\": true, ",
    "\"attachmentMetadata\": ", "true\x7d, \"memos\": ["] ++ entries ++ chars ["]\x7d"]

def oneMemoData (normal archived : String) (entries : List Char) : ByteArray :=
  (String.ofList (oneMemoText normal archived entries)).toByteArray

def memoEntry (state contents pinned : String) : List Char :=
  chars ["\x7b\"name\": \"memos/a\", ", "\"state\": \"", state, "\", \"createTime\": ",
    "\"2026-01-01T00:00:00Z\", ", contents, "\"visibility\": ", "\"PRIVATE\", \"pinned\": ", pinned,
    "\x7d"]

def archivedEntry : List Char := memoEntry "ARCHIVED" "\"content\": \"hello\", " "false"

theorem parse_tally_archived : ∃ raw counts entries,
    readDocument (oneMemoData "0" "1" archivedEntry) = some raw ∧ raw.counts = some counts ∧
      raw.memos = some entries ∧
      Tally 8192 counts entries (parse (oneMemoData "0" "1" archivedEntry) 8192) ∧
      ((∀ entry ∈ entries, Named entry ∧ Stated entry) → Declared counts entries) := by
  refine @parse_tally _ 8192 ?_
  unfold oneMemoData
  rw [parse_ofList]
  decide +kernel

def unnamedEntry : List Char := chars ["\x7b\"name\": \"a\", ", "\"state\": \"ARCHIVED\"\x7d"]

/-- The state of an entry with an invalid name is not read, and any declared counts will do. -/
theorem declared_unnamed : (parse (oneMemoData "1" "0" unnamedEntry) 8192).envelopeValid ∧
    ∃ raw counts entries, readDocument (oneMemoData "1" "0" unnamedEntry) = some raw ∧
      raw.counts = some counts ∧ raw.memos = some entries ∧ (∀ entry ∈ entries, Stated entry) ∧
        ¬Declared counts entries := by
  have hfacts : (parseText (oneMemoText "1" "0" unnamedEntry) 8192).envelopeValid = true ∧
      (readText (oneMemoText "1" "0" unnamedEntry)).bind
        (fun raw => raw.counts.map (·.archived)) = some 0 ∧
      (readText (oneMemoText "1" "0" unnamedEntry)).bind
        (fun raw => raw.memos.map (·.map entryState)) = some [some "ARCHIVED"] := by
    decide +kernel
  obtain ⟨hvalid, hcounts, hstates⟩ := hfacts
  unfold oneMemoData
  rw [parse_ofList, readDocument_ofList]
  refine ⟨hvalid, ?_⟩
  obtain ⟨raw, hraw, hcounts⟩ := Option.bind_eq_some_iff.mp hcounts
  rw [hraw, Option.bind_some] at hstates
  obtain ⟨counts, hdeclared, harchived⟩ := Option.map_eq_some_iff.mp hcounts
  obtain ⟨entries, hmemos, hentries⟩ := Option.map_eq_some_iff.mp hstates
  refine ⟨raw, counts, entries, hraw, hdeclared, hmemos, fun entry hentry => .inr ?_, fun h => ?_⟩
  · have hmem := List.mem_map_of_mem (f := entryState) hentry
    rw [hentries] at hmem
    exact List.mem_singleton.mp hmem
  · have hmap := List.countP_map (p := fun state => state = some "ARCHIVED") (f := entryState)
      (l := entries)
    rw [hentries] at hmap
    have hcount : entries.countP (fun entry => entryState entry = some "ARCHIVED") = 1 := hmap.symm
    have hdiffer := h.2
    rw [harchived, hcount] at hdiffer
    cases hdiffer

end Memoark.Import
