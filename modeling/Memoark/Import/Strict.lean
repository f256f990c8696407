import Memoark.Import.Counts

/-! Which entries of an export are accepted: the types of the required fields. -/
namespace Memoark.Import
open Time Program

def Text (fields : Fields) (key : String) (P : String → Prop) : Prop :=
  ∃ text, Json.lookup key fields = some (.str text) ∧ P text

/-- A member that may be left out or `null`. -/
def Optional (fields : Fields) (key : String) (P : Json → Prop) : Prop :=
  ∀ v, Json.lookup key fields = some v → v = .null ∨ P v

/-- The checks of the fields from `createTime` to `pinned`, which let `null` through for the
content and for `pinned`. -/
structure AcceptableCore (limit : Nat) (fields : Fields) : Prop where
  createTime : Text fields "createTime" fun text => (parseRfc3339 text.toList).isSome
  updateTime : Optional fields "updateTime" fun v =>
    ∃ text, v = .str text ∧ (parseRfc3339 text.toList).isSome
  content : Json.lookup "content" fields = some .null ∨
    Text fields "content" fun text => 0 < limit → text.utf8ByteSize ≤ limit
  visibility : Text fields "visibility" fun v => v ∈ ["PRIVATE", "PROTECTED", "PUBLIC"]
  pinned : Json.lookup "pinned" fields = some .null ∨
    ∃ b, Json.lookup "pinned" fields = some (.bool b)

structure Acceptable (limit : Nat) (fields : Fields) : Prop extends AcceptableCore limit fields where
  known : ∀ field ∈ fields, field.1 ∈ allowedMemoFields
  name : Text fields "name" fun name => (memoUid name).isSome
  state : Text fields "state" fun state => state ∈ ["NORMAL", "ARCHIVED"]
  arrays : ∀ key ∈ ["attachments", "relations", "reactions"],
    Optional fields key fun v => ∃ items, v = .arr items
  location : Optional fields "location" fun v => ∃ members, v = .obj members
  parent : Optional fields "parent" fun v => ∃ text, v = .str text

section checks

variable {fields : Fields} {key name state : String} {limit : Nat}

theorem requiredTimestamp_ok_iff : (∃ t, requiredTimestamp fields key = .ok t) ↔
    Text fields key fun text => (parseRfc3339 text.toList).isSome := by
  constructor
  · rintro ⟨t, h⟩
    obtain ⟨text, htext, h⟩ := bind_ok h
    cases ht : parseRfc3339 text.toList with
    | some t' =>
      rcases requiredString_ok htext with hstr | ⟨-, rfl⟩
      · exact ⟨text, hstr, Option.isSome_of_eq_some ht⟩
      · cases ht
    | none =>
      rw [ht] at h
      cases h
  · rintro ⟨text, hstr, ht⟩
    obtain ⟨t, ht⟩ := Option.isSome_iff_exists.mp ht
    refine ⟨t, ?_⟩
    simp only [requiredTimestamp, requiredString_str hstr, Bind.bind, Except.bind, ht]
    rfl

theorem updateTimestamp_ok_iff (createTime : Instant) :
    (∃ t, updateTimestamp fields createTime = .ok t) ↔ Optional fields "updateTime" fun v =>
      ∃ text, v = .str text ∧ (parseRfc3339 text.toList).isSome := by
  unfold updateTimestamp Optional
  cases hlookup : Json.lookup "updateTime" fields with
  | none => exact iff_of_true ⟨_, rfl⟩ fun v h => by cases h
  | some v =>
    simp only [Option.some.injEq, forall_eq']
    cases v with
    | null => exact iff_of_true ⟨_, rfl⟩ (.inl rfl)
    | str text =>
      dsimp only
      cases ht : parseRfc3339 text.toList with
      | none => simp [ht]
      | some t => simp [ht]
    | _ => simp

theorem arrayLength_ok_iff : (∃ n, arrayLength fields key = .ok n) ↔
    Optional fields key fun v => ∃ items, v = .arr items := by
  unfold arrayLength Optional
  cases hlookup : Json.lookup key fields with
  | none => exact iff_of_true ⟨_, rfl⟩ fun v h => by cases h
  | some v => cases v <;> simp

theorem parseLocation_ok_iff : (∃ n, parseLocation fields = .ok n) ↔
    Optional fields "location" fun v => ∃ members, v = .obj members := by
  unfold parseLocation Optional
  cases hlookup : Json.lookup "location" fields with
  | none => exact iff_of_true ⟨_, rfl⟩ fun v h => by cases h
  | some v => cases v <;> simp

theorem parseParent_ok_iff : (∃ b, parseParent fields = .ok b) ↔
    Optional fields "parent" fun v => ∃ text, v = .str text := by
  unfold parseParent Optional
  cases hlookup : Json.lookup "parent" fields with
  | none => exact iff_of_true ⟨_, rfl⟩ fun v h => by cases h
  | some v =>
    cases v with
    | str text => exact iff_of_true ⟨_, rfl⟩ fun v h => .inr ⟨text, (Option.some.inj h).symm⟩
    | _ => simp

theorem parsePinned_ok_iff : (∃ b, parsePinned fields = .ok b) ↔
    Json.lookup "pinned" fields = some .null ∨
      ∃ b, Json.lookup "pinned" fields = some (.bool b) := by
  unfold parsePinned
  cases hlookup : Json.lookup "pinned" fields with
  | none => simp
  | some v => cases v <;> simp

theorem parseSkipped_ok_iff : (parseSkipped fields).2 = .ok () ↔
    (∀ key ∈ ["attachments", "relations", "reactions"],
      Optional fields key fun v => ∃ items, v = .arr items) ∧
      Optional fields "location" fun v => ∃ members, v = .obj members := by
  simp only [List.forall_mem_cons, ← arrayLength_ok_iff, ← parseLocation_ok_iff]
  unfold parseSkipped
  cases arrayLength fields "attachments" with
  | error e => simp
  | ok attachments =>
    cases arrayLength fields "relations" with
    | error e => simp
    | ok relations =>
      cases arrayLength fields "reactions" with
      | error e => simp
      | ok reactions =>
        cases parseLocation fields with
        | error e => simp
        | ok locations => simp

theorem parseCore_acceptable {record : Record} (h : parseCore fields name state limit = .ok record) :
    AcceptableCore limit fields := by
  obtain ⟨createTime, hcreate, h⟩ := bind_ok h
  obtain ⟨updateTime, hupdate, h⟩ := bind_ok h
  obtain ⟨content, hcontent, h⟩ := bind_ok h
  obtain ⟨hlength, h⟩ := check_ok h
  obtain ⟨visibility, hvisibility, h⟩ := bind_ok h
  obtain ⟨hallowed, h⟩ := check_ok h
  obtain ⟨pinned, hpinned, -⟩ := bind_ok h
  refine ⟨requiredTimestamp_ok_iff.mp ⟨_, hcreate⟩, (updateTimestamp_ok_iff _).mp ⟨_, hupdate⟩,
    ?_, ?_, parsePinned_ok_iff.mp ⟨_, hpinned⟩⟩
  · rcases requiredString_ok hcontent with hstr | ⟨hnull, -⟩
    · exact .inr ⟨content, hstr, fun hpos => by simpa [hpos] using hlength⟩
    · exact .inl hnull
  · rcases requiredString_ok hvisibility with hstr | ⟨-, rfl⟩
    · exact ⟨visibility, hstr, Decidable.not_not.mp hallowed⟩
    · exact absurd (by decide) hallowed

theorem AcceptableCore.parseCore (h : AcceptableCore limit fields) (name state : String) :
    ∃ record, parseCore fields name state limit = .ok record := by
  obtain ⟨createTime, hcreate⟩ := requiredTimestamp_ok_iff.mpr h.createTime
  obtain ⟨updateTime, hupdate⟩ := (updateTimestamp_ok_iff createTime).mpr h.updateTime
  obtain ⟨pinned, hpinned⟩ := parsePinned_ok_iff.mpr h.pinned
  obtain ⟨visibility, hvisibility, hallowed⟩ := h.visibility
  have hcontent : ∃ content, requiredString fields "content" = .ok content ∧
      ¬(0 < limit && limit < content.utf8ByteSize) := by
    rcases h.content with hnull | ⟨content, hstr, hlength⟩
    · refine ⟨"", by rw [requiredString, hnull], ?_⟩
      simp
    · refine ⟨content, requiredString_str hstr, ?_⟩
      simpa using hlength
  obtain ⟨content, hcontent, hlength⟩ := hcontent
  refine ⟨⟨name, state, createTime, updateTime, content, visibility, pinned⟩, ?_⟩
  simp only [Import.parseCore, hcreate, hupdate, hcontent, requiredString_str hvisibility, hpinned,
    bind, Except.bind, hlength, not_not_intro hallowed, if_false]
  rfl

/-- Exactly which entries are read without an error. -/
theorem parseRecord_ok_iff (entry : Json) :
    (∃ result, (parseRecord entry limit).result = .ok result) ↔
      ∃ fields, entry = .obj fields ∧ Acceptable limit fields := by
  constructor
  · rintro ⟨result, h⟩
    unfold parseRecord at h
    split at h
    · cases h
    · rename_i fields name hname
      obtain ⟨rfl, hknown, hlookup, huid⟩ := parseName_ok hname
      split at h
      · cases h
      · rename_i state hstate
        split at h
        · cases h
        · rename_i hallowed
          split at h
          · cases h
          · rename_i record hcore
            obtain ⟨_, hskipped, h⟩ := bind_ok h
            obtain ⟨comment, hparent, -⟩ := bind_ok h
            obtain ⟨harrays, hlocation⟩ := parseSkipped_ok_iff.mp hskipped
            refine ⟨fields, rfl, parseCore_acceptable hcore, hknown, ⟨name, hlookup, huid⟩, ?_,
              harrays, hlocation, parseParent_ok_iff.mp ⟨comment, hparent⟩⟩
            rcases requiredString_ok hstate with hstr | ⟨-, rfl⟩
            · exact ⟨state, hstr, Decidable.not_not.mp hallowed⟩
            · exact absurd (by decide) hallowed
  · rintro ⟨fields, rfl, h⟩
    obtain ⟨name, hname, huid⟩ := h.name
    obtain ⟨state, hstate, hallowed⟩ := h.state
    obtain ⟨record, hrecord⟩ := h.parseCore name state
    obtain ⟨comment, hcomment⟩ := parseParent_ok_iff.mpr h.parent
    refine ⟨(record, comment), ?_⟩
    unfold parseRecord
    rw [parseName_named h.known hname huid]
    dsimp only
    rw [requiredString_str hstate]
    dsimp only
    rw [if_neg (not_not_intro hallowed), hrecord]
    dsimp only
    rw [parseSkipped_ok_iff.mpr ⟨h.arrays, h.location⟩, hcomment]
    rfl

end checks

section verdicts

variable {limit : Nat} {entry : Json} {seen : List String} {name : String}

def AcceptedAs (limit : Nat) (name : String) (entry : Json) : Prop :=
  ∃ fields, entry = .obj fields ∧ Acceptable limit fields ∧
    Json.lookup "name" fields = some (.str name)

theorem parseRecord_sourceName {fields : Fields} {record : Record} {comment : Bool}
    (h : (parseRecord (.obj fields) limit).result = .ok (record, comment)) :
    Json.lookup "name" fields = some (.str record.sourceName) := by
  unfold parseRecord at h
  split at h
  · cases h
  · rename_i hname
    obtain ⟨hfields, -, hlookup, -⟩ := parseName_ok hname
    split at h
    · cases h
    · split at h
      · cases h
      · split at h
        · cases h
        · rename_i hcore
          obtain ⟨_, _, h⟩ := bind_ok h
          obtain ⟨_, _, h⟩ := bind_ok h
          cases h
          rw [(parseCore_ok hcore).1, Json.obj.inj hfields]
          exact hlookup

theorem acceptedAs_iff : AcceptedAs limit name entry ↔
    ∃ record comment, (parseRecord entry limit).result = .ok (record, comment) ∧
      record.sourceName = name := by
  constructor
  · rintro ⟨fields, rfl, hacceptable, hname⟩
    obtain ⟨⟨record, comment⟩, hresult⟩ :=
      (parseRecord_ok_iff (.obj fields)).mpr ⟨fields, rfl, hacceptable⟩
    have hsource := parseRecord_sourceName hresult
    rw [hname] at hsource
    exact ⟨record, comment, hresult, (Json.str.inj (Option.some.inj hsource)).symm⟩
  · rintro ⟨record, comment, hresult, rfl⟩
    obtain ⟨fields, rfl, hacceptable⟩ := (parseRecord_ok_iff entry).mp ⟨_, hresult⟩
    exact ⟨fields, rfl, hacceptable, parseRecord_sourceName hresult⟩

theorem mem_seen_judge (entry : Json) (seen : List String) :
    name ∈ (judge seen (parseRecord entry limit)).seen seen ↔
      name ∈ seen ∨ AcceptedAs limit name entry := by
  rw [acceptedAs_iff]
  unfold judge
  cases hresult : (parseRecord entry limit).result with
  | error e => simp [Verdict.seen, Verdict.name?]
  | ok result =>
    obtain ⟨record, comment⟩ := result
    dsimp only
    by_cases hmem : record.sourceName ∈ seen
    · rw [if_pos hmem]
      simp only [Verdict.seen, Verdict.name?, Option.toList_none, List.nil_append, Except.ok.injEq]
      refine (or_iff_left_of_imp ?_).symm
      rintro ⟨record', comment', heq, rfl⟩
      rw [← (Prod.mk.inj heq).1]
      exact hmem
    · rw [if_neg hmem]
      cases comment <;> simp [Verdict.seen, Verdict.name?, or_comm, eq_comm]

theorem verdicts_getElem? {entries : List Json} {i : Nat} (h : entries[i]? = some entry) :
    ∃ seen', (verdicts limit seen entries)[i]? = some (judge seen' (parseRecord entry limit)) ∧
      ∀ name, name ∈ seen' ↔
        name ∈ seen ∨ ∃ entry' ∈ entries.take i, AcceptedAs limit name entry' := by
  induction entries generalizing i seen with
  | nil => cases h
  | cons first entries ih =>
    cases i with
    | zero =>
      obtain rfl := Option.some.inj h
      exact ⟨seen, rfl, fun name => by simp⟩
    | succ i =>
      obtain ⟨seen', hverdict, hseen⟩ :=
        @ih ((judge seen (parseRecord first limit)).seen seen) i h
      refine ⟨seen', hverdict, fun name => ?_⟩
      rw [hseen, mem_seen_judge, List.take_succ_cons, or_assoc]
      simp only [List.mem_cons, exists_eq_or_imp]

theorem judge_invalid_iff :
    (∃ n message, judge seen (parseRecord entry limit) = .invalid n message) ↔
      ¬(∃ name, AcceptedAs limit name entry) ∨ ∃ name ∈ seen, AcceptedAs limit name entry := by
  simp only [acceptedAs_iff]
  unfold judge
  cases hresult : (parseRecord entry limit).result with
  | error e => simp
  | ok result =>
    obtain ⟨record, comment⟩ := result
    dsimp only
    by_cases hmem : record.sourceName ∈ seen
    · rw [if_pos hmem]
      exact iff_of_true ⟨_, _, rfl⟩ (.inr ⟨_, hmem, record, comment, rfl, rfl⟩)
    · rw [if_neg hmem]
      refine iff_of_false ?_ (not_or_intro ?_ ?_)
      · rintro ⟨n, message, h⟩
        cases comment <;> cases h
      · exact not_not_intro ⟨_, record, comment, rfl, rfl⟩
      · rintro ⟨name, hname, record', comment', heq, rfl⟩
        rw [← (Prod.mk.inj (Except.ok.inj heq)).1] at hname
        exact hmem hname

end verdicts

section documents

variable {data : ByteArray} {raw : RawDocument} {counts : RawCounts} {entries : List Json}

def Document.CountedInvalid (d : Document) (i : Nat) : Prop :=
  ∃ name message, ⟨i + 1, name, .invalid, message⟩ ∈ d.issues

structure Document.Reports (d : Document) (vs : List Verdict) : Prop where
  records : d.records = vs.filterMap Verdict.record?
  invalid : d.invalid = vs.countP Verdict.isInvalid
  counted : ∀ i, d.CountedInvalid i ↔ ∃ name message, vs[i]? = some (.invalid name message)

theorem index_le_of_mem {index : Nat} {vs : List Verdict} {issue : Issue}
    (h : issue ∈ invalidIssues index vs) : index ≤ issue.recordIndex := by
  induction vs generalizing index with
  | nil => cases h
  | cons v vs ih =>
    cases v with
    | invalid =>
      rcases List.mem_cons.mp h with rfl | h
      · exact Nat.le_refl _
      · exact Nat.le_of_succ_le (ih h)
    | comment | record => exact Nat.le_of_succ_le (ih h)

theorem mem_invalidIssues_iff (index i : Nat) {vs : List Verdict} {name message : String} :
    ⟨index + i, name, .invalid, message⟩ ∈ invalidIssues index vs ↔
      vs[i]? = some (.invalid name message) := by
  refine ⟨fun h => ?_, mem_invalidIssues⟩
  induction vs generalizing index i with
  | nil => cases h
  | cons v vs ih =>
    have hrest : ⟨index + i, name, .invalid, message⟩ ∈ invalidIssues (index + 1) vs →
        (v :: vs)[i]? = some (.invalid name message) := by
      intro hmem
      cases i with
      | zero => exact absurd (index_le_of_mem hmem) (by simp)
      | succ i =>
        rw [show index + (i + 1) = index + 1 + i by omega] at hmem
        exact ih (index + 1) i hmem
    cases v with
    | invalid name' message' =>
      rcases List.mem_cons.mp h with heq | hmem
      · obtain ⟨hindex, rfl, -, rfl⟩ := Issue.mk.inj heq
        obtain rfl : i = 0 := by omega
        rfl
      · exact hrest hmem
    | comment | record => exact hrest h

theorem Document.Shows.reports {d : Document} {vs : List Verdict} (h : d.Shows vs) :
    d.Reports vs where
  records := h.records
  invalid := h.invalid
  counted i := by
    unfold Document.CountedInvalid
    refine exists_congr fun name => exists_congr fun message => ?_
    rw [← mem_invalidIssues_iff 1, ← h.issues, List.mem_filter, Nat.add_comm]
    exact (and_iff_left rfl).symm

/-- The checks after the loop add no issue of an entry. -/
theorem finish_reports {p : Progress} {vs : List Verdict} (h : p.document.Shows vs)
    (counts : RawCounts) : (finish counts p).Reports vs := by
  have hreports := h.reports
  unfold finish
  split
  · refine ⟨hreports.records, hreports.invalid, fun i => ?_⟩
    rw [← hreports.counted]
    refine exists_congr fun name => exists_congr fun message => ?_
    refine List.mem_append.trans (or_iff_left ?_)
    intro hmem
    have hindex := congrArg Issue.recordIndex (List.mem_singleton.mp hmem)
    cases hindex
  · split
    · exact ⟨hreports.records, hreports.invalid, hreports.counted⟩
    · exact hreports

theorem parse_reports (hread : readDocument data = some raw) (hopened : Opened raw counts entries)
    (limit : Nat) : (parse data limit).Reports (verdicts limit [] entries) := by
  obtain ⟨d, hblank, hparse⟩ := parse_opened hread hopened limit
  rw [hparse]
  exact finish_reports (parseMemos_shows (hblank.shows.start entries.length) limit entries) counts

def memberAt (key : String) : Json → Option Json
  | .obj fields => Json.lookup key fields
  | _ => none

def isNull : Json → Bool
  | .null => true
  | _ => false

def isString : Json → Bool
  | .str _ => true
  | _ => false

def isBool : Json → Bool
  | .bool _ => true
  | _ => false

def Strict (entry : Json) : Prop :=
  (∀ key ∈ ["name", "state", "createTime", "content", "visibility"],
    (memberAt key entry).any isString) ∧ (memberAt "pinned" entry).any isBool

instance : DecidablePred Strict := fun _ => inferInstanceAs (Decidable (_ ∧ _))

def nullAt (key : String) (entry : Json) : Bool := (memberAt key entry).any isNull

theorem nullAt_iff {key : String} {fields : Fields} :
    nullAt key (.obj fields) ↔ Json.lookup key fields = some .null := by
  rw [nullAt, memberAt]
  cases Json.lookup key fields with
  | none => simp
  | some v => cases v <;> simp [isNull]

theorem AcceptedAs.strict_iff {limit : Nat} {name : String} {entry : Json}
    (h : AcceptedAs limit name entry) :
    Strict entry ↔ ¬(nullAt "content" entry ∨ nullAt "pinned" entry) := by
  obtain ⟨fields, rfl, h, hname⟩ := h
  constructor
  · rintro ⟨hstrings, hbool⟩ hnull
    rw [nullAt_iff, nullAt_iff] at hnull
    rcases hnull with hnull | hnull
    · have hstring := hstrings "content" (by decide)
      rw [memberAt, hnull] at hstring
      cases hstring
    · rw [memberAt, hnull] at hbool
      cases hbool
  · intro hnulls
    rw [nullAt_iff, nullAt_iff] at hnulls
    obtain ⟨hcontent, hpinned⟩ := not_or.mp hnulls
    have hstring : ∀ key, (∃ text, Json.lookup key fields = some (.str text)) →
        (memberAt key (.obj fields)).any isString := by
      rintro key ⟨text, hstr⟩
      rw [memberAt, hstr]
      rfl
    obtain ⟨state, hstate, -⟩ := h.state
    obtain ⟨time, htime, -⟩ := h.createTime
    obtain ⟨content, hcontent, -⟩ := h.content.resolve_left hcontent
    obtain ⟨visibility, hvisibility, -⟩ := h.visibility
    obtain ⟨b, hb⟩ := h.pinned.resolve_left hpinned
    refine ⟨?_, by rw [memberAt, hb]; rfl⟩
    simp only [List.forall_mem_cons]
    exact ⟨hstring _ ⟨name, hname⟩, hstring _ ⟨state, hstate⟩, hstring _ ⟨time, htime⟩,
      hstring _ ⟨content, hcontent⟩, hstring _ ⟨visibility, hvisibility⟩,
      fun key hkey => absurd hkey List.not_mem_nil⟩

/-- The entry fails a check, or repeats the name of an earlier entry that passes the checks. -/
def Rejected (limit : Nat) (entries : List Json) (i : Nat) (entry : Json) : Prop :=
  ¬(∃ name, AcceptedAs limit name entry) ∨
    ∃ name, AcceptedAs limit name entry ∧ ∃ entry' ∈ entries.take i, AcceptedAs limit name entry'

theorem verdicts_invalid_iff (limit : Nat) {i : Nat} {entry : Json}
    (h : entries[i]? = some entry) :
    ∃ seen, (verdicts limit [] entries)[i]? = some (judge seen (parseRecord entry limit)) ∧
      ((∃ name message, judge seen (parseRecord entry limit) = .invalid name message) ↔
        Rejected limit entries i entry) := by
  obtain ⟨seen, hverdict, hseen⟩ := verdicts_getElem? h
  refine ⟨seen, hverdict, ?_⟩
  rw [judge_invalid_iff]
  refine or_congr_right (exists_congr fun name => ?_)
  rw [hseen, and_comm]
  exact and_congr_right fun _ => or_iff_right List.not_mem_nil

theorem parse_countedInvalid_iff (hread : readDocument data = some raw)
    (hopened : Opened raw counts entries) {limit i : Nat} {entry : Json}
    (h : entries[i]? = some entry) :
    (parse data limit).CountedInvalid i ↔ Rejected limit entries i entry := by
  obtain ⟨seen, hverdict, hinvalid⟩ := verdicts_invalid_iff limit h
  rw [(parse_reports hread hopened limit).counted, hverdict, ← hinvalid]
  simp only [Option.some.injEq]

/-- Exactly when an entry is only accepted with the types of the required fields: unless its
content or `pinned` is `null`, and it passes the other checks under a name that is new. -/
theorem parse_strict_iff (hread : readDocument data = some raw)
    (hopened : Opened raw counts entries) (limit : Int) :
    (parse data limit.toNat).Reports (verdicts limit.toNat [] entries) ∧
      ∀ i entry, entries[i]? = some entry →
        ((¬Strict entry → (parse data limit.toNat).CountedInvalid i) ↔
          ((nullAt "content" entry ∨ nullAt "pinned" entry) →
            Rejected limit.toNat entries i entry)) := by
  refine ⟨parse_reports hread hopened limit.toNat, fun i entry hentry => ?_⟩
  rw [parse_countedInvalid_iff hread hopened hentry]
  by_cases haccepted : ∃ name, AcceptedAs limit.toNat name entry
  · obtain ⟨name, hname⟩ := haccepted
    rw [hname.strict_iff, Decidable.not_not]
  · exact iff_of_true (fun _ => .inl haccepted) fun _ => .inl haccepted

end documents

theorem opened_oneMemo {normal archived : String} {entry : List Char}
    (h : (parseText (oneMemoText normal archived entry) 8192).envelopeValid) :
    ∃ raw counts entries, readDocument (oneMemoData normal archived entry) = some raw ∧
      readText (oneMemoText normal archived entry) = some raw ∧ Opened raw counts entries := by
  rw [← parse_ofList] at h
  obtain ⟨raw, counts, entries, hread, hopened⟩ := parse_valid h
  exact ⟨raw, counts, entries, hread, (readDocument_ofList _).symm.trans hread, hopened⟩

theorem tested_oneMemo {normal archived : String} {text : List Char} {α : Type} {test : Json → α}
    {a : α} (hvalid : (parseText (oneMemoText normal archived text) 8192).envelopeValid)
    (h : (readText (oneMemoText normal archived text)).bind
      (fun raw => raw.memos.map (·.map test)) = some [a]) :
    ∃ raw counts entries entry, readDocument (oneMemoData normal archived text) = some raw ∧
      Opened raw counts entries ∧ entries[0]? = some entry ∧ test entry = a := by
  obtain ⟨raw, counts, entries, hread, htext, hopened⟩ := opened_oneMemo hvalid
  rw [htext, Option.bind_some, hopened.memos, Option.map_some, Option.some.injEq,
    List.map_eq_singleton_iff] at h
  obtain ⟨entry, rfl, htest⟩ := h
  exact ⟨raw, counts, [entry], entry, hread, hopened, rfl, htest⟩

/-- An entry with a name alone is not strict, and is counted as invalid. -/
theorem parse_strict_unnamed : ∃ raw counts entries entry,
    readDocument (oneMemoData "1" "0" unnamedEntry) = some raw ∧ Opened raw counts entries ∧
      entries[0]? = some entry ∧ ¬Strict entry ∧
        (parse (oneMemoData "1" "0" unnamedEntry) 8192).CountedInvalid 0 := by
  -- one evaluation, which reads the text once
  have hfacts : (parseText (oneMemoText "1" "0" unnamedEntry) 8192).envelopeValid = true ∧
      (readText (oneMemoText "1" "0" unnamedEntry)).bind
        (fun raw => raw.memos.map (·.map fun entry =>
          decide (Strict entry) || nullAt "content" entry || nullAt "pinned" entry)) =
            some [false] := by decide +kernel
  obtain ⟨raw, counts, entries, entry, hread, hopened, hentry, htest⟩ :=
    tested_oneMemo hfacts.1 hfacts.2
  simp only [Bool.or_eq_false_iff, decide_eq_false_iff_not] at htest
  obtain ⟨⟨hstrict, hcontent⟩, hpinned⟩ := htest
  refine ⟨raw, counts, entries, entry, hread, hopened, hentry, hstrict, ?_⟩
  have hiff := (parse_strict_iff hread hopened 8192).2 0 entry hentry
  refine hiff.mpr (fun hnull => ?_) hstrict
  rw [hcontent, hpinned] at hnull
  rcases hnull with h | h <;> cases h

def nullEntry : List Char := memoEntry "NORMAL" "\"content\": null, " "null"

/-- It becomes a record, with an empty content and not pinned. -/
theorem nullEntry_recorded : ∃ raw counts entries entry,
    readDocument (oneMemoData "1" "0" nullEntry) = some raw ∧ Opened raw counts entries ∧
      entries[0]? = some entry ∧ ¬Strict entry ∧
        (parse (oneMemoData "1" "0" nullEntry) 8192).canImport ∧
          (parse (oneMemoData "1" "0" nullEntry) 8192).records =
            [⟨"memos/a", "NORMAL", ⟨1767225600, 0⟩, ⟨1767225600, 0⟩, "", "PRIVATE", false⟩] := by
  have hfacts : (parseText (oneMemoText "1" "0" nullEntry) 8192).envelopeValid = true ∧
      (readText (oneMemoText "1" "0" nullEntry)).bind
        (fun raw => raw.memos.map (·.map fun entry => decide (Strict entry))) = some [false] ∧
      (parseText (oneMemoText "1" "0" nullEntry) 8192).canImport = true ∧
      (parseText (oneMemoText "1" "0" nullEntry) 8192).records =
        [⟨"memos/a", "NORMAL", ⟨1767225600, 0⟩, ⟨1767225600, 0⟩, "", "PRIVATE", false⟩] := by
    decide +kernel
  obtain ⟨hvalid, hstrict, hcan, hrecords⟩ := hfacts
  obtain ⟨raw, counts, entries, entry, hread, hopened, hentry, htest⟩ :=
    tested_oneMemo hvalid hstrict
  refine ⟨raw, counts, entries, entry, hread, hopened, hentry, of_decide_eq_false htest, ?_⟩
  unfold oneMemoData
  rw [parse_ofList]
  exact ⟨hcan, hrecords⟩

end Memoark.Import
