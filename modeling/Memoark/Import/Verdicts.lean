import Memoark.Import.Accounting

/-! The loop of `Parse` as a list of verdicts, one for each entry, and when it is reached. -/
namespace Memoark.Import
open Time Program

inductive Verdict where
  | invalid (name message : String)
  | comment (name : String)
  | record (record : Record) (skipped : SkippedCounts)

namespace Verdict

def isInvalid : Verdict → Bool
  | .invalid _ _ => true
  | _ => false

def isComment : Verdict → Bool
  | .comment _ => true
  | _ => false

def record? : Verdict → Option Record
  | .record r _ => some r
  | _ => none

def name? : Verdict → Option String
  | .invalid _ _ => none
  | .comment name => some name
  | .record r _ => some r.sourceName

end Verdict

/-- The verdict on an entry after entries with the names `seen`. -/
def judge (seen : List String) (parsed : ParsedRecord) : Verdict :=
  match parsed.result with
  | .error e => .invalid parsed.sourceName e
  | .ok (record, comment) =>
    if record.sourceName ∈ seen then .invalid record.sourceName "duplicate memo resource name"
    else if comment then .comment record.sourceName
    else .record record parsed.skipped

def Verdict.seen (v : Verdict) (seen : List String) : List String := v.name?.toList ++ seen

def verdicts (limit : Nat) : List String → List Json → List Verdict
  | _, [] => []
  | seen, entry :: entries =>
    judge seen (parseRecord entry limit) ::
      verdicts limit ((judge seen (parseRecord entry limit)).seen seen) entries

def Document.addVerdict (d : Document) (index : Nat) : Verdict → Document
  | .invalid name message => d.addInvalid index name message
  | .comment name => d.addComment index name
  | .record r c => d.addRecord index r c

theorem Progress.countState_seenNames (p : Progress) (state : String) :
    (p.countState state).seenNames = p.seenNames := by
  unfold Progress.countState
  split
  · rfl
  · split <;> rfl

theorem Progress.add_eq (p : Progress) (index : Nat) (parsed : ParsedRecord) :
    p.add index parsed = { p.countState parsed.state with
      document := (p.document.addSkipped parsed.skipped).addVerdict index (judge p.seenNames parsed)
      seenNames := (judge p.seenNames parsed).seen p.seenNames } := by
  have hdocument := p.countState_document parsed.state
  have hseen := p.countState_seenNames parsed.state
  unfold Progress.add judge
  cases parsed.result with
  | error e =>
    simp only [hdocument]
    rw [← hseen]
    rfl
  | ok result =>
    obtain ⟨record, comment⟩ := result
    simp only [hdocument, hseen]
    by_cases hmem : record.sourceName ∈ p.seenNames
    · rw [if_pos hmem, if_pos hmem, ← hseen]
      rfl
    · rw [if_neg hmem, if_neg hmem]
      cases comment <;> rfl

def invalidIssues : Nat → List Verdict → List Issue
  | _, [] => []
  | index, .invalid name message :: vs =>
    ⟨index, name, .invalid, message⟩ :: invalidIssues (index + 1) vs
  | index, .comment _ :: vs => invalidIssues (index + 1) vs
  | index, .record _ _ :: vs => invalidIssues (index + 1) vs

theorem invalidIssues_append (index : Nat) (vs ws : List Verdict) : invalidIssues index (vs ++ ws) =
    invalidIssues index vs ++ invalidIssues (index + vs.length) ws := by
  induction vs generalizing index with
  | nil => rfl
  | cons v vs ih =>
    have hlength : index + 1 + vs.length = index + (v :: vs).length := by
      rw [List.length_cons]
      omega
    cases v <;> simp only [List.cons_append, invalidIssues, ih, hlength]

theorem length_invalidIssues (index : Nat) (vs : List Verdict) :
    (invalidIssues index vs).length = vs.countP Verdict.isInvalid := by
  induction vs generalizing index with
  | nil => rfl
  | cons v vs ih =>
    cases v <;> simp [invalidIssues, List.countP_cons, Verdict.isInvalid, ih]

theorem mem_invalidIssues {index i : Nat} {vs : List Verdict} {name message : String}
    (h : vs[i]? = some (.invalid name message)) :
    ⟨index + i, name, .invalid, message⟩ ∈ invalidIssues index vs := by
  induction vs generalizing index i with
  | nil => cases h
  | cons v vs ih =>
    cases i with
    | zero =>
      obtain rfl := Option.some.inj h
      exact List.mem_cons_self
    | succ i =>
      have hmem : ⟨index + 1 + i, name, .invalid, message⟩ ∈ invalidIssues (index + 1) vs := ih h
      rw [Nat.add_right_comm, Nat.add_assoc] at hmem
      cases v with
      | invalid => exact List.mem_cons_of_mem _ hmem
      | comment | record => exact hmem

def isInvalidIssue (issue : Issue) : Bool := issue.kind = .invalid

structure Document.Shows (d : Document) (vs : List Verdict) : Prop where
  records : d.records = vs.filterMap Verdict.record?
  invalid : d.invalid = vs.countP Verdict.isInvalid
  unsupported : d.unsupported = vs.countP Verdict.isComment
  comments : d.skipped.comments = d.unsupported
  issues : d.issues.filter isInvalidIssue = invalidIssues 1 vs

theorem filter_skippedIssues (index : Nat) (name : String) (c : SkippedCounts) :
    (skippedIssues index name c).filter isInvalidIssue = [] := by
  rw [List.filter_eq_nil_iff]
  intro issue hissue
  have hkind : issue.kind = .unsupported := by
    simp only [skippedIssues, List.mem_append] at hissue
    rcases hissue with ((h | h) | h) | h <;> split at h <;> simp_all
  simp [isInvalidIssue, hkind]

theorem Document.Shows.addVerdict {d : Document} {vs : List Verdict} (h : d.Shows vs)
    (c : SkippedCounts) (v : Verdict) :
    ((d.addSkipped c).addVerdict (vs.length + 1) v).Shows (vs ++ [v]) := by
  have hindex : 1 + vs.length = vs.length + 1 := Nat.add_comm 1 _
  have hissues := h.issues
  cases v with
  | invalid name message =>
    constructor
    · rw [List.filterMap_append, ← h.records]
      exact (List.append_nil _).symm
    · rw [List.countP_append, ← h.invalid]
      rfl
    · rw [List.countP_append, ← h.unsupported]
      rfl
    · exact h.comments
    · rw [invalidIssues_append, ← hissues, hindex]
      exact List.filter_append ..
  | comment name =>
    constructor
    · rw [List.filterMap_append, ← h.records]
      exact (List.append_nil _).symm
    · rw [List.countP_append, ← h.invalid]
      rfl
    · rw [List.countP_append, ← h.unsupported]
      rfl
    · exact congrArg (· + 1) h.comments
    · rw [invalidIssues_append, ← hissues]
      exact List.filter_append ..
  | record r c' =>
    constructor
    · rw [List.filterMap_append, ← h.records]
      rfl
    · rw [List.countP_append, ← h.invalid]
      rfl
    · rw [List.countP_append, ← h.unsupported]
      rfl
    · exact h.comments
    · rw [invalidIssues_append, ← hissues]
      refine (List.filter_append ..).trans ?_
      rw [filter_skippedIssues]
      rfl

theorem parseMemos_shows {p : Progress} {vs : List Verdict} (h : p.document.Shows vs) (limit : Nat)
    (entries : List Json) :
    (parseMemos limit (vs.length + 1) p entries).document.Shows
      (vs ++ verdicts limit p.seenNames entries) := by
  induction entries generalizing p vs with
  | nil =>
    rw [verdicts, List.append_nil]
    exact h
  | cons entry entries ih =>
    rw [parseMemos, Progress.add_eq, verdicts]
    have hround := h.addVerdict (parseRecord entry limit).skipped
      (judge p.seenNames (parseRecord entry limit))
    have hrest := ih (p := { p.countState (parseRecord entry limit).state with
      document := (p.document.addSkipped (parseRecord entry limit).skipped).addVerdict
        (vs.length + 1) (judge p.seenNames (parseRecord entry limit))
      seenNames := (judge p.seenNames (parseRecord entry limit)).seen p.seenNames }) hround
    rw [List.length_append, List.length_singleton, List.append_assoc] at hrest
    exact hrest

def readText (text : List Char) : Option RawDocument :=
  if text.all Go.isSpace then none else (Json.parse text).bind decodeDocument

/-- What an import file says, unless it is empty or cannot be decoded. -/
def readDocument (data : ByteArray) : Option RawDocument :=
  (String.fromUTF8? data).bind fun text => readText text.toList

theorem readDocument_ofList (text : List Char) :
    readDocument (String.ofList text).toByteArray = readText text := by
  rw [readDocument, fromUTF8?_toByteArray, Option.bind_some, String.toList_ofList]

/-- The parts of the envelope that must be there before the entries are read. -/
structure Opened (raw : RawDocument) (counts : RawCounts) (entries : List Json) : Prop where
  format : raw.format = some "memoark.memo-export"
  formatVersion : raw.formatVersion = some 1
  exportedAt : ∃ text t, raw.exportedAt = some text ∧ parseRfc3339 text.toList = some t
  user : ∃ user, raw.user = some user ∧ user.name ≠ "" ∧ user.username ≠ ""
  declared : raw.counts = some counts
  natural : 0 ≤ counts.total ∧ 0 ≤ counts.normal ∧ 0 ≤ counts.archived
  sum : counts.total = counts.normal + counts.archived
  content : ∃ content, raw.includedContent = some content ∧ content.memoData ∧
    content.attachmentMetadata ∧ !content.attachmentFiles ∧ !content.comments ∧
    !content.instanceSettings
  memos : raw.memos = some entries
  length : counts.total = entries.length

def Document.start (d : Document) (total : Nat) : Progress :=
  ⟨{ d with envelopeValid := true, total }, [], 0, 0, true⟩

/-- A document without entries: nothing is counted yet. -/
structure Document.Blank (d : Document) : Prop where
  shows : d.Shows []
  accounted : d.Accounted
  records : d.records = []
  envelopeValid : d.envelopeValid = false

theorem Document.Shows.start {d : Document} (h : d.Shows []) (total : Nat) :
    (d.start total).document.Shows [] :=
  ⟨h.records, h.invalid, h.unsupported, h.comments, h.issues⟩

theorem parseRaw_opened {raw : RawDocument} {counts : RawCounts} {entries : List Json}
    (h : Opened raw counts entries) (limit : Nat) : ∃ d : Document, d.Blank ∧
      parseRaw raw limit =
        finish counts (parseMemos limit 1 (d.start entries.length) entries) := by
  obtain ⟨text, t, htext, ht⟩ := h.exportedAt
  obtain ⟨user, huser, hname, husername⟩ := h.user
  obtain ⟨content, hcontent, hdata, hmetadata, hfiles, hcomments, hsettings⟩ := h.content
  obtain ⟨htotal, hnormal, harchived⟩ := h.natural
  refine ⟨{ Document.empty with
    exportedAt := some t
    sourceUser := if user.displayName = "" then user.username else user.displayName }, ?_, ?_⟩
  · exact ⟨⟨rfl, rfl, rfl, rfl, rfl⟩, ⟨rfl, rfl, fun r hr => absurd hr List.not_mem_nil⟩, rfl, rfl⟩
  · have hcounts : (counts.total < 0 || counts.normal < 0 || counts.archived < 0) = false := by
      simp only [Bool.or_eq_false_iff, decide_eq_false_iff_not]
      omega
    have hflags : (!content.attachmentMetadata || content.attachmentFiles || content.comments ||
        content.instanceSettings) = false := by simp_all
    have hsum : ¬counts.total ≠ counts.normal + counts.archived := not_not_intro h.sum
    have hlength : ¬counts.total ≠ entries.length := not_not_intro h.length
    simp only [parseRaw, h.format, h.formatVersion, htext, ht, parseUser, huser, hname, husername,
      parseCounts, h.declared, hcounts, hsum, parseContent, hcontent, hdata, hflags, h.memos,
      parseItems, hlength, ne_eq, not_true_eq_false, decide_false, Bool.or_self, Bool.not_true,
      Bool.false_eq_true, reduceIte]
    rfl

theorem not_valid_invalidEnvelope {d : Document} {reason : String} :
    ¬(invalidEnvelope d reason).envelopeValid := Bool.false_ne_true

theorem parseContent_valid {raw : RawDocument} {counts : RawCounts} {limit : Nat} {d : Document}
    (h : (parseContent raw counts limit d).envelopeValid) :
    ∃ content entries, raw.includedContent = some content ∧ content.memoData ∧
      content.attachmentMetadata ∧ !content.attachmentFiles ∧ !content.comments ∧
      !content.instanceSettings ∧ raw.memos = some entries ∧ counts.total = entries.length := by
  unfold parseContent at h
  split at h
  · exact absurd h not_valid_invalidEnvelope
  rename_i content hcontent
  split at h
  · exact absurd h not_valid_invalidEnvelope
  rename_i hdata
  split at h
  · exact absurd h not_valid_invalidEnvelope
  rename_i hflags
  split at h
  · exact absurd h not_valid_invalidEnvelope
  rename_i entries hentries
  unfold parseItems at h
  split at h
  · exact absurd h not_valid_invalidEnvelope
  rename_i hlength
  refine ⟨content, entries, hcontent, ?_⟩
  simp_all

theorem parseCounts_valid {raw : RawDocument} {limit : Nat} {d : Document}
    (h : (parseCounts raw limit d).envelopeValid) :
    ∃ counts, raw.counts = some counts ∧
      (0 ≤ counts.total ∧ 0 ≤ counts.normal ∧ 0 ≤ counts.archived) ∧
      counts.total = counts.normal + counts.archived ∧
      (parseContent raw counts limit d).envelopeValid := by
  unfold parseCounts at h
  split at h
  · exact absurd h not_valid_invalidEnvelope
  rename_i counts hcounts
  split at h
  · exact absurd h not_valid_invalidEnvelope
  rename_i hnatural
  split at h
  · exact absurd h not_valid_invalidEnvelope
  rename_i hsum
  refine ⟨counts, hcounts, ?_, Decidable.not_not.mp hsum, h⟩
  simp only [Bool.or_eq_true, decide_eq_true_eq] at hnatural
  omega

theorem parseUser_valid {raw : RawDocument} {limit : Nat} {d : Document}
    (h : (parseUser raw limit d).envelopeValid) :
    ∃ user, raw.user = some user ∧ user.name ≠ "" ∧ user.username ≠ "" ∧
      ∃ d', (parseCounts raw limit d').envelopeValid := by
  unfold parseUser at h
  cases huser : raw.user with
  | none =>
    rw [huser] at h
    exact absurd h not_valid_invalidEnvelope
  | some user =>
    rw [huser] at h
    dsimp only at h
    by_cases hnames : (user.name = "" || user.username = "") = true
    · rw [if_pos hnames] at h
      exact absurd h not_valid_invalidEnvelope
    · rw [if_neg hnames] at h
      simp only [Bool.or_eq_true, decide_eq_true_eq, not_or] at hnames
      exact ⟨user, rfl, hnames.1, hnames.2, _, h⟩

theorem parseRaw_valid {raw : RawDocument} {limit : Nat} (h : (parseRaw raw limit).envelopeValid) :
    ∃ counts entries, Opened raw counts entries := by
  unfold parseRaw at h
  split at h
  · exact absurd h not_valid_invalidEnvelope
  rename_i hformat
  split at h
  · exact absurd h not_valid_invalidEnvelope
  rename_i hversion
  split at h
  · exact absurd h not_valid_invalidEnvelope
  rename_i text htext
  split at h
  · exact absurd h not_valid_invalidEnvelope
  rename_i t ht
  obtain ⟨user, huser, hname, husername, d, h⟩ := parseUser_valid h
  obtain ⟨counts, hcounts, hnatural, hsum, h⟩ := parseCounts_valid h
  obtain ⟨content, entries, hcontent, hdata, hmetadata, hfiles, hcomments, hsettings, hentries,
    hlength⟩ := parseContent_valid h
  exact ⟨counts, entries, Decidable.not_not.mp hformat, Decidable.not_not.mp hversion,
    ⟨text, t, htext, ht⟩, ⟨user, huser, hname, husername⟩, hcounts, hnatural, hsum,
    ⟨content, hcontent, hdata, hmetadata, hfiles, hcomments, hsettings⟩, hentries, hlength⟩

theorem parse_eq_parseRaw {data : ByteArray} {raw : RawDocument} (h : readDocument data = some raw)
    (limit : Nat) : parse data limit = parseRaw raw limit := by
  obtain ⟨text, htext, h⟩ := Option.bind_eq_some_iff.mp h
  unfold readText at h
  unfold parse
  rw [htext]
  dsimp only
  unfold parseText
  by_cases hblank : text.toList.all Go.isSpace = true
  · rw [if_pos hblank] at h
    cases h
  · rw [if_neg hblank] at h ⊢
    rw [h]

theorem parse_undecoded {data : ByteArray} (h : readDocument data = none) (limit : Nat) :
    ∃ d reason, parse data limit = invalidEnvelope d reason := by
  unfold readDocument at h
  unfold parse
  cases htext : String.fromUTF8? data with
  | none => exact ⟨_, _, rfl⟩
  | some text =>
    rw [htext] at h
    dsimp only [Option.bind_some] at h ⊢
    unfold readText at h
    unfold parseText
    by_cases hblank : text.toList.all Go.isSpace = true
    · rw [if_pos hblank]
      exact ⟨_, _, rfl⟩
    · rw [if_neg hblank] at h ⊢
      rw [h]
      exact ⟨_, _, rfl⟩

theorem parse_valid {data : ByteArray} {limit : Nat} (h : (parse data limit).envelopeValid) :
    ∃ raw counts entries, readDocument data = some raw ∧ Opened raw counts entries := by
  cases hraw : readDocument data with
  | none =>
    obtain ⟨d, reason, hparse⟩ := parse_undecoded hraw limit
    rw [hparse] at h
    exact absurd h not_valid_invalidEnvelope
  | some raw =>
    rw [parse_eq_parseRaw hraw] at h
    obtain ⟨counts, entries, hopened⟩ := parseRaw_valid h
    exact ⟨raw, counts, entries, rfl, hopened⟩

theorem parse_opened {data : ByteArray} {raw : RawDocument} {counts : RawCounts}
    {entries : List Json} (hread : readDocument data = some raw)
    (hopened : Opened raw counts entries) (limit : Nat) : ∃ d : Document, d.Blank ∧ parse data limit =
      finish counts (parseMemos limit 1 (d.start entries.length) entries) := by
  rw [parse_eq_parseRaw hread]
  exact parseRaw_opened hopened limit

end Memoark.Import
