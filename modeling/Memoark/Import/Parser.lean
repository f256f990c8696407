import Memoark.Go.Strings
import Memoark.Import.Record

/-! `Parse` of `internal/memoimport/parser.go`. -/
namespace Memoark.Import
open Time

inductive IssueKind where
  | invalid
  | unsupported
  deriving DecidableEq

structure Issue where
  recordIndex : Nat
  sourceName : String
  kind : IssueKind
  message : String

structure Document where
  envelopeValid : Bool
  blockingReason : String
  total : Nat
  normal : Nat
  archived : Nat
  invalid : Nat
  unsupported : Nat
  skipped : SkippedCounts
  issues : List Issue
  sourceUser : String
  /-- `none` is the zero time. -/
  exportedAt : Option Instant
  records : List Record

def Document.empty : Document := ⟨false, "", 0, 0, 0, 0, 0, .zero, [], "", none, []⟩

def Document.canImport (d : Document) : Bool := d.envelopeValid && d.invalid = 0

def invalidEnvelope (d : Document) (reason : String) : Document :=
  { d with
    envelopeValid := false
    blockingReason := reason
    issues := d.issues ++ [⟨0, "", .invalid, reason⟩] }

structure Progress where
  document : Document
  seenNames : List String
  actualNormal : Nat
  actualArchived : Nat
  allStatesValid : Bool

def skippedIssues (index : Nat) (name : String) (c : SkippedCounts) : List Issue :=
  let issue (n : Nat) (message : String) : List Issue :=
    if 0 < n then [⟨index, name, .unsupported, message⟩] else []
  issue c.attachments s!"{c.attachments} attachment metadata item(s) will be skipped" ++
    issue c.relations s!"{c.relations} relation(s) will be skipped" ++
    issue c.reactions s!"{c.reactions} reaction(s) will be skipped" ++
    issue c.locations "location will be skipped"

def Document.addSkipped (d : Document) (c : SkippedCounts) : Document :=
  { d with
    skipped := { d.skipped with
      attachments := d.skipped.attachments + c.attachments
      relations := d.skipped.relations + c.relations
      reactions := d.skipped.reactions + c.reactions
      locations := d.skipped.locations + c.locations } }

def Document.addInvalid (d : Document) (index : Nat) (name message : String) : Document :=
  { d with
    invalid := d.invalid + 1
    issues := d.issues ++ [⟨index, name, .invalid, message⟩] }

def Document.addComment (d : Document) (index : Nat) (name : String) : Document :=
  { d with
    unsupported := d.unsupported + 1
    skipped := { d.skipped with comments := d.skipped.comments + 1 }
    issues := d.issues ++
      [⟨index, name, .unsupported, "comments are not restored in import v1"⟩] }

def Document.addRecord (d : Document) (index : Nat) (record : Record) (c : SkippedCounts) :
    Document :=
  { d with
    normal := if record.state = "NORMAL" then d.normal + 1 else d.normal
    archived := if record.state = "NORMAL" then d.archived else d.archived + 1
    issues := d.issues ++ skippedIssues index record.sourceName c
    records := d.records ++ [record] }

def Progress.countState (p : Progress) (state : String) : Progress :=
  if state = "NORMAL" then { p with actualNormal := p.actualNormal + 1 }
  else if state = "ARCHIVED" then { p with actualArchived := p.actualArchived + 1 }
  else { p with allStatesValid := false }

def Progress.add (p : Progress) (index : Nat) (parsed : ParsedRecord) : Progress :=
  let q := p.countState parsed.state
  let d := q.document.addSkipped parsed.skipped
  match parsed.result with
  | .error e => { q with document := d.addInvalid index parsed.sourceName e }
  | .ok (record, comment) =>
    if record.sourceName ∈ q.seenNames then
      { q with document := d.addInvalid index record.sourceName "duplicate memo resource name" }
    else if comment then
      { q with
        document := d.addComment index record.sourceName
        seenNames := record.sourceName :: q.seenNames }
    else
      { q with
        document := d.addRecord index record parsed.skipped
        seenNames := record.sourceName :: q.seenNames }

def parseMemos (maxContentLength : Nat) : Nat → Progress → List Json → Progress
  | _, p, [] => p
  | index, p, memo :: memos =>
    parseMemos maxContentLength (index + 1) (p.add index (parseRecord memo maxContentLength)) memos

def finish (counts : RawCounts) (p : Progress) : Document :=
  if p.allStatesValid && (counts.normal ≠ p.actualNormal || counts.archived ≠ p.actualArchived) then
    invalidEnvelope p.document "declared state counts do not match memo records"
  else if 0 < p.document.invalid then
    { p.document with blockingReason := s!"{p.document.invalid} memo record(s) are invalid" }
  else p.document

def parseItems (counts : RawCounts) (memos : List Json) (maxContentLength : Nat) (d : Document) :
    Document :=
  if counts.total ≠ memos.length then
    invalidEnvelope d "declared memo count does not match memos array"
  else
    finish counts (parseMemos maxContentLength 1
      ⟨{ d with envelopeValid := true, total := memos.length }, [], 0, 0, true⟩ memos)

def parseContent (raw : RawDocument) (counts : RawCounts) (maxContentLength : Nat) (d : Document) :
    Document :=
  match raw.includedContent with
  | none => invalidEnvelope d "export does not include memo data"
  | some content =>
    if !content.memoData then invalidEnvelope d "export does not include memo data"
    else if !content.attachmentMetadata || content.attachmentFiles || content.comments ||
        content.instanceSettings then
      invalidEnvelope d "includedContent flags do not match MemoArk export v1"
    else
      match raw.memos with
      | none => invalidEnvelope d "missing memos array"
      | some memos => parseItems counts memos maxContentLength d

def parseCounts (raw : RawDocument) (maxContentLength : Nat) (d : Document) : Document :=
  match raw.counts with
  | none => invalidEnvelope d "missing or invalid export counts"
  | some counts =>
    if counts.total < 0 || counts.normal < 0 || counts.archived < 0 then
      invalidEnvelope d "missing or invalid export counts"
    else if counts.total ≠ counts.normal + counts.archived then
      invalidEnvelope d "export counts are inconsistent"
    else parseContent raw counts maxContentLength d

def parseUser (raw : RawDocument) (maxContentLength : Nat) (d : Document) : Document :=
  match raw.user with
  | none => invalidEnvelope d "missing export user identity"
  | some user =>
    if user.name = "" || user.username = "" then invalidEnvelope d "missing export user identity"
    else
      let sourceUser := if user.displayName = "" then user.username else user.displayName
      parseCounts raw maxContentLength { d with sourceUser }

def parseRaw (raw : RawDocument) (maxContentLength : Nat) : Document :=
  if raw.format ≠ some "memoark.memo-export" then
    invalidEnvelope .empty "unsupported export format; expected \"memoark.memo-export\""
  else if raw.formatVersion ≠ some 1 then
    invalidEnvelope .empty "unsupported export version; expected 1"
  else
    match raw.exportedAt with
    | none => invalidEnvelope .empty "missing exportedAt"
    | some text =>
      match parseRfc3339 text.toList with
      | none => invalidEnvelope .empty "invalid exportedAt timestamp"
      | some t => parseUser raw maxContentLength { Document.empty with exportedAt := some t }

/-- The error of a text that is no document, without the reason that a decoder gives. -/
def textError (text : List Char) : String :=
  match (Json.first text).bind fun (v, rest) => (decodeDocument v).map fun _ => rest with
  | none => "invalid export JSON"
  | some rest =>
    if (Json.first rest).isSome then "export JSON contains trailing data"
    else "invalid trailing export JSON"

def parseText (text : List Char) (maxContentLength : Nat) : Document :=
  if text.all Go.isSpace then invalidEnvelope .empty "export file is empty"
  else
    match (Json.parse text).bind decodeDocument with
    | none => invalidEnvelope .empty (textError text)
    | some raw => parseRaw raw maxContentLength

def parse (data : ByteArray) (maxContentLength : Nat) : Document :=
  match String.fromUTF8? data with
  | none => invalidEnvelope .empty "export JSON is not valid UTF-8"
  | some text => parseText text.toList maxContentLength

theorem fromUTF8?_toByteArray (s : String) : String.fromUTF8? s.toByteArray = some s := by
  simp only [String.fromUTF8?, s.isValidUTF8, dif_pos]
  rfl

theorem parse_ofList (text : List Char) (maxContentLength : Nat) :
    parse (String.ofList text).toByteArray maxContentLength = parseText text maxContentLength := by
  simp only [parse, fromUTF8?_toByteArray, String.toList_ofList]

end Memoark.Import
