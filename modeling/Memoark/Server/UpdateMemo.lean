import Memoark.Store.Tables

/-! `UpdateMemo` of `server/router/api/v1/memo_service.go` up to its write, and
`RebuildMemoPayload` of `server/runner/memopayload/runner.go`. -/
namespace Memoark.Server
open Store

structure Metadata where
  tags : List String
  property : Option MemoPayload.Property

/-- `ExtractAll` of the markdown service; `none` is an error. -/
abbrev ExtractAll := String → Option Metadata

def rebuildMemoPayload (extractAll : ExtractAll) (memo : Memo) : Option Memo :=
  (extractAll memo.content).map fun data =>
    { memo with payload := { memo.payload with tags := data.tags, property := data.property } }

def PayloadMatches (extractAll : ExtractAll) (memo : Memo) : Prop :=
  extractAll memo.content = some ⟨memo.payload.tags, memo.payload.property⟩

theorem rebuildMemoPayload_matches {extractAll : ExtractAll} {memo memo' : Memo}
    (h : rebuildMemoPayload extractAll memo = some memo') : PayloadMatches extractAll memo' := by
  obtain ⟨data, hdata, rfl⟩ := Option.map_eq_some_iff.mp h
  exact hdata

theorem rebuildMemoPayload_content {extractAll : ExtractAll} {memo memo' : Memo}
    (h : rebuildMemoPayload extractAll memo = some memo') : memo'.content = memo.content := by
  obtain ⟨data, _, rfl⟩ := Option.map_eq_some_iff.mp h
  rfl

theorem rebuildMemoPayload_location {extractAll : ExtractAll} {memo memo' : Memo}
    (h : rebuildMemoPayload extractAll memo = some memo') :
    memo'.payload.location = memo.payload.location := by
  obtain ⟨data, _, rfl⟩ := Option.map_eq_some_iff.mp h
  rfl

theorem PayloadMatches.congr {extractAll : ExtractAll} {memo memo' : Memo}
    (h : PayloadMatches extractAll memo) (hc : memo'.content = memo.content)
    (ht : memo'.payload.tags = memo.payload.tags)
    (hp : memo'.payload.property = memo.payload.property) : PayloadMatches extractAll memo' := by
  unfold PayloadMatches
  rw [hc, ht, hp]
  exact h

namespace Api

inductive Visibility where
  | unspecified
  | Private
  | Protected
  | Public

inductive State where
  | unspecified
  | normal
  | archived

structure Timestamp where
  seconds : Int
  nanos : Int

def Timestamp.unix : Option Timestamp → Int
  | some t => t.seconds + t.nanos.fdiv 1000000000
  | none => 0

end Api

def convertVisibilityToStore : Api.Visibility → Visibility
  | .Protected => .Protected
  | .Public => .Public
  | _ => .Private

def convertStateToStore : Api.State → RowStatus
  | .archived => .archived
  | _ => .normal

inductive Path where
  | content
  | visibility
  | pinned
  | state
  | createTime
  | updateTime
  | displayTime
  | location
  | attachments
  | relations
  | other (path : String)
  deriving DecidableEq

structure UpdateMemoRequest where
  content : String
  visibility : Api.Visibility
  pinned : Bool
  state : Api.State
  createTime : Option Api.Timestamp
  updateTime : Option Api.Timestamp
  location : Option MemoPayload.Location
  paths : List Path

structure User where
  id : Nat
  isSuperUser : Bool

/-- What the clock and the reads and writes of other rows answer while one path is handled;
`none` is a failure. -/
structure Answers where
  contentLengthLimit : Option Nat
  /-- The visibility of the parent; the inner `none` is a parent that is gone. -/
  parentMemo : Option (Option Visibility)
  now : Int
  setMemoAttachments : Option Unit
  setMemoRelations : Option Unit

/-- The locals of `UpdateMemo`. `update.Content` and `update.Payload` are pointers into `memo`,
so a later path changes what they write. -/
structure Draft where
  memo : Memo
  createdTs : Option Int
  updatedTs : Option Int
  rowStatus : Option RowStatus
  visibility : Option Visibility
  pinned : Option Bool
  contentSet : Bool
  payloadSet : Bool

def Draft.start (memo : Memo) : Draft := ⟨memo, none, none, none, none, none, false, false⟩

def Draft.update (d : Draft) : UpdateMemo where
  createdTs := d.createdTs
  updatedTs := d.updatedTs
  rowStatus := d.rowStatus
  content := if d.contentSet then some d.memo.content else none
  visibility := d.visibility
  pinned := d.pinned
  payload := if d.payloadSet then some d.memo.payload else none

/-- The checks before the mask loop, with the memo that was read; the outer `none` is a failure
to get the user. -/
def checkUpdateMemo (request : UpdateMemoRequest) (memo : Memo) (user : Option (Option User)) :
    Except String Unit := do
  if request.paths.isEmpty then throw "update mask is required"
  let some found := user | throw "failed to get current user"
  let some user := found | throw "user not authenticated"
  if memo.creatorId ≠ user.id && !user.isSuperUser then throw "permission denied"

/-- The visibility a path `visibility` sets: a comment takes its parent's. -/
def updatedVisibility (request : UpdateMemoRequest) (answers : Answers) (memo : Memo) :
    Except String Visibility :=
  match memo.parentUid, answers.parentMemo with
  | none, _ => .ok (convertVisibilityToStore request.visibility)
  | some _, none => .error "failed to get parent memo"
  | some _, some none => .error "memo not found"
  | some _, some (some visibility) => .ok visibility

def applyPath (extractAll : ExtractAll) (request : UpdateMemoRequest) (answers : Answers)
    (d : Draft) : Path → Except String Draft
  | .content => do
    let some limit := answers.contentLengthLimit | throw "failed to get content length limit"
    if request.content.utf8ByteSize > limit then
      throw s!"content too long (max {limit} characters)"
    let some memo := rebuildMemoPayload extractAll { d.memo with content := request.content }
      | throw "failed to rebuild memo payload"
    pure { d with memo := memo, contentSet := true, payloadSet := true }
  | .visibility => do
    let visibility ← updatedVisibility request answers d.memo
    pure { d with visibility := some visibility }
  | .pinned => pure { d with pinned := some request.pinned }
  | .state => pure { d with rowStatus := some (convertStateToStore request.state) }
  | .createTime => pure { d with createdTs := some (Api.Timestamp.unix request.createTime) }
  | .updateTime =>
    match request.updateTime with
    | some _ => pure { d with updatedTs := some (Api.Timestamp.unix request.updateTime) }
    | none => pure { d with updatedTs := some answers.now }
  | .displayTime => throw "display_time is not supported"
  | .location =>
    pure { d with
      memo := { d.memo with payload := { d.memo.payload with location := request.location } }
      payloadSet := true }
  | .attachments => do
    let some _ := answers.setMemoAttachments | throw "failed to set memo attachments"
    pure d
  | .relations => do
    let some _ := answers.setMemoRelations | throw "failed to set memo relations"
    pure d
  | .other _ => pure d

/-- What a path of the mask that is not refused makes of the draft. -/
inductive Applied (extractAll : ExtractAll) (request : UpdateMemoRequest) (answers : Answers)
    (d : Draft) : Path → Draft → Prop
  | content {memo : Memo}
      (hm : rebuildMemoPayload extractAll { d.memo with content := request.content } = some memo) :
      Applied extractAll request answers d .content
        { d with memo, contentSet := true, payloadSet := true }
  | visibility {v : Visibility} (hv : updatedVisibility request answers d.memo = .ok v) :
      Applied extractAll request answers d .visibility { d with visibility := some v }
  | pinned : Applied extractAll request answers d .pinned { d with pinned := some request.pinned }
  | state : Applied extractAll request answers d .state
      { d with rowStatus := some (convertStateToStore request.state) }
  | createTime : Applied extractAll request answers d .createTime
      { d with createdTs := some (Api.Timestamp.unix request.createTime) }
  | updateTime {time : Int} (ht : time = if request.updateTime.isSome then
        Api.Timestamp.unix request.updateTime else answers.now) :
      Applied extractAll request answers d .updateTime { d with updatedTs := some time }
  | location : Applied extractAll request answers d .location
      { d with
        memo := { d.memo with payload := { d.memo.payload with location := request.location } }
        payloadSet := true }
  | attachments : Applied extractAll request answers d .attachments d
  | relations : Applied extractAll request answers d .relations d
  | other {path : String} : Applied extractAll request answers d (.other path) d

theorem applyPath_ok {extractAll : ExtractAll} {request : UpdateMemoRequest} {answers : Answers}
    {d d' : Draft} {path : Path} (h : applyPath extractAll request answers d path = .ok d') :
    Applied extractAll request answers d path d' := by
  cases path with
  | content =>
    simp only [applyPath] at h
    cases hl : answers.contentLengthLimit with
    | none => rw [hl] at h; cases h
    | some limit =>
      rw [hl] at h
      by_cases hlen : request.content.utf8ByteSize > limit
      · simp [hlen] at h; cases h
      · simp only [hlen] at h
        cases hm : rebuildMemoPayload extractAll { d.memo with content := request.content } with
        | none => rw [hm] at h; cases h
        | some memo => rw [hm] at h; cases h; exact .content hm
  | visibility =>
    simp only [applyPath] at h
    cases hv : updatedVisibility request answers d.memo with
    | error e => rw [hv] at h; cases h
    | ok v => rw [hv] at h; cases h; exact .visibility hv
  | pinned => cases h; exact .pinned
  | state => cases h; exact .state
  | createTime => cases h; exact .createTime
  | updateTime =>
    simp only [applyPath] at h
    split at h <;> rename_i htime <;> cases h <;> exact .updateTime (by rw [htime]; rfl)
  | displayTime => cases h
  | location => cases h; exact .location
  | attachments =>
    simp only [applyPath] at h
    cases ha : answers.setMemoAttachments with
    | none => rw [ha] at h; cases h
    | some _ => rw [ha] at h; cases h; exact .attachments
  | relations =>
    simp only [applyPath] at h
    cases ha : answers.setMemoRelations with
    | none => rw [ha] at h; cases h
    | some _ => rw [ha] at h; cases h; exact .relations
  | other path => cases h; exact .other

inductive Round (extractAll : ExtractAll) (request : UpdateMemoRequest) (d d' : Draft) :
    Path → Prop
  | content (hc : d'.contentSet = true) (hp : d'.payloadSet = true)
      (hm : rebuildMemoPayload extractAll { d.memo with content := request.content } =
        some d'.memo) : Round extractAll request d d' .content
  | location (hc : d'.contentSet = d.contentSet) (hp : d'.payloadSet = true)
      (hm : d'.memo =
        { d.memo with payload := { d.memo.payload with location := request.location } }) :
      Round extractAll request d d' .location
  | other {path : Path} (hcp : path ≠ .content) (hlp : path ≠ .location)
      (hc : d'.contentSet = d.contentSet) (hp : d'.payloadSet = d.payloadSet)
      (hm : d'.memo = d.memo) :
      Round extractAll request d d' path

theorem applyPath_round {extractAll : ExtractAll} {request : UpdateMemoRequest}
    {answers : Answers} {d d' : Draft} {path : Path}
    (h : applyPath extractAll request answers d path = .ok d') :
    Round extractAll request d d' path := by
  cases applyPath_ok h with
  | content hm => exact .content rfl rfl hm
  | location => exact .location rfl rfl rfl
  | _ => exact .other nofun nofun rfl rfl rfl

end Memoark.Server
