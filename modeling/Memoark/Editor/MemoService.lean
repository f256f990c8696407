import Memoark.Server.WriteBack

/-! How the editor saves a memo that exists: `web/src/components/MemoEditor/services/memoService.ts`. -/
namespace Memoark.Editor.MemoService
open Server Store

deriving instance DecidableEq for Api.Visibility
deriving instance DecidableEq for Api.Timestamp
deriving instance DecidableEq for Api.Attachment

abbrev Date := Int

def timestampDate (t : Api.Timestamp) : Date := t.seconds * 1000 + (t.nanos + 500000).fdiv 1000000

def timestampFromDate (date : Date) : Api.Timestamp := ⟨date.fdiv 1000, date.fmod 1000 * 1000000⟩

/-- A relation of a message; `none` is a field that is not set. -/
structure MemoRelation where
  memo : Option Api.MemoRelation.Memo
  relatedMemo : Option Api.MemoRelation.Memo
  type : Option Api.MemoRelation.Type
  deriving DecidableEq

structure Memo where
  name : String
  content : String
  visibility : Api.Visibility
  attachments : List Api.Attachment
  relations : List MemoRelation
  location : Option MemoPayload.Location
  createTime : Option Api.Timestamp
  updateTime : Option Api.Timestamp

structure EditorState where
  content : String
  visibility : Api.Visibility
  attachments : List Api.Attachment
  relations : List MemoRelation
  location : Option MemoPayload.Location
  createTime : Option Date
  updateTime : Option Date

def received (message : Api.Memo) : Memo where
  name := message.name
  content := message.content
  visibility := message.visibility
  attachments := message.attachments
  relations := message.relations.map fun r => ⟨some r.memo, some r.relatedMemo, some r.type⟩
  location := message.location
  createTime := some message.createTime
  updateTime := some message.updateTime

def fromMemo (memo : Memo) : EditorState where
  content := memo.content
  visibility := memo.visibility
  attachments := memo.attachments
  relations := memo.relations
  location := memo.location
  createTime := memo.createTime.map timestampDate
  updateTime := memo.updateTime.map timestampDate

def toAttachmentReferences (attachments : List Api.Attachment) : List String :=
  attachments.map (·.name)

/-- The fields of a request; what is not set is sent as its default. -/
structure Patch where
  name : String
  content : String
  visibility : Api.Visibility := .unspecified
  attachments : List String := []
  relations : List MemoRelation := []
  location : Option MemoPayload.Location := none
  createTime : Option Api.Timestamp := none
  updateTime : Option Api.Timestamp := none

structure MaskedPatch where
  mask : List Path
  patch : Patch

def addPath (mask : List Path) (path : Path) : List Path :=
  if path ∈ mask then mask else mask ++ [path]

def MaskedPatch.put (p : MaskedPatch) (differs : Bool) (path : Path) (patch : Patch → Patch) :
    MaskedPatch :=
  if differs then ⟨addPath p.mask path, patch p.patch⟩ else p

def contentPaths : List Path := [.content, .attachments, .relations, .location]

def dateDiffers (date : Option Date) (prev : Option Api.Timestamp) : Bool :=
  date.isSome && date ≠ prev.map timestampDate

section masks

variable {p : MaskedPatch} {differs : Bool} {path : Path} {patch : Patch → Patch}

theorem MaskedPatch.mem_put {path' : Path} :
    path ∈ (p.put differs path' patch).mask ↔ path ∈ p.mask ∨ differs = true ∧ path = path' := by
  unfold put addPath
  cases differs with
  | false => simp
  | true =>
    by_cases hmem : path' ∈ p.mask
    · simp only [if_true, if_pos hmem, true_and]
      constructor
      · exact .inl
      · rintro (h | rfl)
        · exact h
        · exact hmem
    · simp only [if_true, if_neg hmem, List.mem_append, List.mem_singleton, true_and]

theorem MaskedPatch.put_patch {γ : Type} (get : Patch → γ) (hpatch : ∀ q, get (patch q) = get q) :
    get (p.put differs path patch).patch = get p.patch := by
  unfold put
  cases differs with
  | false => rfl
  | true => exact hpatch p.patch

end masks

section save

variable [DecidableEq MemoPayload.Location]

def buildUpdateMask (prevMemo : Memo) (state : EditorState) (allAttachments : List Api.Attachment) :
    MaskedPatch :=
  let p : MaskedPatch := ⟨[], { name := prevMemo.name, content := state.content }⟩
  let p := p.put (state.content ≠ prevMemo.content) .content ({ · with content := state.content })
  let p := p.put (state.visibility ≠ prevMemo.visibility) .visibility
    ({ · with visibility := state.visibility })
  let p := p.put (allAttachments ≠ prevMemo.attachments) .attachments
    ({ · with attachments := toAttachmentReferences allAttachments })
  let p := p.put (state.relations ≠ prevMemo.relations) .relations
    ({ · with relations := state.relations })
  let p := p.put (state.location ≠ prevMemo.location) .location
    ({ · with location := state.location })
  let p := p.put (contentPaths.any (· ∈ p.mask)) .updateTime id
  let p := p.put (dateDiffers state.createTime prevMemo.createTime) .createTime
    ({ · with createTime := state.createTime.map timestampFromDate })
  p.put (dateDiffers state.updateTime prevMemo.updateTime) .updateTime
    ({ · with updateTime := state.updateTime.map timestampFromDate })

def matchesPersistedEditorState (memo : Memo) (state : EditorState)
    (allAttachments : List Api.Attachment) (baseUpdateTime : Option Date) : Bool :=
  state.content = memo.content && state.visibility = memo.visibility &&
    allAttachments = memo.attachments && state.relations = memo.relations &&
    state.location = memo.location && !dateDiffers state.createTime memo.createTime &&
    -- The update time counts where the user has changed it.
    (state.updateTime.isNone || state.updateTime = baseUpdateTime ||
      !dateDiffers state.updateTime memo.updateTime)

def MaskedPatch.call (p : MaskedPatch) : WriteMemos.UpdateCall where
  name := p.patch.name
  memo := {
    content := p.patch.content
    visibility := p.patch.visibility
    pinned := false
    state := .unspecified
    createTime := p.patch.createTime
    updateTime := p.patch.updateTime
    location := p.patch.location
    paths := p.mask }
  attachments := p.patch.attachments
  relations := p.patch.relations.map fun r => ⟨r.relatedMemo.map (·.name), r.type⟩

structure SaveOptions where
  retrying : Bool
  baseUpdateTime : Option Date

structure SaveResult where
  memoName : String
  hasChanges : Bool
  confirmedExisting : Bool
  deriving DecidableEq

/-- The call of the server is a parameter. -/
def saveExistingMemo {m : Type → Type} [Monad m] (updateMemo : WriteMemos.UpdateCall → m Api.Memo)
    (prevMemo : Memo) (state : EditorState) (allAttachments : List Api.Attachment)
    (options : SaveOptions) : m SaveResult :=
  if options.retrying &&
      matchesPersistedEditorState prevMemo state allAttachments options.baseUpdateTime then
    pure ⟨prevMemo.name, false, true⟩
  else
    let p := buildUpdateMask prevMemo state allAttachments
    if p.mask = [] then pure ⟨prevMemo.name, false, false⟩
    else do
      let memo ← updateMemo p.call
      return ⟨memo.name, true, false⟩

def updateCall (prevMemo : Memo) (state : EditorState) (allAttachments : List Api.Attachment)
    (options : SaveOptions) : Option WriteMemos.UpdateCall :=
  match saveExistingMemo Except.error prevMemo state allAttachments options with
  | .error call => some call
  | .ok _ => none

variable {prev : Memo} {state : EditorState} {all : List Api.Attachment} {options : SaveOptions}

def Rewrites (prev : Memo) (state : EditorState) (all : List Api.Attachment) : Prop :=
  state.content ≠ prev.content ∨ all ≠ prev.attachments ∨ state.relations ≠ prev.relations ∨
    state.location ≠ prev.location

def Differs (prev : Memo) (state : EditorState) (all : List Api.Attachment) : Path → Prop
  | .content => state.content ≠ prev.content
  | .visibility => state.visibility ≠ prev.visibility
  | .attachments => all ≠ prev.attachments
  | .relations => state.relations ≠ prev.relations
  | .location => state.location ≠ prev.location
  | .createTime => dateDiffers state.createTime prev.createTime
  | .updateTime => Rewrites prev state all ∨ dateDiffers state.updateTime prev.updateTime
  | _ => False

theorem mem_buildUpdateMask (path : Path) :
    path ∈ (buildUpdateMask prev state all).mask ↔ Differs prev state all path := by
  unfold buildUpdateMask
  simp only [MaskedPatch.mem_put, List.any_eq_true, contentPaths, List.not_mem_nil, false_or,
    decide_eq_true_eq]
  cases path with
  | updateTime => simp [Differs, Rewrites, or_assoc]
  | _ => simp [Differs]

theorem buildUpdateMask_updateTime : (buildUpdateMask prev state all).patch.updateTime =
    if dateDiffers state.updateTime prev.updateTime then state.updateTime.map timestampFromDate
    else none := by
  unfold buildUpdateMask
  cases dateDiffers state.updateTime prev.updateTime with
  | true => rfl
  | false =>
    dsimp only
    rw [MaskedPatch.put, if_neg Bool.false_ne_true]
    iterate 7 rw [MaskedPatch.put_patch Patch.updateTime]
    · rfl
    all_goals exact fun _ => rfl

end save

end Memoark.Editor.MemoService
