import Memoark.Editor.Cache

/-! One create editor (`MemoEditor/index.tsx`, `useMemoInit.ts`, `useAutoSave.ts`): its state, its
renders, their effects, its saves, and the draft cache. -/
namespace Memoark.Editor
open Memoark.System

inductive SaveDeliveryState where
  | idle
  | sending (requestId : Option String) (savedAt : String) (retrying persisted : Bool)
  | unsent (requestId : Option String) (savedAt : String)
  deriving DecidableEq

namespace SaveDeliveryState

def pending : SaveDeliveryState → Bool
  | idle => false
  | _ => true

def attemptedAt : SaveDeliveryState → Option String
  | idle => none
  | sending _ savedAt _ _ => some savedAt
  | unsent _ savedAt => some savedAt

def isUnsent : SaveDeliveryState → Bool
  | unsent _ _ => true
  | _ => false

end SaveDeliveryState

structure RecoveredPendingSave where
  requestId : Option String
  savedAt : String
  deriving DecidableEq

structure View where
  content : String
  /-- Attachments or local files. -/
  hasFiles : Bool
  saving : Bool
  isInitialized : Bool
  draftRequestId : Option String
  recoveredPendingSave : Option RecoveredPendingSave
  requestId : Option String
  deliveryState : SaveDeliveryState
  deriving DecidableEq

def initialView : View := ⟨"", false, false, false, none, none, none, .idle⟩

/-- The checks of `validationService.canSave` on what the model has. -/
def View.canSave (v : View) : Bool :=
  (!Js.isBlank v.content || v.hasFiles) && !v.saving

def View.metadata (v : View) : DraftMetadata where
  mode := some .create
  memoName := none
  baseUpdateTime := none
  savedAt := none
  requestId := v.requestId
  pending := some v.deliveryState.pending
  attemptedAt := v.deliveryState.attemptedAt

/-- `handleSave` at one of its two `await`s. -/
structure SaveCall where
  content : String
  requestId : Option String
  savedAt : String
  retrying : Bool
  persisted : Bool
  /-- The save has succeeded; the queries are being invalidated. -/
  invalidating : Bool

structure MemoEditor where
  cache : Cache
  /-- The state with all updates so far. -/
  state : View
  /-- The state at the last render. -/
  rendered : View
  /-- The render whose effects ran last. -/
  ran : Option View
  latestContent : String
  discardedContent : Option String
  saveInFlight : Option SaveCall
  mounted : Bool
  /-- The text of the last create save that succeeded, until the text is edited. -/
  savedContent : Option String

def mount (cache : Cache) (savedContent : Option String) : MemoEditor where
  cache := cache
  state := initialView
  rendered := initialView
  ran := none
  latestContent := ""
  discardedContent := none
  saveInFlight := none
  mounted := true
  savedContent := savedContent

section effects

variable (now key : String) (e : MemoEditor)

/-- What `useMemoInit` makes of the cached draft. -/
def restored (cachedDraft : Option Draft) (v : View) : View :=
  match cachedDraft with
  | none => { initialView with
      isInitialized := true
      requestId := v.requestId
      deliveryState := v.deliveryState }
  | some draft => { initialView with
      content := draft.content
      isInitialized := true
      draftRequestId := draft.requestId
      recoveredPendingSave :=
        if draft.pending = some true ∧ (Js.truthy draft.attemptedAt ∨ Js.truthy draft.savedAt) then
          some ⟨draft.requestId, (draft.attemptedAt.or draft.savedAt).getD ""⟩
        else none
      requestId := v.requestId
      deliveryState := v.deliveryState }

def initEffect : MemoEditor :=
  if e.ran.isNone ∧ ¬e.rendered.isInitialized then
    { e with state := restored (e.cache.loadDraft key) e.state }
  else e

/-- The effect of the editor that takes over what `useMemoInit` has found. -/
def adoptEffect : MemoEditor :=
  let deps := fun v : View => (v.isInitialized, v.draftRequestId, v.recoveredPendingSave)
  if e.ran.map deps ≠ some (deps e.rendered) ∧ e.rendered.isInitialized then
    { e with state := { e.state with
        requestId := e.rendered.draftRequestId
        deliveryState :=
          match e.rendered.recoveredPendingSave with
          | some save => .unsent save.requestId save.savedAt
          | none => .idle } }
  else e

/-- The first effect of `useAutoSave`. -/
def contentEffect : MemoEditor :=
  if e.ran.map (·.content) ≠ some e.rendered.content then
    { e with
      latestContent := e.rendered.content
      discardedContent := e.discardedContent.filter (· = e.rendered.content) }
  else e

def saveEffect : MemoEditor :=
  let deps := fun v : View => (v.content, v.isInitialized, v.metadata)
  if e.ran.map deps ≠ some (deps e.rendered) ∧ e.rendered.isInitialized then
    if e.rendered.content = "" ∧ ¬e.rendered.deliveryState.pending then
      { e with cache := e.cache.clear key }
    else { e with cache := e.cache.save key e.rendered.content e.rendered.metadata }
  else e

def runEffects : MemoEditor :=
  { saveEffect key (contentEffect (adoptEffect (initEffect key e))) with ran := some e.rendered }

/-- `flushDraft` of the third effect of `useAutoSave`. -/
def flushDraft : MemoEditor :=
  if e.discardedContent = some e.latestContent then e
  else if e.latestContent = "" ∧ ¬e.rendered.deliveryState.pending then
    { e with cache := e.cache.clear key }
  else { e with cache := (e.cache.saveNow now key e.latestContent e.rendered.metadata).2 }

/-- The third effect has run, so that `flushDraft` is called. -/
def MemoEditor.listening : Bool := e.ran.any (·.isInitialized)

def discardDraft : MemoEditor :=
  { e with discardedContent := some e.latestContent, cache := e.cache.clear key }

end effects

section handleSave

variable (now key : String) (e : MemoEditor)

def attemptMetadata (savedAt : String) (requestId : Option String) (pending : Bool)
    (attemptedAt : Option String) : DraftMetadata where
  mode := some .create
  memoName := none
  baseUpdateTime := none
  savedAt := some savedAt
  requestId := requestId
  pending := some pending
  attemptedAt := attemptedAt

def startSave (uuid : String) : MemoEditor :=
  let retrying := e.rendered.deliveryState.isUnsent
  let nextRequestId := some (e.rendered.requestId.getD uuid)
  let (persisted, cache) :=
    e.cache.saveNow now key e.rendered.content (attemptMetadata now nextRequestId true (some now))
  { e with
    cache := cache
    state := { e.state with
      saving := true
      requestId := nextRequestId
      deliveryState := .sending nextRequestId now retrying persisted }
    saveInFlight := some ⟨e.rendered.content, nextRequestId, now, retrying, persisted, false⟩ }

def saveSucceeded (call : SaveCall) : MemoEditor :=
  let e := discardDraft key e
  { e with
    state := { e.state with requestId := none, deliveryState := .idle }
    saveInFlight := some { call with invalidating := true }
    savedContent := some call.content }

def saveUnchanged : MemoEditor :=
  let e := discardDraft key e
  { e with
    state := { e.state with saving := false, requestId := none, deliveryState := .idle }
    saveInFlight := none }

def saveFailed (network : Bool) (call : SaveCall) : MemoEditor :=
  if network ∧ call.persisted then
    { e with
      state := { e.state with
        saving := false
        deliveryState := .unsent call.requestId call.savedAt }
      saveInFlight := none }
  else
    { e with
      cache := (e.cache.saveNow now key call.content
        (attemptMetadata call.savedAt call.requestId false none)).2
      state := { e.state with saving := false, deliveryState := .idle }
      saveInFlight := none }

def resetEditor : MemoEditor :=
  { e with
    state := { e.state with content := "", hasFiles := false, saving := false }
    saveInFlight := none }

end handleSave

inductive Label where
  | render
  | runEffects
  /-- The text changes: the user, a completed list item, or a transcription. -/
  | edit (content : String)
  | attach (hasFiles : Bool)
  | startSave (now uuid : String)
  | succeed
  | unchanged
  | fail (now : String) (network : Bool)
  | invalidated
  | timeout (now : String)
  /-- `pagehide` or `visibilitychange`. -/
  | hide (now : String)
  | unmount (now : String)
  | reload
  | setWritable (writable : Bool)

/-- React renders the updates of an event handler before the network answers it. -/
def MemoEditor.answerable (e : MemoEditor) : Bool := !e.mounted || e.rendered.saving

def step (key : String) (e : MemoEditor) : Label → Option MemoEditor
  | .render =>
    if e.mounted ∧ e.ran = some e.rendered then some { e with rendered := e.state } else none
  | .runEffects => if e.mounted then some (runEffects key e) else none
  | .edit content =>
    if e.mounted then
      some { e with
        state := { e.state with content := content }
        savedContent := if content = e.state.content then e.savedContent else none }
    else none
  | .attach hasFiles =>
    if e.mounted then some { e with state := { e.state with hasFiles := hasFiles } } else none
  | .startSave now uuid =>
    if e.mounted ∧ e.rendered.canSave ∧ e.saveInFlight.isNone then some (startSave now key e uuid)
    else none
  | .succeed =>
    match e.saveInFlight with
    | some call =>
      if e.answerable ∧ ¬call.invalidating then some (saveSucceeded key e call) else none
    | none => none
  | .unchanged =>
    match e.saveInFlight with
    | some call =>
      if e.answerable ∧ ¬call.invalidating ∧ ¬call.retrying then some (saveUnchanged key e) else none
    | none => none
  | .fail now network =>
    match e.saveInFlight with
    | some call =>
      if e.answerable ∧ ¬call.invalidating then some (saveFailed now key e network call) else none
    | none => none
  | .invalidated =>
    match e.saveInFlight with
    | some call => if call.invalidating then some (resetEditor e) else none
    | none => none
  | .timeout now => (e.cache.timeout now key).map fun cache => { e with cache := cache }
  | .hide now => if e.mounted ∧ e.listening then some (flushDraft now key e) else none
  | .unmount now =>
    if e.mounted ∧ e.ran = some e.rendered then
      let e := if e.listening then flushDraft now key e else e
      some { e with mounted := false }
    else none
  | .reload => some (mount { e.cache with pendingSaves := fun _ => none } e.savedContent)
  | .setWritable writable => some { e with cache := { e.cache with writable := writable } }

def system (key : String) : LabelledSystem MemoEditor Label :=
  ⟨fun e => ∃ cache, e = mount cache none, step key⟩

end Memoark.Editor
