import Mathlib.Data.List.AList
import Memoark.Editor.Cache
import Memoark.Js.JsonRoundTrip

/-! The texts that `cacheService` keeps in `localStorage` (`services/cacheService.ts`): the envelope
that `writeEntry` stores, and what `loadDraft` makes of a stored text. -/
namespace Memoark.Editor.Codec
open Js

structure MemoEditorDraftMetadata where
  mode : Option DraftMode
  memoName : Option Units
  baseUpdateTime : Option Units
  savedAt : Option Units
  requestId : Option Units
  pending : Option Bool
  attemptedAt : Option Units
  deriving DecidableEq

structure MemoEditorDraft where
  mode : DraftMode
  memoName : Option Units := none
  baseUpdateTime : Option Units := none
  savedAt : Option Units := none
  requestId : Option Units := none
  pending : Option Bool := none
  attemptedAt : Option Units := none
  content : Units
  deriving DecidableEq

def structuredCacheEntryKind : Units := utf16 "memos.editor-cache"

def modeText : DraftMode → Units
  | .create => utf16 "create"
  | .edit => utf16 "edit"

def entryMembers (now content : Units) (metadata : MemoEditorDraftMetadata) :
    List (Units × Option Scalar) :=
  [(utf16 "kind", some (.str structuredCacheEntryKind)),
    (utf16 "version", some (.digit 3)),
    (utf16 "mode", some (.str (modeText (metadata.mode.getD .create)))),
    (utf16 "memoName", metadata.memoName.map .str),
    (utf16 "baseUpdateTime", metadata.baseUpdateTime.map .str),
    (utf16 "savedAt", some (.str (metadata.savedAt.getD now))),
    (utf16 "requestId", metadata.requestId.map .str),
    (utf16 "pending", metadata.pending.map .bool),
    (utf16 "attemptedAt", metadata.attemptedAt.map .str),
    (utf16 "content", some (.str content))]

section decode

/-- The properties that are read of a parsed value; `none` is `undefined`. -/
structure Parsed where
  kind : Option JsonValue := none
  version : Option JsonValue := none
  mode : Option JsonValue := none
  memoName : Option JsonValue := none
  baseUpdateTime : Option JsonValue := none
  savedAt : Option JsonValue := none
  requestId : Option JsonValue := none
  pending : Option JsonValue := none
  attemptedAt : Option JsonValue := none
  content : Option JsonValue := none

def properties (members : List (Units × JsonValue)) : Parsed where
  kind := lookup (utf16 "kind") members
  version := lookup (utf16 "version") members
  mode := lookup (utf16 "mode") members
  memoName := lookup (utf16 "memoName") members
  baseUpdateTime := lookup (utf16 "baseUpdateTime") members
  savedAt := lookup (utf16 "savedAt") members
  requestId := lookup (utf16 "requestId") members
  pending := lookup (utf16 "pending") members
  attemptedAt := lookup (utf16 "attemptedAt") members
  content := lookup (utf16 "content") members

/-- Reading a property of `null` throws. Only objects have properties of these names. -/
def readProperties : JsonValue → Option Parsed
  | .null => none
  | .obj members => some (properties members)
  | _ => some {}

def asString : Option JsonValue → Option Units
  | some (.str s) => some s
  | _ => none

def asBoolean : Option JsonValue → Option Bool
  | some (.bool b) => some b
  | _ => none

def isString (value : Option JsonValue) : Bool := (asString value).isSome

def isStringOrUndefined (value : Option JsonValue) : Bool := value.isNone || isString value

def isBooleanOrUndefined (value : Option JsonValue) : Bool :=
  value.isNone || (asBoolean value).isSome

def isNumber (n : Nat) : Option JsonValue → Bool
  | some (.num x) => x = .finite n
  | _ => false

def rawDraft (raw : Units) : MemoEditorDraft := { mode := .create, content := raw }

def hasValidDeliveryMetadata (parsed : Parsed) : Bool :=
  isNumber 2 parsed.version ||
    (isStringOrUndefined parsed.requestId && isBooleanOrUndefined parsed.pending &&
      isStringOrUndefined parsed.attemptedAt)

def decodeEntry (raw : Units) (parsed : Parsed) : MemoEditorDraft :=
  if asString parsed.kind = some structuredCacheEntryKind ∧ isNumber 1 parsed.version ∧
      isString parsed.content then
    { mode := .create, content := (asString parsed.content).getD [] }
  else if asString parsed.kind = some structuredCacheEntryKind ∧
      (isNumber 2 parsed.version ∨ isNumber 3 parsed.version) ∧
      (asString parsed.mode = some (modeText .create) ∨
        asString parsed.mode = some (modeText .edit)) ∧
      isStringOrUndefined parsed.memoName ∧ isStringOrUndefined parsed.baseUpdateTime ∧
      isString parsed.savedAt ∧ isString parsed.content then
    if ¬hasValidDeliveryMetadata parsed then rawDraft raw
    else
      { mode := if asString parsed.mode = some (modeText .create) then .create else .edit
        memoName := asString parsed.memoName
        baseUpdateTime := asString parsed.baseUpdateTime
        savedAt := asString parsed.savedAt
        requestId := if isNumber 3 parsed.version then asString parsed.requestId else none
        pending := if isNumber 3 parsed.version then asBoolean parsed.pending else none
        attemptedAt := if isNumber 3 parsed.version then asString parsed.attemptedAt else none
        content := (asString parsed.content).getD [] }
  else rawDraft raw

def deserializeDraft (raw : Units) : MemoEditorDraft :=
  match (jsonParse raw).bind readProperties with
  | some parsed => decodeEntry raw parsed
  | none => rawDraft raw

end decode

section service

structure LocalStorage where
  items : Units → Option Units
  /-- Without access every call throws. -/
  accessible : Bool
  /-- The quota allows the value for the key. -/
  fits : Units → Units → Bool

def LocalStorage.put (storage : LocalStorage) (key : Units) (value : Option Units) :
    LocalStorage :=
  { storage with items := Memoark.System.update storage.items key value }

structure Service where
  localStorage : LocalStorage
  pendingSaves : AList fun _ : Units => Nat
  /-- The ids of the timers of the window. -/
  timeouts : List Nat

namespace Service

variable (s : Service)

def removeEntry (key : Units) : Bool × Service :=
  if s.localStorage.accessible then
    (true, { s with localStorage := s.localStorage.put key none })
  else (false, s)

def writeEntry (now key content : Units) (metadata : MemoEditorDraftMetadata) : Bool × Service :=
  if metadata.mode.getD .create = .create ∧ blank content then
    let (removed, s) := s.removeEntry key
    -- A pending create without a text is not safely persisted.
    (if metadata.pending = some true then false else removed, s)
  else
    let value := stringifyObject (entryMembers now content metadata)
    if s.localStorage.accessible ∧ s.localStorage.fits key value then
      (true, { s with localStorage := s.localStorage.put key (some value) })
    else (false, s)

def loadDraftEntry (key : Units) : Option MemoEditorDraft :=
  if s.localStorage.accessible then (s.localStorage.items key).map deserializeDraft else none

def cancel (key : Units) : Service :=
  match s.pendingSaves.lookup key with
  | some pendingSave =>
    if pendingSave ≠ 0 then
      { s with
        timeouts := s.timeouts.filter (· ≠ pendingSave)
        pendingSaves := s.pendingSaves.erase key }
    else s
  | none => s

def saveNow (now key content : Units) (metadata : MemoEditorDraftMetadata) : Bool × Service :=
  (s.cancel key).writeEntry now key content metadata

def loadDraft (key : Units) : Option MemoEditorDraft := s.loadDraftEntry key

end Service

end service

end Memoark.Editor.Codec
