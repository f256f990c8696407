import Mathlib.Tactic.SplitIfs
import Memoark.Js.Strings
import Memoark.System.Runs

/-! The draft cache of the memo editor (`services/cacheService.ts`): the entries of `localStorage`
and the debounced saves that wait for their timers. -/
namespace Memoark.Editor
open Memoark.System

inductive DraftMode where
  | create | edit
  deriving DecidableEq

structure DraftMetadata where
  mode : Option DraftMode
  memoName : Option String
  baseUpdateTime : Option String
  savedAt : Option String
  requestId : Option String
  pending : Option Bool
  attemptedAt : Option String
  deriving DecidableEq

/-- `MemoEditorDraft`, an entry as `loadDraft` reads it. -/
structure Draft where
  mode : DraftMode
  memoName : Option String
  baseUpdateTime : Option String
  savedAt : Option String
  requestId : Option String
  pending : Option Bool
  attemptedAt : Option String
  content : String
  deriving DecidableEq

structure PendingSave where
  content : String
  metadata : DraftMetadata

structure Cache where
  storage : String → Option Draft
  pendingSaves : String → Option PendingSave
  /-- `localStorage.setItem` does not throw. -/
  writable : Bool

namespace Cache

def removeEntry (key : String) (c : Cache) : Cache :=
  { c with storage := update c.storage key none }

def entry (now content : String) (metadata : DraftMetadata) : Draft where
  mode := metadata.mode.getD .create
  memoName := metadata.memoName
  baseUpdateTime := metadata.baseUpdateTime
  savedAt := some (metadata.savedAt.getD now)
  requestId := metadata.requestId
  pending := metadata.pending
  attemptedAt := metadata.attemptedAt
  content := content

def writeEntry (now key content : String) (metadata : DraftMetadata) (c : Cache) : Bool × Cache :=
  if metadata.mode.getD .create = .create ∧ Js.isBlank content then
    (metadata.pending ≠ some true, c.removeEntry key)
  else if c.writable then
    (true, { c with storage := update c.storage key (some (entry now content metadata)) })
  else (false, c)

def clearTimeout (key : String) (c : Cache) : Cache :=
  { c with pendingSaves := update c.pendingSaves key none }

def save (key content : String) (metadata : DraftMetadata) (c : Cache) : Cache :=
  { c with pendingSaves := update c.pendingSaves key (some ⟨content, metadata⟩) }

def timeout (now key : String) (c : Cache) : Option Cache :=
  match c.pendingSaves key with
  | some pendingSave =>
    some (writeEntry now key pendingSave.content pendingSave.metadata (c.clearTimeout key)).2
  | none => none

def saveNow (now key content : String) (metadata : DraftMetadata) (c : Cache) : Bool × Cache :=
  writeEntry now key content metadata (c.clearTimeout key)

def loadDraft (key : String) (c : Cache) : Option Draft := c.storage key

def clear (key : String) (c : Cache) : Cache := (c.clearTimeout key).removeEntry key

section lemmas

variable (now key content : String) (metadata : DraftMetadata) (c : Cache)

@[simp] theorem pendingSaves_writeEntry :
    (c.writeEntry now key content metadata).2.pendingSaves = c.pendingSaves := by
  unfold writeEntry
  split_ifs <;> rfl

@[simp] theorem pendingSaves_saveNow :
    (c.saveNow now key content metadata).2.pendingSaves key = none := by
  simp only [saveNow, pendingSaves_writeEntry, clearTimeout, update_self]

@[simp] theorem pendingSaves_clear : (c.clear key).pendingSaves key = none := by
  simp only [clear, removeEntry, clearTimeout, update_self]

@[simp] theorem storage_clear : (c.clear key).storage key = none := by
  simp only [clear, removeEntry, update_self]

@[simp] theorem storage_save : (c.save key content metadata).storage = c.storage := rfl

@[simp] theorem pendingSaves_save :
    (c.save key content metadata).pendingSaves key = some ⟨content, metadata⟩ := by
  simp only [save, update_self]

theorem storage_writeEntry {now key content : String} {metadata : DraftMetadata} {c : Cache}
    {draft : Draft} (hmode : metadata.mode = some .create)
    (h : (c.writeEntry now key content metadata).2.storage key = some draft) :
    c.storage key = some draft ∨ draft.content = content ∧ Js.isBlank content = false := by
  rw [writeEntry, hmode] at h
  split_ifs at h with hblank hwritable
  · simp [removeEntry] at h
  · obtain rfl : entry now content metadata = draft := by simpa using h
    right
    exact ⟨rfl, by simpa using hblank⟩
  · exact .inl h

end lemmas

end Cache

end Memoark.Editor
