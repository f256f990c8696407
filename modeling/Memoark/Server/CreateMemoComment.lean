import Memoark.Go.Strings
import Memoark.Server.MemoMessages
import Memoark.Store.Tables
import Memoark.System.Runs

/-! The attempts to save one comment draft: `memoService.save` of the editor with a parent memo,
and `CreateMemoComment` of `server/router/api/v1/memo_service.go`, which works without a
transaction. -/
namespace Memoark.Server
open Memoark.System Memoark.Store

def UIDMatcher (uid : String) : Bool :=
  let alnum := fun c : Char => c.isAlphanum
  1 ≤ uid.length && uid.length ≤ 36 && uid.toList.all (fun c => alnum c || c = '-') &&
    uid.toList.head?.any alnum && uid.toList.getLast?.any alnum

structure CommentDraft where
  parentUID : String
  requestId : String
  userID : Nat
  valid : UIDMatcher requestId = true

namespace CommentRetry

/-- What `CreateMemoComment` does next. -/
inductive Step where
  | getMemo
  | fetchCurrentUser (relatedMemo : MemoRow)
  | createMemo (relatedMemo : MemoRow)
  /-- `CreateMemo` after its insert: attachments, relations, conversion. -/
  | finishMemo (relatedMemo : MemoRow)
  | getCreatedMemo (relatedMemo : MemoRow)
  | upsertMemoRelation (memo relatedMemo : MemoRow)
  | loadMemoRelations (memo relatedMemo : MemoRow)
  | resolveCreator (memo relatedMemo : MemoRow)
  | createInbox (memo relatedMemo : MemoRow)

/-- The errors that a step may answer with, besides those that the state decides. -/
def Step.failures : Step → List Status
  | getMemo => [⟨.Internal, "failed to get memo"⟩]
  | fetchCurrentUser _ =>
    [⟨.Internal, "failed to get user"⟩, ⟨.Unauthenticated, "user not authenticated"⟩]
  | createMemo _ => [⟨.Internal, "failed to create memo"⟩]
  | finishMemo _ => [⟨.Internal, "failed to create memo"⟩]
  | getCreatedMemo _ => [⟨.Internal, "failed to get memo"⟩]
  | upsertMemoRelation _ _ => [⟨.Internal, "failed to create memo relation"⟩]
  | loadMemoRelations _ _ => [⟨.Internal, "failed to load memo relations"⟩]
  | resolveCreator _ _ =>
    [⟨.InvalidArgument, "invalid memo creator"⟩, ⟨.NotFound, "memo creator not found"⟩]
  | createInbox _ _ => [⟨.Internal, "failed to create inbox"⟩]

structure SaveResult where
  memoName : String
  hasChanges : Bool
  deriving DecidableEq

/-- The create path of `memoService.save` with a parent memo: an error is thrown on. -/
def saveComment (response : Except Status String) : Except Status SaveResult := do
  let name ← response
  return ⟨name, true⟩

/-- An attempt, and whether it began after the comment had been created completely. -/
inductive Attempt where
  | unmade
  /-- The request is on its way or being handled. -/
  | request (afterComplete : Bool) (step : Step)
  | response (afterComplete : Bool) (result : Except Status String)
  | reported (afterComplete : Bool) (result : Except Status SaveResult)
  /-- The request or the response is lost. -/
  | lost (afterComplete : Bool)

inductive Label where
  | send (attempt : Nat)
  /-- The next step of the handler; the branch is what it reads where it has a choice. -/
  | step (attempt : Nat) (branch : Bool)
  | stepFails (attempt : Nat) (answer : Status)
  | loseRequest (attempt : Nat)
  | loseResponse (attempt : Nat)
  | report (attempt : Nat)

structure State where
  memos : List MemoRow
  nextMemoID : Nat
  relations : List MemoRelation
  inboxes : List MemoPair
  attempts : Nat → Attempt
  /-- A request has been handled to its end. -/
  completed : Bool

def State.move (s : State) (n : Nat) (attempt : Attempt) : State :=
  { s with attempts := update s.attempts n attempt }

section handler

variable (draft : CommentDraft)

def createMemo (s : State) : Except Status (MemoRow × State) :=
  if s.memos.any (·.uid = draft.requestId) then
    .error ⟨.AlreadyExists, "memo with ID " ++ Go.quoted draft.requestId ++ " already exists"⟩
  else
    let memo := ⟨s.nextMemoID, draft.requestId, draft.userID⟩
    .ok (memo, { s with memos := s.memos ++ [memo], nextMemoID := s.nextMemoID + 1 })

def upsertRelation (relation : MemoRelation) (s : State) : State :=
  if s.relations.contains relation then s else { s with relations := s.relations ++ [relation] }

def handlerStep (s : State) (n : Nat) (after branch : Bool) : Step → State
  | .getMemo =>
    match s.memos.find? (·.uid = draft.parentUID) with
    | some relatedMemo => s.move n (.request after (.fetchCurrentUser relatedMemo))
    | none => s.move n (.response after (.error ⟨.NotFound, "memo not found"⟩))
  | .fetchCurrentUser relatedMemo =>
    if branch then s.move n (.request after (.createMemo relatedMemo))
    else s.move n (.response after (.error ⟨.PermissionDenied, "permission denied"⟩))
  | .createMemo relatedMemo =>
    match createMemo draft s with
    | .ok (_, s') => s'.move n (.request after (.finishMemo relatedMemo))
    | .error _ => s.move n (.response after (.error ⟨.Internal, "failed to create memo"⟩))
  | .finishMemo relatedMemo => s.move n (.request after (.getCreatedMemo relatedMemo))
  | .getCreatedMemo relatedMemo =>
    match s.memos.find? (·.uid = draft.requestId) with
    | some memo => s.move n (.request after (.upsertMemoRelation memo relatedMemo))
    | none => s.move n (.response after (.error ⟨.Internal, "internal server error"⟩))
  | .upsertMemoRelation memo relatedMemo =>
    (upsertRelation ⟨memo.id, relatedMemo.id, .COMMENT⟩ s).move n
      (.request after (.loadMemoRelations memo relatedMemo))
  | .loadMemoRelations memo relatedMemo =>
    s.move n (.request after (.resolveCreator memo relatedMemo))
  | .resolveCreator memo relatedMemo =>
    if branch then s.move n (.request after (.createInbox memo relatedMemo))
    else { s.move n (.response after (.ok memo.name)) with completed := true }
  | .createInbox memo relatedMemo =>
    { s.move n (.response after (.ok memo.name)) with
      inboxes := s.inboxes ++ [⟨memo.id, relatedMemo.id⟩]
      completed := true }

def step (s : State) : Label → Option State
  | .send n =>
    match s.attempts n with
    | .unmade => some (s.move n (.request s.completed .getMemo))
    | _ => none
  | .step n branch =>
    match s.attempts n with
    | .request after next => some (handlerStep draft s n after branch next)
    | _ => none
  | .stepFails n answer =>
    match s.attempts n with
    | .request after next =>
      if answer ∈ next.failures then some (s.move n (.response after (.error answer))) else none
    | _ => none
  | .loseRequest n =>
    match s.attempts n with
    | .request after .getMemo => some (s.move n (.lost after))
    | _ => none
  | .loseResponse n =>
    match s.attempts n with
    | .response after _ => some (s.move n (.lost after))
    | _ => none
  | .report n =>
    match s.attempts n with
    | .response after result => some (s.move n (.reported after (saveComment result)))
    | _ => none

/-- Before the first attempt: no memo has the id; the ids of memos are new. -/
structure Init (s : State) : Prop where
  unused : ∀ memo ∈ s.memos, memo.uid ≠ draft.requestId
  memoIDs : ∀ memo ∈ s.memos, memo.id < s.nextMemoID
  relations : ∀ r ∈ s.relations, r.memoId < s.nextMemoID
  attempts : ∀ n, s.attempts n = .unmade
  completed : s.completed = false

def system : LabelledSystem State Label := ⟨Init draft, step draft⟩

def NotTopLevel (s : State) : Prop :=
  ∀ memo ∈ s.memos, memo.uid = draft.requestId →
    ∃ r ∈ s.relations, r.type = .COMMENT ∧ r.memoId = memo.id

/-- What a retry reports after the comment has been created completely. -/
def RetrySucceeds (s : State) : Prop :=
  ∀ n result, s.attempts n = .reported true result → ∃ saved, result = .ok saved

def Stores (s : State) : Label → Prop
  | .step n _ =>
    match s.attempts n with
    | .request _ (.createMemo _) => ∀ memo ∈ s.memos, memo.uid ≠ draft.requestId
    | _ => False
  | _ => False

end handler

end CommentRetry

end Memoark.Server
