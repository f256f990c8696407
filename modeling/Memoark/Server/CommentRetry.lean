import Memoark.Server.CreateMemoComment

/-! What the retries of a comment draft leave on the server and report to the user. -/
namespace Memoark.Server.CommentRetry
open Memoark.System Memoark.Store

variable {draft : CommentDraft} {s s' : State}

section unstored

def Attempt.Early : Attempt → Prop
  | .unmade => True
  | .request after .getMemo => after = false
  | .request after (.fetchCurrentUser _) => after = false
  | .request after (.createMemo _) => after = false
  | .request _ _ => False
  | .response after _ => after = false
  | .reported after _ => after = false
  | .lost after => after = false

structure Unstored (draft : CommentDraft) (s : State) : Prop where
  unused : ∀ memo ∈ s.memos, memo.uid ≠ draft.requestId
  attempts : ∀ n, (s.attempts n).Early
  completed : s.completed = false

theorem Unstored.move (h : Unstored draft s) {n : Nat} {attempt : Attempt} (he : attempt.Early) :
    Unstored draft (s.move n attempt) :=
  { h with attempts := forall_update he h.attempts }

theorem Unstored.safe (h : Unstored draft s) : RetrySucceeds s ∧ NotTopLevel draft s := by
  refine ⟨fun n result hn => ?_, fun memo hmemo huid => absurd huid (h.unused memo hmemo)⟩
  have hearly := h.attempts n
  rw [hn] at hearly
  cases hearly

theorem stepFails_inv {n : Nat} {answer : Status} (h : step draft s (.stepFails n answer) = some s') :
    ∃ after next, s.attempts n = .request after next ∧
      s' = s.move n (.response after (.error answer)) := by
  simp only [CommentRetry.step] at h
  split at h
  · rename_i after next hn
    split at h <;> cases h
    exact ⟨after, next, hn, rfl⟩
  · cases h

theorem Unstored.step {l : Label} (h : Unstored draft s) (hl : ¬Stores draft s l)
    (hs : step draft s l = some s') : Unstored draft s' := by
  cases l with
  | send n =>
    simp only [CommentRetry.step] at hs
    split at hs <;> cases hs
    exact h.move h.completed
  | step n branch =>
    have hearly := h.attempts n
    simp only [CommentRetry.step] at hs
    split at hs <;> cases hs
    rename_i after next hn
    rw [hn] at hearly
    cases next with
    | getMemo =>
      simp only [handlerStep]
      split
      · exact h.move hearly
      · exact h.move hearly
    | fetchCurrentUser relatedMemo =>
      simp only [handlerStep]
      split
      · exact h.move hearly
      · exact h.move hearly
    | createMemo relatedMemo =>
      simp only [Stores, hn] at hl
      exact absurd h.unused hl
    | _ => cases hearly
  | stepFails n answer =>
    have hearly := h.attempts n
    obtain ⟨after, next, hn, rfl⟩ := stepFails_inv hs
    rw [hn] at hearly
    cases next with
    | getMemo => exact h.move hearly
    | fetchCurrentUser relatedMemo => exact h.move hearly
    | createMemo relatedMemo => exact h.move hearly
    | _ => cases hearly
  | loseRequest n =>
    have hearly := h.attempts n
    simp only [CommentRetry.step] at hs
    split at hs <;> cases hs
    rename_i after hn
    rw [hn] at hearly
    exact h.move hearly
  | loseResponse n =>
    have hearly := h.attempts n
    simp only [CommentRetry.step] at hs
    split at hs <;> cases hs
    rename_i after result hn
    rw [hn] at hearly
    exact h.move hearly
  | report n =>
    have hearly := h.attempts n
    simp only [CommentRetry.step] at hs
    split at hs <;> cases hs
    rename_i after result hn
    rw [hn] at hearly
    exact h.move hearly

end unstored

section stores

def Attempt.Below (next : Nat) : Attempt → Prop
  | .request _ (.upsertMemoRelation memo _) => memo.id < next
  | _ => True

structure Numbered (s : State) : Prop where
  memoIDs : ∀ memo ∈ s.memos, memo.id < s.nextMemoID
  relations : ∀ r ∈ s.relations, r.memoId < s.nextMemoID
  attempts : ∀ n, (s.attempts n).Below s.nextMemoID

theorem Attempt.Below.mono {attempt : Attempt} {m n : Nat} (h : attempt.Below m) (hmn : m ≤ n) :
    attempt.Below n := by
  unfold Attempt.Below at h ⊢
  split at h
  · exact Nat.lt_of_lt_of_le h hmn
  · trivial

theorem Numbered.move (h : Numbered s) {n : Nat} {attempt : Attempt}
    (hb : attempt.Below s.nextMemoID) : Numbered (s.move n attempt) :=
  { h with attempts := forall_update hb h.attempts }

theorem createMemo_ok (hunused : ∀ memo ∈ s.memos, memo.uid ≠ draft.requestId) :
    createMemo draft s = .ok (⟨s.nextMemoID, draft.requestId, draft.userID⟩, { s with
      memos := s.memos ++ [⟨s.nextMemoID, draft.requestId, draft.userID⟩]
      nextMemoID := s.nextMemoID + 1 }) := by
  unfold createMemo
  rw [if_neg]
  simpa using hunused

theorem createMemo_error (hused : ∃ memo ∈ s.memos, memo.uid = draft.requestId) :
    ∃ err, createMemo draft s = .error err := by
  unfold createMemo
  rw [if_pos (by simpa using hused)]
  exact ⟨_, rfl⟩

theorem createMemo_cases (draft : CommentDraft) (s : State) :
    (∀ memo ∈ s.memos, memo.uid ≠ draft.requestId) ∨
      ∃ memo ∈ s.memos, memo.uid = draft.requestId := by
  by_cases h : ∃ memo ∈ s.memos, memo.uid = draft.requestId
  · exact .inr h
  · exact .inl fun memo hmemo huid => h ⟨memo, hmemo, huid⟩

theorem Numbered.handlerStep (h : Numbered s) {n : Nat} {after branch : Bool} {next : Step}
    (hn : s.attempts n = .request after next) :
    Numbered (handlerStep draft s n after branch next) := by
  have hbelow := h.attempts n
  rw [hn] at hbelow
  cases next with
  | getMemo =>
    simp only [CommentRetry.handlerStep]
    split
    · exact h.move trivial
    · exact h.move trivial
  | fetchCurrentUser relatedMemo =>
    simp only [CommentRetry.handlerStep]
    split
    · exact h.move trivial
    · exact h.move trivial
  | createMemo relatedMemo =>
    rcases createMemo_cases draft s with hunused | hused
    · simp only [CommentRetry.handlerStep, createMemo_ok hunused]
      refine ⟨fun memo hmemo => ?_, fun r hr => Nat.lt_succ_of_lt (h.relations r hr),
        forall_update trivial fun j => (h.attempts j).mono (Nat.le_succ _)⟩
      rcases List.mem_append.mp hmemo with hmemo | hmemo
      · exact Nat.lt_succ_of_lt (h.memoIDs memo hmemo)
      · rw [List.mem_singleton.mp hmemo]
        exact Nat.lt_succ_self _
    · obtain ⟨err, herr⟩ := createMemo_error hused
      simp only [CommentRetry.handlerStep, herr]
      exact h.move trivial
  | finishMemo relatedMemo => exact h.move trivial
  | getCreatedMemo relatedMemo =>
    simp only [CommentRetry.handlerStep]
    split
    · rename_i memo hfind
      exact h.move (h.memoIDs memo (List.mem_of_find?_eq_some hfind))
    · exact h.move trivial
  | upsertMemoRelation memo relatedMemo =>
    have hupsert : Numbered (upsertRelation ⟨memo.id, relatedMemo.id, .COMMENT⟩ s) := by
      unfold upsertRelation
      split
      · exact h
      · refine { h with relations := fun r hr => ?_ }
        rcases List.mem_append.mp hr with hr | hr
        · exact h.relations r hr
        · rw [List.mem_singleton.mp hr]
          exact hbelow
    exact hupsert.move trivial
  | loadMemoRelations memo relatedMemo => exact h.move trivial
  | resolveCreator memo relatedMemo =>
    simp only [CommentRetry.handlerStep]
    split
    · exact h.move trivial
    · have hmove : Numbered (s.move n (.response after (.ok memo.name))) := h.move trivial
      exact ⟨hmove.memoIDs, hmove.relations, hmove.attempts⟩
  | createInbox memo relatedMemo =>
    have hmove : Numbered (s.move n (.response after (.ok memo.name))) := h.move trivial
    exact ⟨hmove.memoIDs, hmove.relations, hmove.attempts⟩

theorem Numbered.step {l : Label} (h : Numbered s) (hs : step draft s l = some s') :
    Numbered s' := by
  cases l with
  | step n branch =>
    simp only [CommentRetry.step] at hs
    split at hs <;> cases hs
    rename_i after next hn
    exact h.handlerStep hn
  | send n =>
    simp only [CommentRetry.step] at hs
    split at hs <;> cases hs
    exact h.move trivial
  | stepFails n answer =>
    obtain ⟨after, next, -, rfl⟩ := stepFails_inv hs
    exact h.move trivial
  | loseRequest n =>
    simp only [CommentRetry.step] at hs
    split at hs <;> cases hs
    exact h.move trivial
  | loseResponse n =>
    simp only [CommentRetry.step] at hs
    split at hs <;> cases hs
    exact h.move trivial
  | report n =>
    simp only [CommentRetry.step] at hs
    split at hs <;> cases hs
    exact h.move trivial

theorem Numbered.topLevel {l : Label} (h : Numbered s) (hl : Stores draft s l) :
    ∃ s', CommentRetry.step draft s l = some s' ∧ ¬NotTopLevel draft s' := by
  unfold Stores at hl
  split at hl
  · rename_i n branch
    split at hl
    · rename_i after relatedMemo hn
      refine ⟨_, by simp only [CommentRetry.step, hn]; rfl, fun hnot => ?_⟩
      simp only [CommentRetry.handlerStep, createMemo_ok hl] at hnot
      obtain ⟨r, hr, _, hid⟩ :=
        hnot ⟨s.nextMemoID, draft.requestId, draft.userID⟩ (by simp [State.move]) rfl
      have hlt := h.relations r hr
      rw [hid] at hlt
      exact Nat.lt_irrefl _ hlt
    · exact absurd hl id
  · exact absurd hl id

end stores

/-- Retries are safe along a run exactly if none of its steps stores the memo of the comment. -/
theorem commentRetry_safe_iff (draft : CommentDraft) {s : State} (h : Init draft s)
    (as : List Label) :
    (system draft).Throughout (fun s => RetrySucceeds s ∧ NotTopLevel draft s) s as ↔
      (system draft).Meets (fun s l => ¬Stores draft s l) s as := by
  constructor
  · intro hsafe
    have hnumbered : Numbered s := by
      refine ⟨h.memoIDs, h.relations, fun n => ?_⟩
      rw [h.attempts n]
      trivial
    refine hsafe.meets hnumbered (fun _ _ _ hi _ hs => hi.step hs) fun s l hi hl => ?_
    obtain ⟨s', hs', htop⟩ := hi.topLevel (Classical.not_not.mp hl)
    exact ⟨s', hs', fun hsafe => htop hsafe.2⟩
  · intro hm
    have hunstored : Unstored draft s := by
      refine ⟨h.unused, fun n => ?_, h.completed⟩
      rw [h.attempts n]
      trivial
    exact hm.throughout hunstored (fun _ hi => hi.safe) fun _ _ _ hi hl hs => hi.step hl hs

section examples

def reply : CommentDraft := ⟨"memo", "reply", 2, by decide +kernel⟩

def beforeReply : State := ⟨[⟨1, "memo", 1⟩], 2, [], [], fun _ => .unmade, false⟩

theorem init_beforeReply : Init reply beforeReply where
  unused := by decide +kernel
  memoIDs := by decide
  relations := nofun
  attempts := fun _ => rfl
  completed := rfl

/-- The first request is lost and the second fails before `CreateMemo`. -/
theorem safe_lostRequests : (system reply).Throughout
    (fun s => RetrySucceeds s ∧ NotTopLevel reply s) beforeReply
    [.send 0, .loseRequest 0, .send 1, .step 1 true, .stepFails 1 ⟨.Internal, "failed to get user"⟩, .report 1] :=
  (commentRetry_safe_iff reply init_beforeReply _).mpr
    ⟨id, id, id, id, id, id, trivial⟩

def handleAll (n : Nat) : List Label := .send n :: List.replicate 9 (.step n true)

/-- The comment is created, but its response is lost: the retry is reported as an internal error.
And a relation that cannot be stored leaves a top-level memo behind. -/
theorem retry_fails_and_topLevel_memo_remains :
    (∃ s, (system reply).Reaches (fun _ _ => True) s ∧
      s.attempts 1 = .reported true (.error ⟨.Internal, "failed to create memo"⟩) ∧
      ¬RetrySucceeds s) ∧
    (∃ s, (system reply).Reaches (fun _ _ => True) s ∧
      s.attempts 0 = .reported false (.error ⟨.Internal, "failed to create memo relation"⟩) ∧
      ¬NotTopLevel reply s) := by
  constructor
  · have hrun : ∃ s, (system reply).run beforeReply (handleAll 0 ++ [.loseResponse 0, .send 1,
        .step 1 true, .step 1 true, .step 1 true, .report 1]) = some s ∧
        s.attempts 1 = .reported true (.error ⟨.Internal, "failed to create memo"⟩) :=
      ⟨_, rfl, rfl⟩
    obtain ⟨s, hs, hone⟩ := hrun
    refine ⟨s, .run (.init init_beforeReply) (LabelledSystem.meets_true _ _) hs, hone, fun h => ?_⟩
    obtain ⟨saved, hsaved⟩ := h 1 _ hone
    cases hsaved
  · have hrun : ∃ s, (system reply).run beforeReply [.send 0, .step 0 true, .step 0 true,
        .step 0 true, .step 0 true, .step 0 true, .stepFails 0 ⟨.Internal, "failed to create memo relation"⟩, .report 0] = some s ∧
        s.attempts 0 = .reported false (.error ⟨.Internal, "failed to create memo relation"⟩) ∧
        s.memos = [⟨1, "memo", 1⟩, ⟨2, "reply", 2⟩] ∧ s.relations = [] := ⟨_, rfl, rfl, rfl, rfl⟩
    obtain ⟨s, hs, hzero, hmemos, hrelations⟩ := hrun
    refine ⟨s, .run (.init init_beforeReply) (LabelledSystem.meets_true _ _) hs, hzero, fun h => ?_⟩
    obtain ⟨r, hr, _⟩ := h ⟨2, "reply", 2⟩ (by simp [hmemos]) rfl
    rw [hrelations] at hr
    cases hr

end examples

end Memoark.Server.CommentRetry
