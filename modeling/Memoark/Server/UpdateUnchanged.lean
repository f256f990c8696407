import Memoark.Server.UpdateMask

/-! When an update that fails leaves every table as it was: the rounds of its mask that write nothing,
and the write of the row at its end. -/
namespace Memoark.Server.WriteMemos
open Store
open Program (Durable)

structure Unchanged (s s' : Storage) : Prop where
  users : s'.users = s.users
  memos : s'.memos = s.memos
  attachments : s'.attachments = s.attachments
  reactions : s'.reactions = s.reactions
  inboxes : s'.inboxes = s.inboxes
  relations : ∀ r, r ∈ s'.relations ↔ r ∈ s.relations

theorem Unchanged.refl (s : Storage) : Unchanged s s := ⟨rfl, rfl, rfl, rfl, rfl, fun _ => .rfl⟩

theorem Unchanged.trans {s t t' : Storage} (h : Unchanged s t) (h' : Unchanged t t') :
    Unchanged s t' where
  users := h'.users.trans h.users
  memos := h'.memos.trans h.memos
  attachments := h'.attachments.trans h.attachments
  reactions := h'.reactions.trans h.reactions
  inboxes := h'.inboxes.trans h.inboxes
  relations := fun r => (h'.relations r).trans (h.relations r)

section attachments

variable {env : Env} {user : UserRecord} {memo : Memo} {names : List String} {s t u : Storage}
  {requested requested' : List AttachmentRecord}

/-- The attachments of a memo are set to what they are: all that are listed are asked for, and what
is asked for is linked, with the times that the call gives. -/
def AttachmentsKept (env : Env) (user : UserRecord) (s : Storage) (memo : Memo)
    (names : List String) : Prop :=
  ∃ normalized, normalizeMemoAttachmentRequest s.toDatabase user (currentAttachments s memo) names =
      .ok normalized ∧ (∀ a ∈ currentAttachments s memo, a ∈ normalized) ∧
    ∀ i (hi : i < normalized.length), normalized[i].memoId = some memo.id ∧
      normalized[i].updatedTs = env.now + (normalized.length - 1 - i : Nat)

theorem AttachmentsSet.removed_nil {normalized : List AttachmentRecord}
    (hset : AttachmentsSet env memo requested normalized s t)
    (hlength : s.attachments.length ≤ t.attachments.length) :
    removedAttachments s memo normalized = [] := by
  rw [hset.attachments, List.length_map] at hlength
  have hall := List.length_filter_eq_length_iff.mp
    (Nat.le_antisymm (List.length_filter_le _ _) hlength)
  refine List.eq_nil_iff_forall_not_mem.mpr fun a ha => ?_
  have hkept := hall a (removedAttachments_mem ha)
  rw [decide_eq_true_eq] at hkept
  exact hkept (List.mem_map_of_mem ha)

theorem AttachmentsSet.current_subset (hids : (s.attachments.map (·.id)).Nodup)
    {normalized : List AttachmentRecord}
    (hset : AttachmentsSet env memo requested normalized s t)
    (hremoved : removedAttachments s memo normalized = []) {a : AttachmentRecord}
    (ha : a ∈ currentAttachments s memo) : a ∈ normalized := by
  refine hset.mem_of_id hids (mem_currentAttachments ha).1 ?_
  by_contra hnot
  have hmem : a ∈ removedAttachments s memo normalized :=
    List.mem_filter.mpr ⟨ha, decide_eq_true hnot⟩
  rw [hremoved] at hmem
  cases hmem

theorem attachmentsKept_iff (hids : (s.attachments.map (·.id)).Nodup)
    (hrun : (setMemoAttachmentsInternal env user memo names).run s = (.ok (), t)) :
    t.attachments = s.attachments ↔ AttachmentsKept env user s memo names := by
  obtain ⟨requested, hrequested, hset, -⟩ := setMemoAttachments_set hids hrun
  have hnormalized := normalizeRequest_eq (currentAttachments s memo) hrequested
  generalize normalizedAttachments (currentAttachments s memo) requested = normalized
    at hset hnormalized
  constructor
  · intro hsame
    have hremoved := hset.removed_nil (by rw [hsame])
    have hattachments := hset.attachments
    rw [hremoved, List.map_nil, withoutAttachments_nil, hsame] at hattachments
    have hfixed : ∀ a ∈ s.attachments, linkNormalized env memo normalized a = a := by
      refine List.map_inj_left.mp ?_
      rw [← hattachments]
      exact s.attachments.map_id'.symm
    refine ⟨normalized, hnormalized, fun a => hset.current_subset hids hremoved, fun i hi => ?_⟩
    have hlinked := hfixed normalized[i] (hset.stored _ (List.getElem_mem hi))
    rw [linkNormalized_getElem env memo (hset.ids hids) hi] at hlinked
    exact ⟨(congrArg AttachmentRecord.memoId hlinked).symm,
      (congrArg AttachmentRecord.updatedTs hlinked).symm⟩
  · rintro ⟨normalized', hnormalized', hcurrent, htimes⟩
    obtain rfl := Except.ok.inj (hnormalized.symm.trans hnormalized')
    have hremoved : removedAttachments s memo normalized = [] := by
      refine List.filter_eq_nil_iff.mpr fun a ha hnot => ?_
      rw [decide_eq_true_eq] at hnot
      exact hnot (List.mem_map_of_mem (hcurrent a ha))
    rw [hset.attachments, hremoved, List.map_nil, withoutAttachments_nil]
    refine (List.map_congr_left fun a ha => ?_).trans s.attachments.map_id'
    by_cases hid : a.id ∈ normalized.map (·.id)
    · obtain ⟨i, hi, rfl⟩ := List.getElem_of_mem (hset.mem_of_id hids ha hid)
      obtain ⟨hmemo, htime⟩ := htimes i hi
      rw [linkNormalized_getElem env memo (hset.ids hids) hi, ← hmemo, ← htime]
    · exact (links_linkNormalized env memo normalized a).other hid

theorem setMemoAttachments_again (hs : Distinct s)
    (hrun : (setMemoAttachmentsInternal env user memo names).run s = (.ok (), t))
    (hrun' : (setMemoAttachmentsInternal env user memo names).run t = (.ok (), u))
    (hlength : s.attachments.length ≤ t.attachments.length)
    (hlength' : t.attachments.length ≤ u.attachments.length) : u.attachments = t.attachments := by
  obtain ⟨requested, hrequested, hset, -⟩ := setMemoAttachments_set hs.ids hrun
  obtain ⟨requested', hrequested', hset', -⟩ := setMemoAttachments_set (hs.set hset).ids hrun'
  have hcurrent : currentAttachments s memo ⊆ requested := fun a ha =>
    ((hset.expected.mem a).mp (hset.current_subset hs.ids (hset.removed_nil hlength) ha)).1
  have hcurrent' : currentAttachments t memo ⊆ requested' := fun a ha =>
    ((hset'.expected.mem a).mp
      (hset'.current_subset (hs.set hset).ids (hset'.removed_nil hlength') ha)).1
  exact hset.again hs (hset.requested_again hs hrequested hrequested') hset'
    (fun a _ => retained_of_subset hcurrent a) hcurrent'

namespace AttachmentRounds

variable {n : Nat}

theorem length_le (hs : Distinct s) (h : AttachmentRounds env user memo names n s u) :
    u.attachments.length ≤ s.attachments.length := by
  induction h with
  | done h => rw [h]
  | round hrun hrest ih =>
    obtain ⟨requested, -, hset, -⟩ := setMemoAttachments_set hs.ids hrun
    refine (ih (hs.set hset)).trans ?_
    rw [hset.attachments, List.length_map]
    exact List.length_filter_le _ _

theorem settled (hs : Distinct s)
    (hrun : (setMemoAttachmentsInternal env user memo names).run s = (.ok (), t))
    (hrest : AttachmentRounds env user memo names n t u)
    (hlength : s.attachments.length ≤ u.attachments.length) : u.attachments = t.attachments := by
  induction hrest generalizing s with
  | done h => exact h
  | @round n t t' u hrun' hrest ih =>
    obtain ⟨requested, -, hset, -⟩ := setMemoAttachments_set hs.ids hrun
    obtain ⟨requested', -, hset', -⟩ := setMemoAttachments_set (hs.set hset).ids hrun'
    have hfirst := (AttachmentRounds.round hrun (.done rfl)).length_le hs
    have hsecond := (AttachmentRounds.round hrun' (.done rfl)).length_le (hs.set hset)
    have hlast := hrest.length_le ((hs.set hset).set hset')
    have hsame := setMemoAttachments_again hs hrun hrun' (by omega) (by omega)
    exact (ih (hs.set hset) hrun' (by omega)).trans hsame

theorem stays (hs : Distinct s)
    (hrun : (setMemoAttachmentsInternal env user memo names).run s = (.ok (), t))
    (hsame : t.attachments = s.attachments) (hrest : AttachmentRounds env user memo names n t u) :
    u.attachments = t.attachments := by
  induction hrest generalizing s with
  | done h => exact h
  | @round n t t' u hrun' hrest ih =>
    obtain ⟨requested, -, hset, -⟩ := setMemoAttachments_set hs.ids hrun
    obtain ⟨u', hagain, hsame'⟩ := setMemoAttachments_congr hs.ids hsame hrun
    rw [hrun'] at hagain
    obtain rfl := (Prod.mk.inj hagain).2
    exact (ih (hs.set hset) hrun' hsame').trans hsame'

theorem kept_iff (hs : Distinct s) (h : AttachmentRounds env user memo names n s u) :
    u.attachments = s.attachments ↔ n = 0 ∨ AttachmentsKept env user s memo names := by
  cases h with
  | done h => exact iff_of_true h (.inl rfl)
  | @round n _ t _ hrun hrest =>
    rw [or_iff_right (Nat.succ_ne_zero n), ← attachmentsKept_iff hs.ids hrun]
    constructor
    · intro hsame
      rw [← hsame]
      exact (hrest.settled hs hrun (by rw [hsame])).symm
    · exact fun hsame => (hrest.stays hs hrun hsame).trans hsame

end AttachmentRounds

end attachments

section rounds

variable {env : Env} {call : UpdateCall} {user : UserRecord} {memo : Memo} {s t : Storage}
  {d : Draft}

structure Kept (env : Env) (call : UpdateCall) (user : UserRecord) (memo : Memo) (s : Storage)
    (paths : List Path) : Prop where
  attachments : .attachments ∈ paths → AttachmentsKept env user s memo call.attachments
  relations : .relations ∈ paths → SameReferences s memo call.relations

theorem updateFold_unchanged_iff (h : Intact s) (hs : Distinct s)
    (hparent : ∀ uid, memo.parentUid = some uid → ∃ row ∈ s.memos, row.uid = uid)
    {paths : List Path}
    (hrun : (Durable.fold (updateRound env call user) (Draft.start memo) paths).run s = (.ok d, t)) :
    Unchanged s t ↔ Kept env call user memo s paths := by
  obtain ⟨hframe, -, hsame, hchecked⟩ := updateFold_ok h hparent (.refl h) (.start memo) hrun
  have hstart : Draft.start memo =
      settledDraft env call (answers env s.toDatabase memo) memo [] := rfl
  rw [hstart] at hrun
  have hattachments := (updateFold_settled h hparent (.refl h) hs hrun).2.kept_iff hs
  rw [List.count_eq_zero] at hattachments
  constructor
  · intro hunchanged
    exact ⟨fun hmem => (hattachments.mp hunchanged.attachments).resolve_left (not_not.mpr hmem),
      fun hmem => (hchecked hmem).2.unchanged_iff.mp hunchanged.relations⟩
  · intro hkept
    refine ⟨hframe.users, hframe.memos, ?_, hframe.reactions, hframe.inboxes, ?_⟩
    · by_cases hmem : .attachments ∈ paths
      · exact hattachments.mpr (.inr (hkept.attachments hmem))
      · exact hattachments.mpr (.inl hmem)
    · by_cases hmem : .relations ∈ paths
      · exact (hchecked hmem).2.unchanged_iff.mpr (hkept.relations hmem)
      · intro r
        rw [hsame hmem]

/-- Whether a round writes before it fails depends on the tables alone. -/
theorem Unchanged.idle_iff (hunchanged : Unchanged s t) (path : Path) :
    Idle env call user memo t path ↔ Idle env call user memo s path := by
  cases path with
  | attachments =>
    have hcurrent := currentAttachments_congr hunchanged.attachments memo
    unfold Idle AttachmentsIdle removedAttachments normalizeMemoAttachmentRequest
    rw [hcurrent, requestedAttachment_congr hunchanged.attachments]
  | relations =>
    unfold Idle SameReferences
    rw [hunchanged.memos]
    simp only [hunchanged.relations]
  | _ => exact .rfl

theorem updateRound_unchanged_iff (h : Intact s)
    (hparent : ∀ uid, memo.parentUid = some uid → ∃ row ∈ s.memos, row.uid = uid)
    {before : List Path} {path : Path} {e : String} {t' : Storage}
    (hbefore : (Durable.fold (updateRound env call user) (Draft.start memo) before).run s = (.ok d, t))
    (hround : (updateRound env call user d path).run t = (.error e, t')) :
    Unchanged s t' ↔ Unchanged s t ∧ Idle env call user memo t path := by
  obtain ⟨hframe, hd, hsame, hchecked⟩ := updateFold_ok h hparent (.refl h) (.start memo) hbefore
  by_cases hattachments : path = .attachments
  · subst hattachments
    obtain ⟨result, t₁, hrun, -, -, -, -, hidle, hbusy⟩ :=
      updateRound_attachments env call user h hframe hd
    rw [hround] at hrun
    obtain ⟨rfl, rfl⟩ := Prod.mk.inj hrun
    by_cases hwaits : Idle env call user memo t .attachments
    · rw [hidle Bool.false_ne_true hwaits]
      exact (and_iff_left hwaits).symm
    · refine iff_of_false (fun hunchanged => ?_) fun hboth => hwaits hboth.2
      have hfewer := hbusy Bool.false_ne_true hwaits
      have hle := hframe.attachmentIds.length_le
      rw [List.length_map, List.length_map] at hle
      rw [hunchanged.attachments] at hfewer
      omega
  · by_cases hrelations : path = .relations
    · subst hrelations
      obtain ⟨result, t₁, hrun, hok, hframe₁, -, hkept, -, hreplaced⟩ :=
        updateRound_relations env call user h hframe hd
      rw [hround] at hrun
      obtain ⟨rfl, rfl⟩ := Prod.mk.inj hrun
      -- The path is not among those before it: its relations would have failed there.
      have hfirst : .relations ∉ before := by
        intro hmem
        have hexist := (hchecked hmem).1
        rw [← hframe.memos] at hexist
        exact Bool.false_ne_true (hok.mpr hexist)
      have hold := hsame hfirst
      constructor
      · intro hunchanged
        refine ⟨⟨hframe.users, hframe.memos, hkept.symm.trans hunchanged.attachments,
          hframe.reactions, hframe.inboxes, fun r => by rw [hold]⟩, ?_⟩
        refine hreplaced.unchanged_iff.mp fun r => ?_
        rw [hold]
        exact hunchanged.relations r
      · rintro ⟨hunchanged, hreferences⟩
        refine hunchanged.trans ⟨?_, ?_, hkept, ?_, ?_, hreplaced.unchanged_iff.mpr hreferences⟩
        · exact hframe₁.users.trans hframe.users.symm
        · exact hframe₁.memos.trans hframe.memos.symm
        · exact hframe₁.reactions.trans hframe.reactions.symm
        · exact hframe₁.inboxes.trans hframe.inboxes.symm
    · rw [updateRound_pure hattachments hrelations] at hround
      obtain ⟨-, rfl⟩ := Prod.mk.inj hround
      refine (and_iff_left ?_).symm
      cases path with
      | attachments => exact absurd rfl hattachments
      | relations => exact absurd rfl hrelations
      | _ => trivial

end rounds

section row

variable {env : Env} {call : UpdateCall} {memo : Memo} {s : Storage} {d : Draft}

def RowKept (env : Env) (call : UpdateCall) (memo : Memo) (s : Storage) : Prop :=
  ∀ row ∈ s.memos, row.id = memo.id → row.updated
    (settledDraft env call (answers env s.toDatabase memo) memo call.memo.paths).update = row

theorem updated_of_isEmpty {update : UpdateMemo} (h : update.isEmpty) (row : MemoRecord) :
    row.updated update = row := by
  simp only [UpdateMemo.isEmpty, Bool.and_eq_true, Option.isNone_iff_eq_none] at h
  obtain ⟨⟨⟨⟨⟨⟨hcreated, hupdated⟩, hstatus⟩, hcontent⟩, hvisibility⟩, hpinned⟩, hpayload⟩ := h
  unfold MemoRecord.updated Memo.updated
  rw [hcreated, hupdated, hstatus, hcontent, hvisibility, hpinned, hpayload]
  rfl

theorem writtenMemos_eq_iff {memos : List MemoRecord} : writtenMemos d memos = memos ↔
    ∀ row ∈ memos, row.id = d.memo.id → row.updated d.update = row := by
  unfold writtenMemos
  split
  · rename_i hempty
    exact iff_of_true rfl fun row _ _ => updated_of_isEmpty hempty row
  · have hself : memos = memos.map fun row => row := memos.map_id'.symm
    conv_lhs => rhs; rw [hself]
    rw [List.map_inj_left]
    refine forall_congr' fun row => imp_congr_right fun _ => ?_
    split
    · rename_i hid
      exact (imp_iff_right hid).symm
    · rename_i hid
      exact iff_of_true rfl fun hsame => absurd hsame hid

end row

section update

variable {env : Env} {call : UpdateCall} {userID : Nat} {user : UserRecord} {memo : Memo}
  {s t : Storage} {d : Draft}

/-- Past its mask loop an update fails for a creator that is not found; exactly when it then leaves
the tables as they were. -/
theorem updateMemo_unanswered (h : Intact s) (hs : Distinct s) (hsnippets : env.Snippets)
    (hcheck : checkUpdate s.toDatabase userID call = .ok (user, memo))
    (hloop : (Durable.fold (updateRound env call user) (Draft.start memo) call.memo.paths).run s =
      (.ok d, t)) :
    ∃ result s', (updateMemo env userID call).run s = (result, s') ∧
      (result.isOk ↔ (s.getUser memo.creatorId).isSome) ∧
      (Unchanged s s' ↔ Kept env call user memo s call.memo.paths ∧ RowKept env call memo s) := by
  obtain ⟨⟨row, hrow, hid, -, hcreator⟩, hparent⟩ := checkUpdate_rows hcheck
  obtain ⟨uid, -, -, huser, -⟩ := checkUpdate_ok hcheck
  have hkept := updateFold_unchanged_iff h hs hparent hloop
  obtain ⟨hframe, hd, -, -⟩ := updateFold_ok h hparent (.refl h) (.start memo) hloop
  obtain ⟨result, s', hfinish, hok, -⟩ :=
    finishUpdate_run h hsnippets hframe ⟨row, hrow, hid, hcreator⟩ hd huser
  have hrun : (updateMemo env userID call).run s = (result, s') := by
    rw [updateMemo_run hcheck, Durable.run_bind_of_ok hloop, hfinish]
  have hstore := updateMemo_store hcheck hloop
  rw [hrun, storeUpdateMemo_draft] at hstore
  have hstart : Draft.start memo =
      settledDraft env call (answers env s.toDatabase memo) memo [] := rfl
  rw [hstart] at hloop
  obtain ⟨rfl, -⟩ := updateFold_settled h hparent (.refl h) hs hloop
  obtain rfl : s' = _ := hstore
  refine ⟨result, _, hrun, hok, ?_⟩
  have hmemos : RowKept env call memo s ↔ writtenMemos (settledDraft env call
      (answers env s.toDatabase memo) memo ([] ++ call.memo.paths)) t.memos = s.memos := by
    rw [hframe.memos]
    exact (@writtenMemos_eq_iff (settledDraft env call (answers env s.toDatabase memo) memo
      call.memo.paths) s.memos).symm
  rw [← hkept, hmemos]
  constructor
  · exact fun hunchanged => ⟨⟨hunchanged.users, hframe.memos, hunchanged.attachments,
      hunchanged.reactions, hunchanged.inboxes, hunchanged.relations⟩, hunchanged.memos⟩
  · rintro ⟨hunchanged, hwritten⟩
    exact ⟨hunchanged.users, hwritten, hunchanged.attachments, hunchanged.reactions,
      hunchanged.inboxes, hunchanged.relations⟩

/-- Exactly when an update that fails leaves every table as it was: a round of its mask that fails
writes nothing, and no path before it does; and if the creator of the memo is not found, the mask
asks for what is there. -/
theorem updateMemo_unchanged_iff (h : Intact s) (hs : Distinct s) (hsnippets : env.Snippets) :
    (∀ e s', (updateMemo env userID call).run s = (.error e, s') → Unchanged s s') ↔
      ∀ user memo, checkUpdate s.toDatabase userID call = .ok (user, memo) →
        (∀ before path after d t, call.memo.paths = before ++ path :: after →
          (Durable.fold (updateRound env call user) (Draft.start memo) before).run s = (.ok d, t) →
            Passes env call user memo t path ∨
              Kept env call user memo s before ∧ Idle env call user memo s path) ∧
        ∀ d t, (Durable.fold (updateRound env call user) (Draft.start memo) call.memo.paths).run s =
            (.ok d, t) →
          (s.getUser memo.creatorId).isSome ∨
            Kept env call user memo s call.memo.paths ∧ RowKept env call memo s := by
  have hfailing : ∀ {user memo} {before : List Path} {path : Path} {d : Draft} {t t' : Storage}
      {e : String}, checkUpdate s.toDatabase userID call = .ok (user, memo) →
        (Durable.fold (updateRound env call user) (Draft.start memo) before).run s = (.ok d, t) →
          (updateRound env call user d path).run t = (.error e, t') → (Unchanged s t' ↔
            Kept env call user memo s before ∧ Idle env call user memo s path) := by
    intro user memo before path d t t' e hcheck hbefore hround
    obtain ⟨-, hparent⟩ := checkUpdate_rows hcheck
    rw [updateRound_unchanged_iff h hparent hbefore hround,
      ← updateFold_unchanged_iff h hs hparent hbefore]
    exact and_congr_right fun hunchanged => hunchanged.idle_iff path
  constructor
  · intro hclean user memo hcheck
    obtain ⟨-, hparent⟩ := checkUpdate_rows hcheck
    refine ⟨fun before path after d t hpaths hbefore => ?_, fun d t hloop => ?_⟩
    · obtain ⟨result, t', hround⟩ : ∃ result t',
          (updateRound env call user d path).run t = (result, t') := ⟨_, _, rfl⟩
      cases result with
      | ok d' => exact .inl ((laterRound_isOk_iff h hparent hbefore hround).mp rfl)
      | error e =>
        have hunchanged := hclean e t' (updateMemo_failed hcheck hpaths hbefore hround)
        exact .inr ((hfailing hcheck hbefore hround).mp hunchanged)
    · obtain ⟨result, s', hrun, hok, hiff⟩ := updateMemo_unanswered h hs hsnippets hcheck hloop
      cases result with
      | ok message => exact .inl (hok.mp rfl)
      | error e => exact .inr (hiff.mp (hclean e s' hrun))
  · intro hall e s' hrun
    cases hcheck : checkUpdate s.toDatabase userID call with
    | error refused =>
      rw [updateMemo_refused hcheck] at hrun
      obtain ⟨-, rfl⟩ := Prod.mk.inj hrun
      exact .refl s
    | ok checked =>
      obtain ⟨user, memo⟩ := checked
      obtain ⟨hrounds, hlast⟩ := hall user memo hcheck
      cases hloop : (Durable.fold (updateRound env call user) (Draft.start memo)
          call.memo.paths).run s with
      | mk looped t =>
        cases looped with
        | ok d =>
          obtain ⟨result, s'', hrun', hok, hiff⟩ :=
            updateMemo_unanswered h hs hsnippets hcheck hloop
          rw [hrun] at hrun'
          obtain ⟨rfl, rfl⟩ := Prod.mk.inj hrun'
          refine hiff.mpr ((hlast d t hloop).resolve_left fun hsome => ?_)
          exact Bool.false_ne_true (hok.mpr hsome)
        | error e' =>
          rw [updateMemo_run hcheck, Durable.run_bind_of_error hloop] at hrun
          obtain ⟨he, rfl⟩ := Prod.mk.inj hrun
          obtain ⟨before, path, after, d, t₁, hpaths, hbefore, hround⟩ := Durable.fold_error hloop
          refine (hfailing hcheck hbefore hround).mpr ?_
          refine (hrounds before path after d t₁ hpaths hbefore).resolve_left fun hpasses => ?_
          obtain ⟨-, hparent⟩ := checkUpdate_rows hcheck
          exact Bool.false_ne_true ((laterRound_isOk_iff h hparent hbefore hround).mpr hpasses)

end update

section diary

theorem linkedDiary_distinct : Distinct linkedDiary := ⟨List.nodup_nil, List.nodup_nil⟩

theorem check_linkedDiary {call : UpdateCall} (hname : call.name = "memos/diary")
    (hpaths : call.memo.paths ≠ []) :
    checkUpdate linkedDiary.toDatabase 1 call = .ok (ada, diaryMemo.withParent none) := by
  unfold checkUpdate
  rw [hname, extract_diary]
  dsimp only [Except.mapError, bind, Except.bind]
  rw [if_neg hpaths, getMemo_linkedDiary]
  rfl

theorem updateMemo_refused_last {call : UpdateCall} (hname : call.name = "memos/diary")
    (hpaths : call.memo.paths = [.relations, .displayTime])
    (hexist : ∀ relation ∈ call.relations, RelationExists linkedDiary.memos "diary" relation) :
    ∃ e s', (updateMemo (lenientEnv "") 1 call).run linkedDiary = (.error e, s') ∧
      Replaced (diaryMemo.withParent none) call.relations linkedDiary s' := by
  have hcheck := check_linkedDiary hname (by rw [hpaths]; exact List.cons_ne_nil _ _)
  obtain ⟨result, t, hround, hok, hframe, hsame, -, -, hreplaced⟩ :=
    updateRound_relations (lenientEnv "") call ada linkedDiary_intact (.refl linkedDiary_intact)
      (.start (diaryMemo.withParent none))
  have hpassed : result.isOk := hok.mpr hexist
  cases result with
  | error e => cases hpassed
  | ok d =>
    obtain rfl := hsame d rfl
    have hfold : (Durable.fold (updateRound (lenientEnv "") call ada)
        (Draft.start (diaryMemo.withParent none)) [.relations]).run linkedDiary =
          (.ok (Draft.start (diaryMemo.withParent none)), t) := Durable.run_bind_of_ok hround
    have hlast : (updateRound (lenientEnv "") call ada (Draft.start (diaryMemo.withParent none))
        .displayTime).run t = (.error "display_time is not supported", t) :=
      updateRound_pure (by decide) (by decide)
    have hsplit : call.memo.paths = [.relations] ++ .displayTime :: [] := hpaths
    exact ⟨_, t, updateMemo_failed hcheck hsplit hfold hlast, hreplaced⟩

def sameReference : UpdateCall :=
  { diaryUpdate [.relations, .displayTime] with
    relations := [⟨some "memos/note", some .REFERENCE⟩] }

theorem sameReference_exists : ∀ relation ∈ sameReference.relations,
    RelationExists linkedDiary.memos "diary" relation := by
  intro relation hrelation
  obtain rfl := List.mem_singleton.mp hrelation
  exact ⟨_, rfl, .inr (.inr ⟨"note", by decide, noteMemo,
    List.mem_cons_of_mem _ List.mem_cons_self, rfl⟩)⟩

/-- The reference that is there is set again, and then the call fails for its last path. -/
theorem updateMemo_unchanged_sameReference : ∃ e s',
    (updateMemo (lenientEnv "") 1 sameReference).run linkedDiary = (.error e, s') ∧
      Unchanged linkedDiary s' := by
  obtain ⟨e, s', hrun, -⟩ := updateMemo_refused_last rfl rfl sameReference_exists
  refine ⟨e, s', hrun, (updateMemo_unchanged_iff linkedDiary_intact linkedDiary_distinct
    (lenientEnv_snippets "")).mpr (fun user memo hcheck => ?_) e s' hrun⟩
  rw [check_linkedDiary rfl (List.cons_ne_nil _ _)] at hcheck
  obtain ⟨rfl, rfl⟩ := Prod.mk.inj (Except.ok.inj hcheck)
  refine ⟨fun before path after d t hpaths hbefore => ?_, fun d t _ => .inl rfl⟩
  change [Path.relations, .displayTime] = before ++ path :: after at hpaths
  rcases before with _ | ⟨first, _ | ⟨second, before⟩⟩
  · obtain ⟨-, rfl⟩ := Prod.mk.inj hbefore
    rw [← (List.cons.inj hpaths).1]
    exact .inl sameReference_exists
  · obtain ⟨hfirst, hrest⟩ := List.cons.inj hpaths
    rw [← hfirst, ← (List.cons.inj hrest).1]
    refine .inr ⟨⟨fun hmem => absurd hmem (by decide), fun _ r => ?_⟩, trivial⟩
    have hwritten : relationsWritten linkedDiary.memos (diaryMemo.withParent none)
        sameReference.relations = [⟨1, 2, .REFERENCE⟩] := by decide
    rw [hwritten]
    refine ⟨fun hr => ?_, fun hr => hr.1⟩
    obtain rfl := List.mem_singleton.mp hr
    exact ⟨List.mem_singleton_self _, rfl, rfl⟩
  · have hlength := congrArg List.length hpaths
    simp at hlength

/-- The relations are removed, and then the call fails for its last path. -/
theorem relations_lost : ∃ e s', (updateMemo (lenientEnv "") 1
    (diaryUpdate [.relations, .displayTime])).run linkedDiary = (.error e, s') ∧
      ⟨1, 2, .REFERENCE⟩ ∈ linkedDiary.relations ∧ ⟨1, 2, .REFERENCE⟩ ∉ s'.relations := by
  obtain ⟨e, s', hrun, hreplaced⟩ := @updateMemo_refused_last
    (diaryUpdate [.relations, .displayTime]) rfl rfl fun relation hrelation =>
      absurd hrelation List.not_mem_nil
  refine ⟨e, s', hrun, List.mem_singleton_self _, fun hmem => ?_⟩
  rcases (hreplaced _).mp hmem with hkept | hwritten
  · exact hkept.2 ⟨rfl, rfl⟩
  · cases hwritten

end diary

end Memoark.Server.WriteMemos
