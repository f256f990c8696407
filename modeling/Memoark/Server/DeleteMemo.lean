import Mathlib.Data.List.Nodup
import Memoark.Program.Returns
import Memoark.Store.Tables

/-! `DeleteMemo` of `server/router/api/v1/memo_service.go` and of `store/memo.go`, and which of
the memo's references it leaves behind. -/
namespace Memoark.Server
open Store

structure DeleteEnv where
  /-- The current user and whether it is an admin; none if not signed in. -/
  user : Option (Nat × Bool)
  /-- The stored file of an attachment cannot be removed. -/
  storageFails : Attachment → Bool
  /-- Foreign keys are enforced: not on SQLite, which is opened with `foreign_keys(0)`. -/
  foreignKeys : Bool

abbrev Deletion := StateT Tables (Except String)

/-- `ListAttachments` with its default limit, newest first. -/
def listAttachments (t : Tables) (find : Attachment → Bool) : List Attachment :=
  ((t.attachments.filter find).mergeSort fun a b => b.updatedTs ≤ a.updatedTs).take 100

section store

variable (env : DeleteEnv)

def deleteAttachment (id : Nat) : Deletion Unit := do
  let t ← get
  match (listAttachments t (·.id == id)).head? with
  | none => throw "attachment not found"
  | some attachment =>
    -- Other storage that fails is only logged.
    if env.storageFails attachment && attachment.storageType == .LOCAL then
      throw "failed to delete local file"
    set { t with attachments := t.attachments.filter (·.id ≠ id) }

def storeDeleteMemo (id : Nat) : Deletion Unit := do
  modify fun t => { t with relations := t.relations.filter (·.memoId ≠ id) }
  modify fun t => { t with relations := t.relations.filter (·.relatedMemoId ≠ id) }
  let t ← get
  (listAttachments t (·.memoId == some id)).forM fun attachment =>
    deleteAttachment env attachment.id
  modify fun t =>
    { t with
      memos := t.memos.filter (·.id ≠ id)
      shares := if env.foreignKeys then t.shares.filter (·.memoId ≠ id) else t.shares }

/-- The ids of a memo's comments, as `ListMemoRelations` orders them. -/
def listComments (t : Tables) (id : Nat) : List Nat :=
  ((t.relations.filter fun r => r.relatedMemoId == id && r.type == .COMMENT).mergeSort
    fun r r' => r'.memoId ≤ r.memoId).map (·.memoId)

/-- `memoUID` is the UID in the request's name, none for another name. -/
def DeleteMemo (memoUID : Option String) : Deletion Unit := do
  match memoUID with
  | none => throw "invalid memo name"
  | some uid =>
    let t ← get
    match t.memos.find? (·.uid == uid) with
    | none => throw "memo not found"
    | some memo =>
      match env.user with
      | none => throw "user not authenticated"
      | some (userId, superUser) =>
        if memo.creatorId ≠ userId && !superUser then
          throw "permission denied"
        -- Only the direct comments; each call handles relations and attachments.
        (listComments t memo.id).forM (storeDeleteMemo env)
        storeDeleteMemo env memo.id

end store

def afterDeleteMemo (foreignKeys : Bool) (t : Tables) (id : Nat) : Tables :=
  { t with
    memos := t.memos.filter (·.id ≠ id)
    relations := t.relations.filter fun r => r.memoId ≠ id ∧ r.relatedMemoId ≠ id
    attachments := t.attachments.filter fun a =>
      a.id ∉ (listAttachments t (·.memoId == some id)).map (·.id)
    shares := if foreignKeys then t.shares.filter (·.memoId ≠ id) else t.shares }

section success

variable {env : DeleteEnv} {t t' : Tables}

theorem deleteAttachment_ok {id : Nat} (h : (deleteAttachment env id).run t = .ok ((), t')) :
    t' = { t with attachments := t.attachments.filter (·.id ≠ id) } := by
  rw [deleteAttachment, StateT.run_bind, StateT.run_get] at h
  obtain ⟨_, ⟨⟩, h⟩ := Program.bind_ok h
  dsimp only at h
  split at h
  · cases h
  · split at h
    · cases h
    · cases h
      rfl

theorem forM_deleteAttachment_ok {attachments : List Attachment}
    (h : (attachments.forM fun a => deleteAttachment env a.id).run t = .ok ((), t')) :
    t' = { t with
      attachments := t.attachments.filter fun a => a.id ∉ attachments.map (·.id) } := by
  induction attachments generalizing t with
  | nil =>
    cases h
    have hall : t'.attachments.filter (fun a => a.id ∉ ([] : List Attachment).map (·.id)) =
        t'.attachments := List.filter_eq_self.mpr (by simp)
    rw [hall]
  | cons a attachments ih =>
    change (deleteAttachment env a.id >>= fun _ => attachments.forM _).run t = _ at h
    rw [StateT.run_bind] at h
    obtain ⟨⟨_, s⟩, ha, h⟩ := Program.bind_ok h
    obtain rfl := deleteAttachment_ok ha
    obtain rfl := ih h
    simp [List.filter_filter, Bool.and_comm]

theorem storeDeleteMemo_ok {id : Nat} (h : (storeDeleteMemo env id).run t = .ok ((), t')) :
    t' = afterDeleteMemo env.foreignKeys t id := by
  rw [storeDeleteMemo, StateT.run_bind] at h
  obtain ⟨_, ⟨⟩, h⟩ := Program.bind_ok h
  rw [StateT.run_bind] at h
  obtain ⟨_, ⟨⟩, h⟩ := Program.bind_ok h
  rw [StateT.run_bind, StateT.run_get] at h
  obtain ⟨_, ⟨⟩, h⟩ := Program.bind_ok h
  rw [StateT.run_bind] at h
  obtain ⟨⟨_, s⟩, hloop, h⟩ := Program.bind_ok h
  obtain rfl := forM_deleteAttachment_ok hloop
  cases h
  simp [afterDeleteMemo, listAttachments, List.filter_filter, Bool.and_comm]

theorem forM_storeDeleteMemo_ok {ids : List Nat}
    (h : (ids.forM (storeDeleteMemo env)).run t = .ok ((), t')) :
    t' = ids.foldl (afterDeleteMemo env.foreignKeys) t := by
  induction ids generalizing t with
  | nil =>
    cases h
    rfl
  | cons id ids ih =>
    change (storeDeleteMemo env id >>= fun _ => ids.forM _).run t = _ at h
    rw [StateT.run_bind] at h
    obtain ⟨⟨_, s⟩, hid, h⟩ := Program.bind_ok h
    obtain rfl := storeDeleteMemo_ok hid
    exact ih h

def deletedIds (t : Tables) (id : Nat) : List Nat := listComments t id ++ [id]

theorem DeleteMemo_ok {memoUID : Option String}
    (h : (DeleteMemo env memoUID).run t = .ok ((), t')) :
    ∃ memo ∈ t.memos, memoUID = some memo.uid ∧
      t' = (deletedIds t memo.id).foldl (afterDeleteMemo env.foreignKeys) t := by
  unfold DeleteMemo at h
  split at h
  · cases h
  · rename_i uid
    rw [StateT.run_bind, StateT.run_get] at h
    obtain ⟨_, ⟨⟩, h⟩ := Program.bind_ok h
    dsimp only at h
    split at h
    · cases h
    · rename_i memo hmemo
      have huid : memo.uid = uid := by simpa using List.find?_some hmemo
      refine ⟨memo, List.mem_of_find?_eq_some hmemo, by rw [huid], ?_⟩
      split at h
      · cases h
      · split at h
        · cases h
        · rw [StateT.run_bind] at h
          obtain ⟨⟨_, s⟩, hcomments, h⟩ := Program.bind_ok h
          obtain rfl := forM_storeDeleteMemo_ok hcomments
          obtain rfl := storeDeleteMemo_ok h
          rw [deletedIds, List.foldl_append]
          rfl

end success

section effect

variable {foreignKeys : Bool} {t : Tables} {ids : List Nat}

theorem foldl_memos :
    (ids.foldl (afterDeleteMemo foreignKeys) t).memos = t.memos.filter (·.id ∉ ids) := by
  induction ids generalizing t with
  | nil => exact (List.filter_eq_self.mpr (by simp)).symm
  | cons id ids ih =>
    rw [List.foldl_cons, ih]
    simp [afterDeleteMemo, List.filter_filter, Bool.and_comm]

theorem foldl_relations :
    (ids.foldl (afterDeleteMemo foreignKeys) t).relations =
      t.relations.filter fun r => r.memoId ∉ ids ∧ r.relatedMemoId ∉ ids := by
  induction ids generalizing t with
  | nil => exact (List.filter_eq_self.mpr (by simp)).symm
  | cons id ids ih =>
    rw [List.foldl_cons, ih]
    simp only [afterDeleteMemo, List.filter_filter]
    congr 1
    funext r
    simp only [List.mem_cons, not_or, Bool.decide_and]
    grind

theorem foldl_shares :
    (ids.foldl (afterDeleteMemo foreignKeys) t).shares =
      if foreignKeys then t.shares.filter (·.memoId ∉ ids) else t.shares := by
  induction ids generalizing t with
  | nil =>
    have hall : t.shares.filter (fun s => s.memoId ∉ []) = t.shares :=
      List.filter_eq_self.mpr (by simp)
    rw [hall, ite_self]
    rfl
  | cons id ids ih =>
    rw [List.foldl_cons, ih]
    cases foreignKeys with
    | false => rfl
    | true => simp [afterDeleteMemo, List.filter_filter, Bool.and_comm]

theorem foldl_reactions :
    (ids.foldl (afterDeleteMemo foreignKeys) t).reactions = t.reactions := by
  induction ids generalizing t with
  | nil => rfl
  | cons id ids ih => exact ih

theorem foldl_inboxes : (ids.foldl (afterDeleteMemo foreignKeys) t).inboxes = t.inboxes := by
  induction ids generalizing t with
  | nil => rfl
  | cons id ids ih => exact ih

def attachmentsOf (t : Tables) (id : Nat) : List Attachment :=
  t.attachments.filter (·.memoId == some id)

theorem attachment_eq (h : (t.attachments.map (·.id)).Nodup) {a b : Attachment}
    (ha : a ∈ t.attachments) (hb : b ∈ t.attachments) (hid : a.id = b.id) : a = b :=
  List.inj_on_of_nodup_map h ha hb hid

theorem attachmentsOf_after_ne (h : (t.attachments.map (·.id)).Nodup) {id other : Nat}
    (hne : other ≠ id) :
    attachmentsOf (afterDeleteMemo foreignKeys t id) other = attachmentsOf t other := by
  rw [attachmentsOf, afterDeleteMemo, List.filter_filter, attachmentsOf]
  apply List.filter_congr
  intro a ha
  by_cases hmemo : a.memoId = some other
  · have hkeep : a.id ∉ (listAttachments t (·.memoId == some id)).map (·.id) := by
      rw [List.mem_map]
      rintro ⟨b, hb, hid⟩
      have hb := List.mem_filter.mp (List.mem_mergeSort.mp (List.mem_of_mem_take hb))
      obtain rfl := attachment_eq h hb.1 ha hid
      have hmemo' : b.memoId = some id := by simpa using hb.2
      rw [hmemo'] at hmemo
      exact hne (Option.some.inj hmemo).symm
    simp [hmemo, hkeep]
  · simp [hmemo]

theorem attachmentsOf_after_self (h : (t.attachments.map (·.id)).Nodup) {id : Nat} :
    (attachmentsOf (afterDeleteMemo foreignKeys t id) id).length =
      (attachmentsOf t id).length - 100 := by
  let sorted := (attachmentsOf t id).mergeSort fun a b => b.updatedTs ≤ a.updatedTs
  let deleted := fun a : Attachment => a.id ∉ (sorted.take 100).map (·.id)
  have hsorted : sorted.Perm (attachmentsOf t id) := List.mergeSort_perm _ _
  have hnodup : (sorted.map (·.id)).Nodup :=
    (hsorted.map _).nodup_iff.mpr (h.sublist (List.filter_sublist.map _))
  have hsplit : sorted.filter deleted = sorted.drop 100 := by
    have hdisjoint : ((sorted.take 100).map (·.id)).Disjoint ((sorted.drop 100).map (·.id)) := by
      rw [← List.take_append_drop 100 sorted, List.map_append] at hnodup
      exact List.disjoint_of_nodup_append hnodup
    have htake : (sorted.take 100).filter deleted = [] := by
      rw [List.filter_eq_nil_iff]
      intro a ha
      have hmem : a.id ∈ (sorted.take 100).map (·.id) := List.mem_map_of_mem ha
      simpa [deleted] using hmem
    have hdrop : (sorted.drop 100).filter deleted = sorted.drop 100 := by
      rw [List.filter_eq_self]
      intro a ha
      have hnot : a.id ∉ (sorted.take 100).map (·.id) :=
        fun hmem => hdisjoint hmem (List.mem_map_of_mem ha)
      simpa [deleted] using hnot
    calc sorted.filter deleted
        = (sorted.take 100 ++ sorted.drop 100).filter deleted := by rw [List.take_append_drop]
      _ = sorted.drop 100 := by rw [List.filter_append, htake, hdrop, List.nil_append]
  have hcomm : attachmentsOf (afterDeleteMemo foreignKeys t id) id =
      (attachmentsOf t id).filter deleted := by
    rw [attachmentsOf, afterDeleteMemo, attachmentsOf, List.filter_filter, List.filter_filter]
    apply List.filter_congr
    intro a _
    exact Bool.and_comm _ _
  rw [hcomm, ← (hsorted.filter _).length_eq, hsplit, List.length_drop, hsorted.length_eq]

theorem attachments_after_nodup (h : (t.attachments.map (·.id)).Nodup) (id : Nat) :
    ((afterDeleteMemo foreignKeys t id).attachments.map (·.id)).Nodup :=
  h.sublist (List.filter_sublist.map _)

theorem attachmentsOf_foldl (foreignKeys : Bool) (ids : List Nat)
    (h : (t.attachments.map (·.id)).Nodup) (id : Nat) :
    (attachmentsOf (ids.foldl (afterDeleteMemo foreignKeys) t) id).length =
      (attachmentsOf t id).length - 100 * ids.count id := by
  induction ids generalizing t with
  | nil => rfl
  | cons first ids ih =>
    rw [List.foldl_cons, ih (attachments_after_nodup h first), List.count_cons]
    by_cases hid : first = id
    · subst hid
      rw [attachmentsOf_after_self h, if_pos (by simp)]
      omega
    · rw [attachmentsOf_after_ne h fun heq => hid heq.symm, if_neg (by simpa using hid),
        Nat.add_zero]

end effect

section deletable

/-- What a deletion of the memo should leave: no row refers to a removed memo, and no memo that
was in the comment tree below it is left without a parent. -/
structure DeletedClean (t t' : Tables) (memo : MemoRow) : Prop where
  unreferenced : ∀ gone ∈ t.memos, gone ∉ t'.memos → t'.Unreferenced gone
  comments : ∀ comment ∈ t'.memos, t.InTree memo.id comment.id → ∃ parent, t'.Comment comment.id parent

/-- The memos that a deletion removes have nothing that it leaves behind: at most 100 attachments
each (for each time that a memo is deleted), no reactions, shares (without foreign keys) and
notifications, and no comments of their own that are not removed with them. -/
structure Deletable (foreignKeys : Bool) (t : Tables) (memo : MemoRow) : Prop where
  attachments : ∀ gone ∈ t.memos, gone.id ∈ deletedIds t memo.id →
    (attachmentsOf t gone.id).length ≤ 100 * (deletedIds t memo.id).count gone.id
  reactions : ∀ gone ∈ t.memos, gone.id ∈ deletedIds t memo.id →
    ∀ r ∈ t.reactions, ¬r.RefersTo gone
  shares : foreignKeys = false → ∀ gone ∈ t.memos, gone.id ∈ deletedIds t memo.id →
    ∀ s ∈ t.shares, ¬s.RefersTo gone
  inboxes : ∀ gone ∈ t.memos, gone.id ∈ deletedIds t memo.id →
    ∀ i ∈ t.inboxes, ¬i.RefersTo gone
  comments : ∀ comment ∈ t.memos, comment.id ∉ deletedIds t memo.id →
    (∃ parent ∈ deletedIds t memo.id, t.Comment comment.id parent) →
      ∃ parent, parent ∉ deletedIds t memo.id ∧ t.Comment comment.id parent

variable {env : DeleteEnv} {foreignKeys : Bool} {t t' : Tables} {memo : MemoRow} {ids : List Nat}

theorem mem_deletedIds {id id' : Nat} : id' ∈ deletedIds t id ↔ t.Comment id' id ∨ id' = id := by
  rw [deletedIds, List.mem_append, List.mem_singleton, listComments, List.mem_map]
  refine or_congr_left ?_
  constructor
  · rintro ⟨r, hr, rfl⟩
    have hr := List.mem_filter.mp (List.mem_mergeSort.mp hr)
    have hkeys : r.relatedMemoId = id ∧ r.type = .COMMENT := by simpa using hr.2
    exact ⟨r, hr.1, hkeys.2, rfl, hkeys.1⟩
  · rintro ⟨r, hr, htype, rfl, hrelated⟩
    refine ⟨r, List.mem_mergeSort.mpr (List.mem_filter.mpr ⟨hr, ?_⟩), rfl⟩
    simp [htype, hrelated]

theorem comment_foldl {child parent : Nat} :
    (ids.foldl (afterDeleteMemo foreignKeys) t).Comment child parent ↔
      t.Comment child parent ∧ child ∉ ids ∧ parent ∉ ids := by
  constructor
  · rintro ⟨r, hr, htype, rfl, rfl⟩
    rw [foldl_relations] at hr
    have hr := List.mem_filter.mp hr
    exact ⟨⟨r, hr.1, htype, rfl, rfl⟩, by simpa using hr.2⟩
  · rintro ⟨⟨r, hr, htype, rfl, rfl⟩, hids⟩
    refine ⟨r, ?_, htype, rfl, rfl⟩
    rw [foldl_relations]
    exact List.mem_filter.mpr ⟨hr, by simpa using hids⟩

theorem mem_foldl_memos {gone : MemoRow} (h : gone ∈ t.memos) :
    gone ∉ (ids.foldl (afterDeleteMemo foreignKeys) t).memos ↔ gone.id ∈ ids := by
  rw [foldl_memos, List.mem_filter, not_and]
  simp [h]

theorem attachments_unreferenced_iff (hk : (t.attachments.map (·.id)).Nodup) (gone : MemoRow) :
    (∀ a ∈ (ids.foldl (afterDeleteMemo foreignKeys) t).attachments, ¬a.RefersTo gone) ↔
      (attachmentsOf t gone.id).length ≤ 100 * ids.count gone.id := by
  have hlength := attachmentsOf_foldl foreignKeys ids hk gone.id
  have hnil : (∀ a ∈ (ids.foldl (afterDeleteMemo foreignKeys) t).attachments, ¬a.RefersTo gone) ↔
      attachmentsOf (ids.foldl (afterDeleteMemo foreignKeys) t) gone.id = [] := by
    rw [attachmentsOf, List.filter_eq_nil_iff]
    simp [Attachment.RefersTo]
  rw [hnil, ← List.length_eq_zero_iff, hlength]
  omega

theorem memo_eq (hk : t.Keys) {memo memo' : MemoRow} (h : memo ∈ t.memos) (h' : memo' ∈ t.memos)
    (huid : memo.uid = memo'.uid) : memo = memo' :=
  List.inj_on_of_nodup_map hk.memoUids h h' huid

/-- A successful deletion is clean exactly if the memos it removes are deletable. -/
theorem deleteMemo_clean_iff (hk : t.Keys) (hmemo : memo ∈ t.memos)
    (h : (DeleteMemo env (some memo.uid)).run t = .ok ((), t')) :
    DeletedClean t t' memo ↔ Deletable env.foreignKeys t memo := by
  obtain ⟨found, hfound, huid, rfl⟩ := DeleteMemo_ok h
  obtain rfl := memo_eq hk hmemo hfound (Option.some.inj huid)
  constructor
  · intro hclean
    have hun : ∀ gone ∈ t.memos, gone.id ∈ deletedIds t memo.id → _ :=
      fun gone hgone hid => hclean.unreferenced gone hgone ((mem_foldl_memos hgone).mpr hid)
    refine ⟨?_, ?_, ?_, ?_, ?_⟩
    · intro gone hgone hid
      exact (attachments_unreferenced_iff hk.attachmentIds gone).mp (hun gone hgone hid).attachments
    · intro gone hgone hid r hr
      exact (hun gone hgone hid).reactions r (by rwa [foldl_reactions])
    · intro hfk gone hgone hid s hs
      exact (hun gone hgone hid).shares s (by rwa [foldl_shares, hfk, if_neg nofun])
    · intro gone hgone hid i hi
      exact (hun gone hgone hid).inboxes i (by rwa [foldl_inboxes])
    · rintro comment hcomment hid ⟨parent, hparent, hedge⟩
      have hleft : comment ∈ ((deletedIds t memo.id).foldl
          (afterDeleteMemo env.foreignKeys) t).memos := by
        rw [foldl_memos]
        exact List.mem_filter.mpr ⟨hcomment, by simpa using hid⟩
      have htree : t.InTree memo.id comment.id := by
        rcases mem_deletedIds.mp hparent with hdirect | rfl
        · exact .reply (.comment hdirect) hedge
        · exact .comment hedge
      obtain ⟨other, hother⟩ := hclean.comments comment hleft htree
      obtain ⟨hedge', -, hkept⟩ := comment_foldl.mp hother
      exact ⟨other, hkept, hedge'⟩
  · intro hdel
    refine ⟨?_, ?_⟩
    · intro gone hgone hnot
      have hid := (mem_foldl_memos hgone).mp hnot
      refine ⟨?_, ?_, ?_, ?_, ?_⟩
      · intro r hr hrefers
        rw [foldl_relations] at hr
        have hids : r.memoId ∉ deletedIds t memo.id ∧ r.relatedMemoId ∉ deletedIds t memo.id := by
          simpa using (List.mem_filter.mp hr).2
        rcases hrefers with heq | heq
        · exact hids.1 (heq ▸ hid)
        · exact hids.2 (heq ▸ hid)
      · exact (attachments_unreferenced_iff hk.attachmentIds gone).mpr
          (hdel.attachments gone hgone hid)
      · intro r hr
        rw [foldl_reactions] at hr
        exact hdel.reactions gone hgone hid r hr
      · intro s hs hrefers
        rw [foldl_shares] at hs
        split at hs
        · have hids : s.memoId ∉ deletedIds t memo.id := by
            simpa using (List.mem_filter.mp hs).2
          exact hids (hrefers ▸ hid)
        · rename_i hfk
          exact hdel.shares (by simpa using hfk) gone hgone hid s hs hrefers
      · intro i hi
        rw [foldl_inboxes] at hi
        exact hdel.inboxes gone hgone hid i hi
    · intro comment hcomment htree
      rw [foldl_memos] at hcomment
      obtain ⟨hin, hid⟩ : comment ∈ t.memos ∧ comment.id ∉ deletedIds t memo.id := by
        simpa using List.mem_filter.mp hcomment
      have hedge : ∃ parent, t.Comment comment.id parent := by
        cases htree with
        | comment h => exact ⟨_, h⟩
        | reply _ h => exact ⟨_, h⟩
      obtain ⟨parent, hedge⟩ := hedge
      by_cases hparent : parent ∈ deletedIds t memo.id
      · obtain ⟨other, hkept, hedge'⟩ := hdel.comments comment hin hid ⟨parent, hparent, hedge⟩
        exact ⟨other, comment_foldl.mpr ⟨hedge', hid, hkept⟩⟩
      · exact ⟨parent, comment_foldl.mpr ⟨hedge, hid, hparent⟩⟩

/-- The creator of all memos, on SQLite. -/
def owner : DeleteEnv := ⟨some (1, false), fun _ => false, false⟩

def thread : Tables where
  users := [1]
  memos := [⟨1, "memo", 1⟩, ⟨2, "comment", 1⟩, ⟨3, "reply", 1⟩]
  relations := [⟨2, 1, .COMMENT⟩, ⟨3, 2, .COMMENT⟩]
  attachments := [⟨1, 1, some 3, 0, .UNSPECIFIED, true⟩]
  reactions := [⟨1, 1, "memos/memo"⟩]
  shares := []
  inboxes := []
  settings := []
  identities := []

theorem thread_keys : thread.Keys where
  memoIds := by decide
  memoUids := by decide +kernel
  memoIdPos := by decide
  attachmentIds := by decide
  inboxIds := by decide

/-- The reply goes with its attachment. -/
theorem deletedClean_reply : ∃ t', (DeleteMemo owner (some "reply")).run thread = .ok ((), t') ∧
    DeletedClean thread t' ⟨3, "reply", 1⟩ := by
  have hrun : ∃ t', (DeleteMemo owner (some "reply")).run thread = .ok ((), t') := by
    simp [DeleteMemo, owner, thread, listComments, storeDeleteMemo, listAttachments,
      deleteAttachment]
    exact ⟨_, rfl⟩
  have hids : deletedIds thread 3 = [3] := by simp [deletedIds, listComments, thread]
  have hdel : Deletable false thread ⟨3, "reply", 1⟩ := by
    constructor <;> simp only [hids]
    · simp [thread, attachmentsOf]
    · simp [thread, Reaction.RefersTo, MemoRow.name]
    · simp [thread]
    · simp [thread]
    · simp [thread, Tables.Comment]
  obtain ⟨t', hrun⟩ := hrun
  exact ⟨t', hrun, (deleteMemo_clean_iff thread_keys (by simp [thread]) hrun).mpr hdel⟩

/-- The memo's deletion leaves its reaction and makes the reply a top-level memo. -/
theorem delete_leaves_reaction_and_reply :
    ∃ t', (DeleteMemo owner (some "memo")).run thread = .ok ((), t') ∧
      t'.memos = [⟨3, "reply", 1⟩] ∧ t'.relations = [] ∧ t'.reactions = [⟨1, 1, "memos/memo"⟩] ∧
      ¬DeletedClean thread t' ⟨1, "memo", 1⟩ := by
  have hrun : ∃ t', (DeleteMemo owner (some "memo")).run thread = .ok ((), t') ∧
      t'.memos = [⟨3, "reply", 1⟩] ∧ t'.relations = [] ∧
      t'.reactions = [⟨1, 1, "memos/memo"⟩] := by
    simp [DeleteMemo, owner, thread, listComments, storeDeleteMemo, listAttachments]
    exact ⟨_, rfl, rfl, rfl, rfl⟩
  obtain ⟨t', hrun, hmemos, hrelations, hreactions⟩ := hrun
  refine ⟨t', hrun, hmemos, hrelations, hreactions, fun h => ?_⟩
  have hgone : (⟨1, "memo", 1⟩ : MemoRow) ∉ t'.memos := by simp [hmemos]
  have hun := h.unreferenced ⟨1, "memo", 1⟩ (by simp [thread]) hgone
  exact hun.reactions ⟨1, 1, "memos/memo"⟩ (by simp [hreactions])
    (by simp [Reaction.RefersTo, MemoRow.name])

end deletable

end Memoark.Server
