import Mathlib.Data.List.Nodup
import Memoark.Store.DeleteUser

/-! A deleted user is gone from every table, with the comment trees below the user's memos, and
nothing else is. -/
namespace Memoark.Store
open Memoark.Graph

section transactions

variable {α β : Type} {m : Tx α} {f : α → Tx β}

def Selects (m : Tx α) (P : Tables → α → Prop) : Prop :=
  ∀ s a s', m.run s = .ok (a, s') → s'.2 = s.2 ∧ P s.2 a

def Changes (m : Tx Unit) (g : Tables → Tables) : Prop :=
  ∀ s s', m.run s = .ok ((), s') → s'.2 = g s.2

theorem Selects.bind {P : Tables → α → Prop} {Q : Tables → β → Prop} (hm : Selects m P)
    (hf : ∀ a, Selects (f a) fun t b => P t a → Q t b) : Selects (m >>= f) Q := by
  intro s b s' h
  rw [StateT.run_bind] at h
  obtain ⟨⟨a, s₁⟩, ha, h⟩ := Program.bind_ok h
  obtain ⟨hs₁, hp⟩ := hm s a s₁ ha
  obtain ⟨hs', hq⟩ := hf a s₁ b s' h
  rw [hs₁] at hs' hq
  exact ⟨hs', hq hp⟩

theorem Selects.mono {P Q : Tables → α → Prop} (hm : Selects m P) (h : ∀ t a, P t a → Q t a) :
    Selects m Q := by
  intro s a s' hs
  obtain ⟨hs', hp⟩ := hm s a s' hs
  exact ⟨hs', h _ _ hp⟩

theorem Selects.pure {P : Tables → α → Prop} {a : α} (h : ∀ t, P t a) :
    Selects (Pure.pure a) P := by
  intro s b s' hs
  cases hs
  exact ⟨rfl, h _⟩

theorem Selects.lift {e : Except String α} {P : Tables → α → Prop}
    (h : ∀ t a, e = .ok a → P t a) : Selects (liftM e) P := by
  intro s a s' hs
  cases e with
  | error err => cases hs
  | ok b =>
    cases hs
    exact ⟨rfl, h _ _ rfl⟩

theorem Selects.query (faults : Faults) (select : Tables → α) :
    Selects (queryContext faults select) fun t a => a = select t := by
  intro s a s' h
  obtain ⟨n, t⟩ := s
  rw [queryContext, StateT.run_bind, StateT.run_get] at h
  obtain ⟨_, ⟨⟩, h⟩ := Program.bind_ok h
  dsimp only at h
  split at h
  · cases h
  · cases h
    exact ⟨rfl, rfl⟩

theorem Changes.exec (faults : Faults) (stmt : Tables → Tables) :
    Changes (execContext faults stmt) stmt := by
  intro s s' h
  obtain ⟨n, t⟩ := s
  rw [execContext, StateT.run_bind, StateT.run_get] at h
  obtain ⟨_, ⟨⟩, h⟩ := Program.bind_ok h
  dsimp only at h
  split at h
  · cases h
  · cases h
    rfl

theorem Changes.seq {m m' : Tx Unit} {g g' : Tables → Tables} (hm : Changes m g)
    (hm' : Changes m' g') : Changes (m >>= fun _ => m') fun t => g' (g t) := by
  intro s s' h
  rw [StateT.run_bind] at h
  obtain ⟨⟨_, s₁⟩, h₁, h⟩ := Program.bind_ok h
  rw [hm' s₁ s' h, hm s s₁ h₁]

end transactions

section batches

variable {α : Type}

theorem flatten_deleteUserBatches (values : List α) :
    (deleteUserBatches values).flatten = values := by
  fun_induction deleteUserBatches values with
  | case1 => rfl
  | case2 values _ ih => rw [List.flatten_cons, ih, List.take_append_drop]

theorem foldl_batches {stmt : List α → Tables → Tables} (hnil : ∀ t, stmt [] t = t)
    (happend : ∀ a b t, stmt b (stmt a t) = stmt (a ++ b) t) (batches : List (List α)) (t : Tables) :
    batches.foldl (fun t batch => stmt batch t) t = stmt batches.flatten t := by
  induction batches generalizing t with
  | nil => exact (hnil t).symm
  | cons batch batches ih => rw [List.foldl_cons, ih, happend, List.flatten_cons]

theorem Changes.batches (faults : Faults) {stmt : List α → Tables → Tables}
    (hnil : ∀ t, stmt [] t = t) (happend : ∀ a b t, stmt b (stmt a t) = stmt (a ++ b) t)
    (values : List α) : Changes (execBatches faults stmt values) (stmt values) := by
  have hfold : ∀ batches : List (List α), Changes
      (batches.forM fun batch => execContext faults (stmt batch))
      fun t => batches.foldl (fun t batch => stmt batch t) t := by
    intro batches
    induction batches with
    | nil =>
      intro s s' h
      cases h
      rfl
    | cons batch batches ih => exact (Changes.exec faults (stmt batch)).seq ih
  intro s s' h
  have hs' : s'.2 = (deleteUserBatches values).foldl (fun t batch => stmt batch t) s.2 :=
    hfold _ s s' h
  rw [hs', foldl_batches hnil happend, flatten_deleteUserBatches]

theorem filter_notMem_append {β : Type} [DecidableEq α] (g : β → α) (a b : List α) (rows : List β) :
    (rows.filter fun r => g r ∉ a).filter (fun r => g r ∉ b) =
      rows.filter fun r => g r ∉ a ++ b := by
  rw [List.filter_filter]
  apply List.filter_congr
  intro r _
  simp [Bool.and_comm]

theorem filter_notMem_nil {β : Type} [DecidableEq α] (g : β → α) (rows : List β) :
    rows.filter (fun r => g r ∉ ([] : List α)) = rows := List.filter_eq_self.mpr (by simp)

end batches

section targets

variable {faults : Faults} {userId : Nat} {t : Tables}

inductive Tables.OfUser (t : Tables) (userId : Nat) : Nat → Prop
  | own {memo : MemoRow} : memo ∈ t.memos → memo.creatorId = userId → t.OfUser userId memo.id
  | comment {memo : MemoRow} {parent : Nat} : memo ∈ t.memos → t.Comment memo.id parent →
    t.OfUser userId parent → t.OfUser userId memo.id

theorem mem_rootRefs {ref : DeleteUserMemoRef} :
    ref ∈ rootRefs t userId ↔ ∃ memo ∈ t.memos, memo.creatorId = userId ∧ memo.ref = ref := by
  rw [rootRefs, List.mem_map]
  constructor
  · rintro ⟨memo, hmemo, rfl⟩
    obtain ⟨hin, hcreator⟩ := List.mem_filter.mp hmemo
    exact ⟨memo, hin, by simpa using hcreator, rfl⟩
  · rintro ⟨memo, hin, hcreator, rfl⟩
    exact ⟨memo, List.mem_filter.mpr ⟨hin, by simpa using hcreator⟩, rfl⟩

theorem mem_childRefs {ref parent : DeleteUserMemoRef} :
    ref ∈ childRefs t parent ↔
      ∃ memo ∈ t.memos, t.Comment memo.id parent.id ∧ memo.ref = ref := by
  have hany : ∀ memo : MemoRow, (t.relations.any fun rel =>
      rel.memoId == memo.id && rel.type == .COMMENT && rel.relatedMemoId == parent.id) = true ↔
      t.Comment memo.id parent.id := by
    intro memo
    rw [List.any_eq_true, Tables.Comment]
    refine exists_congr fun r => and_congr_right fun _ => ?_
    simp only [Bool.and_eq_true, beq_iff_eq]
    tauto
  rw [childRefs, List.mem_map]
  constructor
  · rintro ⟨memo, hmemo, rfl⟩
    obtain ⟨hin, hcomment⟩ := List.mem_filter.mp hmemo
    exact ⟨memo, hin, (hany memo).mp hcomment, rfl⟩
  · rintro ⟨memo, hin, hcomment, rfl⟩
    exact ⟨memo, List.mem_filter.mpr ⟨hin, (hany memo).mpr hcomment⟩, rfl⟩

theorem Reachable.ofUser {ref : DeleteUserMemoRef}
    (h : Reachable (childRefs t) (rootRefs t userId) ref) :
    ∃ memo ∈ t.memos, t.OfUser userId memo.id ∧ memo.ref = ref := by
  induction h with
  | root hroot =>
    obtain ⟨memo, hin, hcreator, href⟩ := mem_rootRefs.mp hroot
    exact ⟨memo, hin, .own hin hcreator, href⟩
  | next _ hchild ih =>
    obtain ⟨parent, _, hparent, rfl⟩ := ih
    obtain ⟨memo, hin, hcomment, href⟩ := mem_childRefs.mp hchild
    exact ⟨memo, hin, .comment hin hcomment hparent, href⟩

theorem memoRow_eq (hk : t.Keys) {memo memo' : MemoRow} (h : memo ∈ t.memos) (h' : memo' ∈ t.memos)
    (hid : memo.id = memo'.id) : memo = memo' :=
  List.inj_on_of_nodup_map hk.memoIds h h' hid

theorem Tables.OfUser.exists_row {id : Nat} (h : t.OfUser userId id) :
    ∃ memo ∈ t.memos, memo.id = id := by
  cases h with
  | own hin _ => exact ⟨_, hin, rfl⟩
  | comment hin _ _ => exact ⟨_, hin, rfl⟩

theorem reachable_of_ofUser (hk : t.Keys) {id : Nat} (h : t.OfUser userId id) :
    ∀ memo ∈ t.memos, memo.id = id → Reachable (childRefs t) (rootRefs t userId) memo.ref := by
  induction h with
  | own hin hcreator =>
    intro memo hmemo hid
    obtain rfl := memoRow_eq hk hmemo hin hid
    exact .root (mem_rootRefs.mpr ⟨_, hin, hcreator, rfl⟩)
  | comment hin hcomment hparent ih =>
    intro memo hmemo hid
    obtain rfl := memoRow_eq hk hmemo hin hid
    obtain ⟨parent, hrow, rfl⟩ := hparent.exists_row
    exact .next (ih parent hrow rfl) (mem_childRefs.mpr ⟨_, hin, hcomment, rfl⟩)

theorem mem_memoTree_iff {ref : DeleteUserMemoRef} :
    ref ∈ memoTree t userId ↔ Reachable (childRefs t) (rootRefs t userId) ref := by
  have hall : ∀ ref, Reachable (childRefs t) (rootRefs t userId) ref →
      ref ∈ t.memos.map (·.ref) := by
    intro ref h
    obtain ⟨memo, hin, _, rfl⟩ := Reachable.ofUser h
    exact List.mem_map_of_mem hin
  have htree := mem_closure hall (a := ref)
  rwa [List.length_map] at htree

theorem mem_memoTree (hk : t.Keys) {ref : DeleteUserMemoRef} :
    ref ∈ memoTree t userId ↔ ∃ memo ∈ t.memos, t.OfUser userId memo.id ∧ memo.ref = ref := by
  rw [mem_memoTree_iff]
  constructor
  · exact Reachable.ofUser
  · rintro ⟨memo, hin, hof, rfl⟩
    exact reachable_of_ofUser hk hof memo hin rfl

theorem mem_memoIds (hk : t.Keys) {id : Nat} :
    id ∈ memoIdsFromRefs (memoTree t userId) ↔ t.OfUser userId id := by
  rw [memoIdsFromRefs, List.mem_map]
  constructor
  · rintro ⟨ref, href, rfl⟩
    obtain ⟨memo, _, hof, rfl⟩ := (mem_memoTree hk).mp href
    exact hof
  · intro hof
    obtain ⟨memo, hin, rfl⟩ := hof.exists_row
    exact ⟨memo.ref, (mem_memoTree hk).mpr ⟨memo, hin, hof, rfl⟩, rfl⟩

theorem mem_memoContentIds (hk : t.Keys) {contentId : String} :
    contentId ∈ memoContentIdsFromRefs (memoTree t userId) ↔
      ∃ memo ∈ t.memos, t.OfUser userId memo.id ∧ contentId = memo.name := by
  rw [memoContentIdsFromRefs, List.mem_map]
  constructor
  · rintro ⟨ref, href, rfl⟩
    obtain ⟨memo, hin, hof, rfl⟩ := (mem_memoTree hk).mp href
    exact ⟨memo, hin, hof, rfl⟩
  · rintro ⟨memo, hin, hof, rfl⟩
    exact ⟨memo.ref, (mem_memoTree hk).mpr ⟨memo, hin, hof, rfl⟩, rfl⟩

theorem appendRows_ok {attachments rows result : List Attachment}
    (h : appendRows attachments rows = .ok result) (id : Nat) :
    id ∈ result.map (·.id) ↔ id ∈ attachments.map (·.id) ∨ id ∈ rows.map (·.id) := by
  induction rows generalizing attachments with
  | nil =>
    cases h
    simp
  | cons row rows ih =>
    rw [appendRows] at h
    split at h
    · rename_i hseen
      have hin : row.id ∈ attachments.map (·.id) := by simpa using hseen
      rw [ih h, List.map_cons, List.mem_cons]
      constructor
      · rintro (hid | hid)
        · exact Or.inl hid
        · exact Or.inr (Or.inr hid)
      · rintro (hid | rfl | hid)
        · exact Or.inl hid
        · exact Or.inl hin
        · exact Or.inr hid
    · split at h
      · rw [ih h]
        simp [or_assoc]
      · cases h

def Collected (sel : Attachment → Prop) (t : Tables) (attachments : List Attachment) : Prop :=
  ∀ id, id ∈ attachments.map (·.id) ↔ ∃ a ∈ t.attachments, a.id = id ∧ sel a

theorem Collected.congr {sel sel' : Attachment → Prop} {attachments : List Attachment}
    (h : Collected sel t attachments) (hsel : ∀ a, sel a ↔ sel' a) :
    Collected sel' t attachments := by
  intro id
  rw [h id]
  exact exists_congr fun a => and_congr_right fun _ => and_congr_right fun _ => hsel a

theorem appendDeleteUserAttachments_selects (sel : Attachment → Prop) {select : Attachment → Bool}
    (attachments : List Attachment) :
    Selects (appendDeleteUserAttachments faults select attachments) fun t result =>
      Collected sel t attachments → Collected (fun a => sel a ∨ select a = true) t result := by
  refine (Selects.query faults _).bind fun rows => Selects.lift fun t result h => ?_
  rintro rfl hsofar id
  rw [appendRows_ok h, hsofar, List.mem_map]
  constructor
  · rintro (⟨a, ha, hid, hsel⟩ | ⟨a, ha, hid⟩)
    · exact ⟨a, ha, hid, Or.inl hsel⟩
    · obtain ⟨hin, hselect⟩ := List.mem_filter.mp ha
      exact ⟨a, hin, hid, Or.inr hselect⟩
  · rintro ⟨a, ha, hid, hsel | hselect⟩
    · exact Or.inl ⟨a, ha, hid, hsel⟩
    · exact Or.inr ⟨a, List.mem_filter.mpr ⟨ha, hselect⟩, hid⟩

theorem foldlM_attachments_selects (sel : Attachment → Prop) (batches : List (List Nat))
    (attachments : List Attachment) :
    Selects (batches.foldlM (fun attachments batch => appendDeleteUserAttachments faults
        (fun a => a.memoId.any (batch.contains ·)) attachments) attachments) fun t result =>
      Collected sel t attachments →
        Collected (fun a => sel a ∨ ∃ id ∈ batches.flatten, a.memoId = some id) t result := by
  induction batches generalizing sel attachments with
  | nil =>
    refine Selects.pure fun t h => ?_
    simpa using h
  | cons batch batches ih =>
    rw [List.foldlM_cons]
    refine (appendDeleteUserAttachments_selects sel attachments).bind fun result => ?_
    refine (ih (fun a => sel a ∨ a.memoId.any (batch.contains ·) = true) result).mono fun t final hrest hfirst hsofar => ?_
    refine (hrest (hfirst hsofar)).congr fun a => ?_
    have hbatch : (a.memoId.any (batch.contains ·)) = true ↔ ∃ id ∈ batch, a.memoId = some id := by
      cases a.memoId with
      | none => simp
      | some id => simp
    rw [hbatch, List.flatten_cons, or_assoc]
    simp only [List.mem_append, or_and_right, exists_or]

theorem listDeleteUserAttachments_selects (memoIds : List Nat) :
    Selects (listDeleteUserAttachments faults userId memoIds) fun t attachments =>
      Collected (fun a => a.creatorId = userId ∨ ∃ id ∈ memoIds, a.memoId = some id) t
        attachments := by
  refine (appendDeleteUserAttachments_selects (fun _ => False) []).bind fun own => ?_
  refine (foldlM_attachments_selects (fun a => False ∨ (a.creatorId == userId) = true)
    (deleteUserBatches memoIds) own).mono ?_
  intro t attachments hrest hown
  have hstart : Collected (fun _ => False) t [] := fun id => by simp
  refine (hrest (hown hstart)).congr fun a => ?_
  rw [flatten_deleteUserBatches, false_or, beq_iff_eq]

theorem memoIdInSet_iff {memoIds : List Nat} {id : Nat} :
    memoIdInSet memoIds id = true ↔ id ≠ 0 ∧ id ∈ memoIds := by
  simp [memoIdInSet]

theorem inboxMessageTouchesMemoSet_iff (hk : t.Keys) {message : InboxMessage} :
    inboxMessageTouchesMemoSet (memoIdsFromRefs (memoTree t userId)) message = true ↔
      ∃ memo ∈ t.memos, t.OfUser userId memo.id ∧ message.RefersTo memo := by
  have hid : ∀ id, memoIdInSet (memoIdsFromRefs (memoTree t userId)) id = true ↔
      ∃ memo ∈ t.memos, t.OfUser userId memo.id ∧ id = memo.id := by
    intro id
    rw [memoIdInSet_iff, mem_memoIds hk]
    constructor
    · rintro ⟨-, hof⟩
      obtain ⟨memo, hin, rfl⟩ := hof.exists_row
      exact ⟨memo, hin, hof, rfl⟩
    · rintro ⟨memo, hin, hof, rfl⟩
      exact ⟨Nat.pos_iff_ne_zero.mp (hk.memoIdPos memo hin), hof⟩
  have hpair : ∀ pair : MemoPair,
      (memoIdInSet (memoIdsFromRefs (memoTree t userId)) pair.memoId ||
        memoIdInSet (memoIdsFromRefs (memoTree t userId)) pair.relatedMemoId) = true ↔
      ∃ memo ∈ t.memos, t.OfUser userId memo.id ∧ pair.RefersTo memo := by
    intro pair
    rw [Bool.or_eq_true, hid, hid]
    simp only [MemoPair.RefersTo, and_or_left, exists_or]
  cases message with
  | TYPE_UNSPECIFIED => simp [inboxMessageTouchesMemoSet, InboxMessage.RefersTo]
  | MEMO_COMMENT payload | MEMO_MENTION payload =>
    cases payload with
    | none => simp [inboxMessageTouchesMemoSet, InboxMessage.RefersTo]
    | some pair =>
      rw [inboxMessageTouchesMemoSet, hpair]
      simp [InboxMessage.RefersTo]

theorem referencedInboxIds_ok {memoIds : List Nat} {rows : List Inbox} {ids : List Nat}
    (h : referencedInboxIds memoIds rows = .ok ids) (id : Nat) :
    id ∈ ids ↔ ∃ row ∈ rows, row.id = id ∧ ∃ message, row.message = .message message ∧
      inboxMessageTouchesMemoSet memoIds message = true := by
  induction rows generalizing ids with
  | nil =>
    cases h
    simp
  | cons row rows ih =>
    rw [referencedInboxIds] at h
    split at h
    · rename_i hempty
      rw [ih h]
      simp [hempty]
    · cases h
    · rename_i message hmessage
      obtain ⟨rest, hrest, h⟩ := Program.bind_ok h
      cases h
      have hih := ih hrest
      split
      · rename_i htouches
        rw [List.mem_cons, hih]
        constructor
        · rintro (rfl | ⟨other, hin, hid⟩)
          · exact ⟨row, List.mem_cons_self, rfl, message, hmessage, htouches⟩
          · exact ⟨other, List.mem_cons_of_mem _ hin, hid⟩
        · rintro ⟨other, hin, hid, htouch⟩
          rcases List.mem_cons.mp hin with rfl | hin
          · exact Or.inl hid.symm
          · exact Or.inr ⟨other, hin, hid, htouch⟩
      · rename_i hnot
        rw [hih]
        simp [hmessage, hnot]

def Inbox.Concerns (t : Tables) (userId : Nat) (i : Inbox) : Prop :=
  i.senderId = userId ∨ i.receiverId = userId ∨
    ∃ memo ∈ t.memos, t.OfUser userId memo.id ∧ i.RefersTo memo

theorem listDeleteUserInboxIds_selects (memoIds : List Nat) :
    Selects (listDeleteUserInboxIds faults userId memoIds) fun t ids =>
      t.Keys → memoIds = memoIdsFromRefs (memoTree t userId) →
        ∀ id, id ∈ ids ↔ ∃ i ∈ t.inboxes, i.id = id ∧ i.Concerns t userId := by
  have hdirect : ∀ (t : Tables) (id : Nat),
      id ∈ (t.inboxes.filter fun i => i.senderId == userId || i.receiverId == userId).map (·.id) ↔
        ∃ i ∈ t.inboxes, i.id = id ∧ (i.senderId = userId ∨ i.receiverId = userId) := by
    intro t id
    simp only [List.mem_map, List.mem_filter, Bool.or_eq_true, beq_iff_eq]
    grind
  unfold listDeleteUserInboxIds
  refine (Selects.query faults _).bind fun directIds => ?_
  split
  · rename_i hempty
    refine Selects.pure fun t hids hk hmemos id => ?_
    have hnone : ∀ memo ∈ t.memos, ¬t.OfUser userId memo.id := by
      intro memo _ hof
      have hin := (mem_memoIds hk).mpr hof
      rw [← hmemos, List.isEmpty_iff.mp hempty] at hin
      exact List.not_mem_nil hin
    rw [hids, hdirect]
    refine exists_congr fun i => and_congr_right fun _ => and_congr_right fun _ => ?_
    constructor
    · rintro (hs | hr)
      · exact Or.inl hs
      · exact Or.inr (Or.inl hr)
    · rintro (hs | hr | ⟨memo, hin, hof, -⟩)
      · exact Or.inl hs
      · exact Or.inr hr
      · exact absurd hof (hnone memo hin)
  · refine (Selects.query faults _).bind fun rows => ?_
    refine Selects.bind (P := fun _ ids => referencedInboxIds memoIds rows = .ok ids)
      (Selects.lift fun _ _ h => h) fun referencedIds => ?_
    refine Selects.pure fun t href hrows hids hk hmemos id => ?_
    rw [List.mem_append, hids, hdirect, referencedInboxIds_ok href, hrows]
    subst hmemos
    constructor
    · rintro (⟨i, hin, hid, hs | hr⟩ | ⟨i, hi, hid, message, hmessage, htouches⟩)
      · exact ⟨i, hin, hid, Or.inl hs⟩
      · exact ⟨i, hin, hid, Or.inr (Or.inl hr)⟩
      · obtain ⟨memo, hmemo, hof, hrefers⟩ := (inboxMessageTouchesMemoSet_iff hk).mp htouches
        exact ⟨i, (List.mem_filter.mp hi).1, hid,
          Or.inr (Or.inr ⟨memo, hmemo, hof, message, hmessage, hrefers⟩)⟩
    · rintro ⟨i, hin, hid, hconcerns⟩
      by_cases huser : i.senderId = userId ∨ i.receiverId = userId
      · exact Or.inl ⟨i, hin, hid, huser⟩
      · obtain ⟨hs, hr⟩ := not_or.mp huser
        rcases hconcerns with h | h | ⟨memo, hmemo, hof, message, hmessage, hrefers⟩
        · exact absurd h hs
        · exact absurd h hr
        · have hi : i ∈ t.inboxes.filter fun i => i.senderId ≠ userId && i.receiverId ≠ userId :=
            List.mem_filter.mpr ⟨hin, by simpa using ⟨hs, hr⟩⟩
          exact Or.inr ⟨i, hi, hid, message, hmessage,
            (inboxMessageTouchesMemoSet_iff hk).mpr ⟨memo, hmemo, hof, hrefers⟩⟩

structure TargetsOf (t : Tables) (userId : Nat) (targets : DeleteUserTargets) : Prop where
  memos : targets.memos = memoTree t userId
  attachments : Collected
    (fun a => a.creatorId = userId ∨ ∃ id ∈ memoIdsFromRefs targets.memos, a.memoId = some id) t
    targets.attachments
  inboxIds : ∀ id, id ∈ targets.inboxIds ↔ ∃ i ∈ t.inboxes, i.id = id ∧ i.Concerns t userId

theorem collectDeleteUserTargets_selects :
    Selects (collectDeleteUserTargets faults userId) fun t targets =>
      t.Keys → TargetsOf t userId targets := by
  refine (Selects.query faults _).bind fun memos => ?_
  refine (listDeleteUserAttachments_selects _).bind fun attachments => ?_
  refine (Selects.query faults _).bind fun userSettingKeys => ?_
  refine (listDeleteUserInboxIds_selects _).bind fun inboxIds => ?_
  refine Selects.pure fun t hinbox _ hattachments hmemos hk => ?_
  exact ⟨hmemos, hattachments, hinbox hk (by rw [hmemos])⟩

end targets

section deletes

variable {faults : Faults} {userId : Nat} {t t' : Tables}

def afterDeleteUser (userId : Nat) (targets : DeleteUserTargets) (t : Tables) : Tables where
  users := t.users.filter (· ≠ userId)
  memos := t.memos.filter (·.id ∉ memoIdsFromRefs targets.memos)
  relations := t.relations.filter fun r =>
    r.memoId ∉ memoIdsFromRefs targets.memos ∧ r.relatedMemoId ∉ memoIdsFromRefs targets.memos
  attachments := t.attachments.filter (·.id ∉ targets.attachments.map (·.id))
  reactions := (t.reactions.filter (·.contentId ∉ memoContentIdsFromRefs targets.memos)).filter
    (·.creatorId ≠ userId)
  shares := (t.shares.filter (·.creatorId ≠ userId)).filter
    (·.memoId ∉ memoIdsFromRefs targets.memos)
  inboxes := t.inboxes.filter (·.id ∉ targets.inboxIds)
  settings := t.settings.filter (·.userId ≠ userId)
  identities := t.identities.filter (·.userId ≠ userId)

theorem deleteUserTargetsTx_changes (targets : DeleteUserTargets) :
    Changes (deleteUserTargetsTx faults userId targets) (afterDeleteUser userId targets) := by
  have reactions : Changes (execBatches faults reactionsByContent (memoContentIdsFromRefs targets.memos))
      (reactionsByContent (memoContentIdsFromRefs targets.memos)) :=
    Changes.batches faults (fun t => by rw [reactionsByContent, filter_notMem_nil])
      (fun a b t => by simp only [reactionsByContent, filter_notMem_append]) _
  have attachments : Changes (execBatches faults attachmentsById (targets.attachments.map (·.id)))
      (attachmentsById (targets.attachments.map (·.id))) :=
    Changes.batches faults (fun t => by rw [attachmentsById, filter_notMem_nil])
      (fun a b t => by simp only [attachmentsById, filter_notMem_append]) _
  have shares : Changes (execBatches faults sharesByMemo (memoIdsFromRefs targets.memos))
      (sharesByMemo (memoIdsFromRefs targets.memos)) :=
    Changes.batches faults (fun t => by rw [sharesByMemo, filter_notMem_nil])
      (fun a b t => by simp only [sharesByMemo, filter_notMem_append]) _
  have inboxes : Changes (execBatches faults inboxesById targets.inboxIds)
      (inboxesById targets.inboxIds) :=
    Changes.batches faults (fun t => by rw [inboxesById, filter_notMem_nil])
      (fun a b t => by simp only [inboxesById, filter_notMem_append]) _
  have memos : Changes (execBatches faults memosById (memoIdsFromRefs targets.memos))
      (memosById (memoIdsFromRefs targets.memos)) :=
    Changes.batches faults (fun t => by rw [memosById, filter_notMem_nil])
      (fun a b t => by simp only [memosById, filter_notMem_append]) _
  have relations : Changes (execBatches faults relationsByMemo (memoIdsFromRefs targets.memos))
      (relationsByMemo (memoIdsFromRefs targets.memos)) := by
    refine Changes.batches faults (fun t => ?_) (fun a b t => ?_) _
    · have hall : t.relations.filter (fun r => r.memoId ∉ [] ∧ r.relatedMemoId ∉ []) =
          t.relations := List.filter_eq_self.mpr (by simp)
      rw [relationsByMemo, hall]
    · simp only [relationsByMemo, List.filter_filter]
      congr 1
      apply List.filter_congr
      intro r _
      simp only [List.mem_append, not_or, Bool.decide_and]
      grind
  exact reactions.seq <| attachments.seq <| (Changes.exec faults _).seq <|
    (Changes.exec faults _).seq <| shares.seq <| inboxes.seq <| (Changes.exec faults _).seq <|
    (Changes.exec faults _).seq <| relations.seq <| memos.seq <| Changes.exec faults _

/-- The rows of `t'` are the rows of `t` that refer neither to the user nor to one of the user's
memos, nor to a memo in the comment trees below them. -/
structure UserDeleted (t t' : Tables) (userId : Nat) : Prop where
  users : ∀ id, id ∈ t'.users ↔ id ∈ t.users ∧ id ≠ userId
  memos : ∀ memo, memo ∈ t'.memos ↔ memo ∈ t.memos ∧ ¬t.OfUser userId memo.id
  relations : ∀ r, r ∈ t'.relations ↔ r ∈ t.relations ∧
    ¬∃ memo ∈ t.memos, t.OfUser userId memo.id ∧ r.RefersTo memo
  attachments : ∀ a, a ∈ t'.attachments ↔ a ∈ t.attachments ∧
    ¬(a.creatorId = userId ∨ ∃ memo ∈ t.memos, t.OfUser userId memo.id ∧ a.RefersTo memo)
  reactions : ∀ r, r ∈ t'.reactions ↔ r ∈ t.reactions ∧
    ¬(r.creatorId = userId ∨ ∃ memo ∈ t.memos, t.OfUser userId memo.id ∧ r.RefersTo memo)
  shares : ∀ s, s ∈ t'.shares ↔ s ∈ t.shares ∧
    ¬(s.creatorId = userId ∨ ∃ memo ∈ t.memos, t.OfUser userId memo.id ∧ s.RefersTo memo)
  inboxes : ∀ i, i ∈ t'.inboxes ↔ i ∈ t.inboxes ∧ ¬i.Concerns t userId
  settings : ∀ s, s ∈ t'.settings ↔ s ∈ t.settings ∧ s.userId ≠ userId
  identities : ∀ i, i ∈ t'.identities ↔ i ∈ t.identities ∧ i.userId ≠ userId

theorem exists_ofUser_iff {id : Nat} :
    (∃ memo ∈ t.memos, t.OfUser userId memo.id ∧ id = memo.id) ↔ t.OfUser userId id := by
  constructor
  · rintro ⟨memo, _, hof, rfl⟩
    exact hof
  · intro hof
    obtain ⟨memo, hin, rfl⟩ := hof.exists_row
    exact ⟨memo, hin, hof, rfl⟩

theorem afterDeleteUser_deleted (hk : t.Keys) {targets : DeleteUserTargets}
    (h : TargetsOf t userId targets) :
    UserDeleted t (afterDeleteUser userId targets t) userId := by
  have hmemoIds : ∀ id, id ∈ memoIdsFromRefs targets.memos ↔ t.OfUser userId id := by
    intro id
    rw [h.memos, mem_memoIds hk]
  refine ⟨?_, ?_, ?_, ?_, ?_, ?_, ?_, ?_, ?_⟩
  · intro id
    simp [afterDeleteUser]
  · intro memo
    simp only [afterDeleteUser, List.mem_filter, hmemoIds, decide_eq_true_eq]
  · intro r
    simp only [afterDeleteUser, List.mem_filter, hmemoIds, decide_eq_true_eq,
      MemoRelation.RefersTo, and_or_left, exists_or, exists_ofUser_iff, not_or]
  · intro a
    simp only [afterDeleteUser, List.mem_filter, decide_eq_true_eq]
    refine and_congr_right fun hin => not_congr ?_
    have hmemo : (∃ id ∈ memoIdsFromRefs targets.memos, a.memoId = some id) ↔
        ∃ memo ∈ t.memos, t.OfUser userId memo.id ∧ a.RefersTo memo := by
      constructor
      · rintro ⟨id, hid, hmemo⟩
        obtain ⟨memo, hrow, hof, rfl⟩ := exists_ofUser_iff.mpr ((hmemoIds id).mp hid)
        exact ⟨memo, hrow, hof, hmemo⟩
      · rintro ⟨memo, _, hof, hmemo⟩
        exact ⟨memo.id, (hmemoIds _).mpr hof, hmemo⟩
    rw [h.attachments a.id, ← hmemo]
    constructor
    · rintro ⟨b, hb, hid, hsel⟩
      obtain rfl := List.inj_on_of_nodup_map hk.attachmentIds hb hin hid
      exact hsel
    · intro hsel
      exact ⟨a, hin, rfl, hsel⟩
  · intro r
    simp only [afterDeleteUser, List.mem_filter, decide_eq_true_eq, h.memos,
      mem_memoContentIds hk, not_or, Reaction.RefersTo]
    tauto
  · intro s
    simp only [afterDeleteUser, List.mem_filter, hmemoIds, decide_eq_true_eq,
      MemoShare.RefersTo, exists_ofUser_iff, not_or]
    tauto
  · intro i
    simp only [afterDeleteUser, List.mem_filter, decide_eq_true_eq]
    refine and_congr_right fun hin => not_congr ?_
    rw [h.inboxIds i.id]
    constructor
    · rintro ⟨j, hj, hid, hconcerns⟩
      obtain rfl := List.inj_on_of_nodup_map hk.inboxIds hj hin hid
      exact hconcerns
    · intro hconcerns
      exact ⟨i, hin, rfl, hconcerns⟩
  · intro s
    simp [afterDeleteUser]
  · intro i
    simp [afterDeleteUser]

theorem deleteUserTx_deleted (hk : t.Keys) {n n' : Nat} {result : DeleteUserResult}
    (h : (deleteUserTx faults userId).run (n, t) = .ok (result, (n', t'))) :
    UserDeleted t t' userId := by
  rw [deleteUserTx, StateT.run_bind] at h
  obtain ⟨⟨targets, s⟩, hcollect, h⟩ := Program.bind_ok h
  obtain ⟨hs, htargets⟩ := collectDeleteUserTargets_selects _ _ _ hcollect
  rw [StateT.run_bind] at h
  obtain ⟨⟨_, s'⟩, hdelete, h⟩ := Program.bind_ok h
  have hs' := deleteUserTargetsTx_changes targets s s' hdelete
  cases h
  have ht' : t' = afterDeleteUser userId targets t := by
    rw [hs] at hs'
    exact hs'
  rw [ht']
  exact afterDeleteUser_deleted hk (htargets hk)

/-- A deletion that commits removes the user and all that refers to it, and nothing else; one
that fails, at whatever statement, changes nothing. -/
theorem deleteUser_complete (faults : Faults) (userId : Nat) (hk : t.Keys) :
    match DeleteUser faults userId t with
    | (.ok _, t') => UserDeleted t t' userId
    | (.error _, t') => t' = t := by
  cases hrun : (deleteUserTx faults userId).run (0, t) with
  | error err => simp only [DeleteUser, hrun]
  | ok r =>
    obtain ⟨result, n, t'⟩ := r
    simp only [DeleteUser, hrun]
    cases faults n with
    | none => exact deleteUserTx_deleted hk hrun
    | some err => rfl

def commented : Tables where
  users := [1, 2]
  memos := [⟨1, "memo", 1⟩, ⟨2, "comment", 2⟩, ⟨3, "other", 2⟩]
  relations := [⟨2, 1, .COMMENT⟩]
  attachments := [⟨1, 2, some 2, 0, .LOCAL, true⟩]
  reactions := [⟨1, 2, "memos/memo"⟩]
  shares := []
  inboxes := [⟨1, 2, 1, .message (.MEMO_COMMENT (some ⟨2, 1⟩))⟩]
  settings := [⟨1, "GENERAL"⟩]
  identities := []

theorem commented_keys : commented.Keys where
  memoIds := by decide
  memoUids := by decide
  memoIdPos := by decide
  attachmentIds := by decide
  inboxIds := by decide

theorem deleteUser_commented : ∃ result t',
    DeleteUser (fun _ => none) 1 commented = (.ok result, t') ∧ UserDeleted commented t' 1 := by
  have hcomplete := deleteUser_complete (fun _ => none) 1 commented_keys
  have hok : (DeleteUser (fun _ => none) 1 commented).1.isOk = true := by decide +kernel
  revert hcomplete hok
  rcases DeleteUser (fun _ => none) 1 commented with ⟨_ | result, t'⟩
  · intro _ hok
    cases hok
  · intro hdeleted _
    exact ⟨result, t', rfl, hdeleted⟩

end deletes

end Memoark.Store
