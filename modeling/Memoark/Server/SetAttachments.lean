import Memoark.Paging.Ties
import Memoark.Server.MotionGroups
import Memoark.Server.SetRelations

/-! `SetMemoAttachments`, and what `ListMemoAttachments` lists after it. -/
namespace Memoark.Server.WriteMemos
open Store
open Program (Durable)

section handlers

def checkSetMemoAttachments (db : Database) (userID : Nat) (name : String) :
    Except Status (UserRecord × Memo) := do
  let current ← (fetchCurrentUser db userID).mapError
    fun err => ⟨.Internal, "failed to get current user: " ++ err⟩
  match current with
  | none => .error ⟨.Unauthenticated, "user not authenticated"⟩
  | some user =>
    let memoUID ← (extractMemoUIDFromName name).mapError
      fun err => ⟨.InvalidArgument, "invalid memo name: " ++ err⟩
    let memo ← foundMemo (db.getMemo { uid := some memoUID })
    if memo.creatorId ≠ user.id ∧ ¬isSuperUser user then
      .error ⟨.PermissionDenied, "permission denied"⟩
    else .ok (user, memo)

def setMemoAttachments (env : Env) (userID : Nat) (name : String) (names : List String) :
    Handler Unit := do
  let s ← Durable.get
  let (user, memo) ← Durable.ofExcept (checkSetMemoAttachments s.toDatabase userID name)
  setMemoAttachmentsInternal env user memo names
  touchMemoUpdatedTimestamp env memo.id
  let s ← Durable.get
  let _ ← Durable.ofExcept ((buildUpdatedMemoState env s.toDatabase userID memo.id).mapError
    fun _ => ⟨.Internal, "failed to build updated memo state"⟩)
  return

def listMemoAttachments (db : Database) (userID : Nat) (name : String) :
    Except Status (List Api.Attachment) := do
  let memoUID ← (extractMemoUIDFromName name).mapError
    fun err => ⟨.InvalidArgument, "invalid memo name: " ++ err⟩
  let memo ← foundMemo (db.getMemo { uid := some memoUID })
  if memo.visibility ≠ .Public then
    match ← (fetchCurrentUser db userID).mapError
      fun err => (⟨.Internal, "failed to get user: " ++ err⟩ : Status) with
    | none => throw ⟨.Unauthenticated, "user not authenticated"⟩
    | some user =>
      if memo.visibility = .Private ∧ memo.creatorId ≠ user.id ∧ ¬isSuperUser user then
        throw ⟨.PermissionDenied, "permission denied"⟩
  return (db.listAttachments { memoId := some memo.id }).map (convertAttachmentFromStore db)

end handlers

section specification

/-- The attachments of the request are listed after the call, in its order, and no other
attachment of the memo stays linked. -/
structure SetExactly (userID : Nat) (name : String) (memo : Memo)
    (requested : List AttachmentRecord) (s s' : Storage) : Prop where
  listed : ∃ expected, Expected (currentAttachments s memo) requested expected ∧
    listMemoAttachments s'.toDatabase userID name = .ok (expected.map fun a =>
      convertAttachmentFromStore s'.toDatabase { a with memoId := some memo.id })
  unlinked : ∀ a ∈ s.attachments, a.memoId = some memo.id →
    ¬(a ∈ requested ∧ Retained (currentAttachments s memo) requested a) →
      ∀ a' ∈ s'.attachments, a'.id = a.id → a'.memoId ≠ some memo.id

def Covered (memo : Memo) (requested : List AttachmentRecord) (s : Storage) : Prop :=
  ∀ a ∈ s.attachments, a.memoId = some memo.id → a ∉ currentAttachments s memo →
    a ∈ requested ∧ Retained (currentAttachments s memo) requested a

/-- One listing without a limit of its own shows all that a request comes to, and all that it
has to unlink. -/
structure WithinLimit (memo : Memo) (requested : List AttachmentRecord) (s : Storage) : Prop where
  length : ∀ expected, Expected (currentAttachments s memo) requested expected → expected.length ≤ 100
  covered : Covered memo requested s

variable {current requested expected expected' : List AttachmentRecord}

theorem Expected.nodup (h : Expected current requested expected) : expected.Nodup := by
  refine h.order.imp fun hlt heq => ?_
  subst heq
  rcases hlt with hlt | ⟨-, hlt⟩
  · exact Nat.lt_irrefl _ hlt
  · exact Nat.lt_irrefl _ hlt

theorem Expected.length_eq (h : Expected current requested expected)
    (h' : Expected current requested expected') : expected.length = expected'.length := by
  have hperm : expected.Perm expected' :=
    (List.perm_ext_iff_of_nodup h.nodup h'.nodup).mpr fun a => (h.mem a).trans (h'.mem a).symm
  exact hperm.length_eq

end specification

section requests

variable {db : Database} {user : UserRecord} {names : List String}
  {requested : List AttachmentRecord}

theorem requestedAttachment_ok {name : String} {a : AttachmentRecord}
    (h : requestedAttachment db user name = .ok a) :
    extractAttachmentUIDFromName name = .ok a.uid ∧
      (db.listAttachments { uid := some a.uid }).head? = some a ∧ a ∈ db.attachments := by
  rw [requestedAttachment] at h
  obtain ⟨uid, hname, h⟩ := Program.bind_ok h
  cases hfound : (db.listAttachments { uid := some uid }).head? with
  | none =>
    rw [hfound] at h
    cases h
  | some found =>
    rw [hfound] at h
    dsimp only at h
    split at h
    · cases h
    · obtain rfl := Except.ok.inj h
      have hmem := List.mem_of_head? hfound
      unfold Database.listAttachments at hmem
      rw [if_pos ⟨rfl, rfl⟩] at hmem
      obtain ⟨hrow, hmatches⟩ := List.mem_filter.mp (List.mem_mergeSort.mp (Database.mem_page hmem))
      have huid : uid = found.uid := by simpa [asked] using hmatches
      subst huid
      exact ⟨Program.mapError_ok hname, hfound, hrow⟩

theorem requestedAttachment_of_mem (huids : (db.attachments.map (·.uid)).Nodup)
    {a : AttachmentRecord} (ha : a ∈ db.attachments) {name : String}
    (hname : extractAttachmentUIDFromName name = .ok a.uid)
    (hallowed : a.creatorId = user.id ∨ isSuperUser user) :
    requestedAttachment db user name = .ok a := by
  have hrefused : ¬(a.creatorId ≠ user.id ∧ ¬isSuperUser user) := by tauto
  rw [requestedAttachment, hname]
  dsimp only [Except.mapError, bind, Except.bind]
  rw [listAttachments_uid huids ha]
  exact if_neg hrefused

theorem requested_mem (h : names.mapM (requestedAttachment db user) = .ok requested)
    {a : AttachmentRecord} (ha : a ∈ requested) : a ∈ db.attachments := by
  obtain ⟨name, -, hname⟩ := Program.mem_of_mapM_ok h a ha
  exact (requestedAttachment_ok hname).2.2

theorem requested_uidsDiffer (h : names.mapM (requestedAttachment db user) = .ok requested) :
    UIDsDiffer requested := by
  intro a ha b hb huid
  obtain ⟨nameA, -, hnameA⟩ := Program.mem_of_mapM_ok h a ha
  obtain ⟨nameB, -, hnameB⟩ := Program.mem_of_mapM_ok h b hb
  have hfoundA := (requestedAttachment_ok hnameA).2.1
  have hfoundB := (requestedAttachment_ok hnameB).2.1
  rw [huid, hfoundB] at hfoundA
  exact (Option.some.inj hfoundA).symm

theorem normalizeRequest_eq (current : List AttachmentRecord)
    (h : names.mapM (requestedAttachment db user) = .ok requested) :
    normalizeMemoAttachmentRequest db user current names =
      .ok (normalizedAttachments current requested) := by
  rw [normalizeMemoAttachmentRequest, h]
  rfl

theorem normalizeRequest_ok {current normalized : List AttachmentRecord}
    (h : normalizeMemoAttachmentRequest db user current names = .ok normalized) :
    ∃ requested, names.mapM (requestedAttachment db user) = .ok requested ∧
      normalizedAttachments current requested = normalized := by
  rw [normalizeMemoAttachmentRequest] at h
  obtain ⟨requested, hrequested, h⟩ := Program.bind_ok h
  exact ⟨requested, hrequested, Except.ok.inj h⟩

end requests

section run

variable {env : Env} {s s' : Storage} {userID : Nat} {name : String} {names : List String}
  {user : UserRecord} {memo : Memo} {requested normalized : List AttachmentRecord}

def touched (env : Env) (memoID : Nat) (row : MemoRecord) : MemoRecord :=
  if row.id = memoID then row.updated ⟨none, some env.now, none, none, none, none, none⟩ else row

theorem touchMemo_run (env : Env) (memoID : Nat) (s : Storage) :
    (touchMemoUpdatedTimestamp env memoID).run s =
      (.ok (), { s with memos := s.memos.map (touched env memoID) }) := rfl

structure Done (env : Env) (memo : Memo) (requested normalized : List AttachmentRecord)
    (s s' : Storage) : Prop where
  expected : Expected (currentAttachments s memo) requested normalized
  stored : ∀ a ∈ normalized, a ∈ s.attachments
  attachments : s'.attachments = (withoutAttachments s ((removedAttachments s memo normalized).map
    (·.id))).attachments.map (linkNormalized env memo normalized)
  memos : s'.memos = s.memos.map (touched env memo.id)
  users : s'.users = s.users

structure AttachmentsSet (env : Env) (memo : Memo) (requested normalized : List AttachmentRecord)
    (s s' : Storage) : Prop where
  expected : Expected (currentAttachments s memo) requested normalized
  stored : ∀ a ∈ normalized, a ∈ s.attachments
  attachments : s'.attachments = (withoutAttachments s ((removedAttachments s memo normalized).map
    (·.id))).attachments.map (linkNormalized env memo normalized)

theorem Done.set (hdone : Done env memo requested normalized s s') :
    AttachmentsSet env memo requested normalized s s' :=
  ⟨hdone.expected, hdone.stored, hdone.attachments⟩

theorem attachmentsPass_of_ok (hids : (s.attachments.map (·.id)).Nodup)
    (hrun : (setMemoAttachmentsInternal env user memo names).run s = (.ok (), s')) :
    AttachmentsPass env user s memo names := by
  by_contra hpass
  obtain ⟨e, ids, hfailed, -⟩ := setMemoAttachments_error hids hpass
  rw [hfailed] at hrun
  cases hrun

theorem setMemoAttachments_set (hids : (s.attachments.map (·.id)).Nodup)
    (hrun : (setMemoAttachmentsInternal env user memo names).run s = (.ok (), s')) :
    ∃ requested, names.mapM (requestedAttachment s.toDatabase user) = .ok requested ∧
      AttachmentsSet env memo requested
        (normalizedAttachments (currentAttachments s memo) requested) s s' ∧
      s' = { s with attachments := s'.attachments } := by
  obtain ⟨normalized, hnormalized, hremovable⟩ := attachmentsPass_of_ok hids hrun
  obtain ⟨requested, hrequested, rfl⟩ := normalizeRequest_ok hnormalized
  rw [setMemoAttachments_run hids hnormalized hremovable] at hrun
  obtain ⟨-, rfl⟩ := Prod.mk.inj hrun
  have hexpected := normalized_expected (currentAttachments s memo) (requested_uidsDiffer hrequested)
  have hstored : ∀ a ∈ normalizedAttachments (currentAttachments s memo) requested,
      a ∈ s.attachments := by
    intro a ha
    exact requested_mem hrequested ((hexpected.mem a).mp ha).1
  exact ⟨requested, hrequested, ⟨hexpected, hstored, rfl⟩, rfl⟩

theorem setMemoAttachments_done (hids : (s.attachments.map (·.id)).Nodup)
    (hrun : (setMemoAttachments env userID name names).run s = (.ok (), s'))
    (hcheck : checkSetMemoAttachments s.toDatabase userID name = .ok (user, memo))
    (hrequested : names.mapM (requestedAttachment s.toDatabase user) = .ok requested) :
    ∃ normalized, Done env memo requested normalized s s' := by
  have hchecked : (Durable.ofExcept (checkSetMemoAttachments s.toDatabase userID name) :
      Handler (UserRecord × Memo)).run s = (.ok (user, memo), s) := by
    rw [Durable.run_ofExcept_eq, hcheck]
  unfold setMemoAttachments at hrun
  rw [Durable.run_bind_of_ok (show Durable.get.run s = (.ok s, s) from rfl),
    Durable.run_bind_of_ok hchecked] at hrun
  obtain ⟨_, t, hset, hrun⟩ := Durable.run_bind_ok.mp hrun
  obtain ⟨requested', hrequested', hset, ht⟩ := setMemoAttachments_set hids hset
  obtain rfl := Except.ok.inj (hrequested.symm.trans hrequested')
  obtain ⟨_, t', htouch, hrun⟩ := Durable.run_bind_ok.mp hrun
  rw [touchMemo_run] at htouch
  obtain ⟨-, ht'⟩ := Prod.mk.inj htouch
  rw [Durable.run_bind_of_ok (show Durable.get.run t' = (.ok t', t') from rfl)] at hrun
  obtain ⟨message, t'', hbuild, hrun⟩ := Durable.run_bind_ok.mp hrun
  obtain ⟨-, ht''⟩ := Durable.run_ofExcept.mp hbuild
  have hs' : t'' = s' := (Prod.mk.inj hrun).2
  subst ht''
  subst hs'
  subst ht'
  refine ⟨_, hset.expected, hset.stored, hset.attachments, ?_, ?_⟩
  · rw [ht]
  · rw [ht]

end run

section listing

variable {env : Env} {s s' : Storage} {memo : Memo} {requested normalized : List AttachmentRecord}

def linkedTo (db : Database) (memoId : Nat) : List AttachmentRecord :=
  db.attachments.filter (·.memoId = some memoId)

theorem listAttachments_memo (db : Database) (memoId : Nat) :
    db.listAttachments { memoId := some memoId } =
      ((linkedTo db memoId).mergeSort fun a b => b.updatedTs ≤ a.updatedTs).take 100 := by
  have hrows : (db.attachments.filter fun a => asked (none : Option Nat) a.id && asked none a.uid &&
      (some memoId).all (fun id => a.memoId = some id) &&
        (([] : List Nat) = [] ∨ ∃ id ∈ ([] : List Nat), a.memoId = some id)) =
      linkedTo db memoId := by
    unfold linkedTo
    congr 1
    funext a
    simp [asked]
  unfold Database.listAttachments
  rw [if_pos ⟨rfl, rfl⟩]
  unfold Database.listAttachmentRows
  dsimp only
  rw [hrows]
  rfl

theorem linkNormalized_getElem (env : Env) (memo : Memo) (hids : (normalized.map (·.id)).Nodup)
    {i : Nat} (hi : i < normalized.length) :
    linkNormalized env memo normalized normalized[i] = { normalized[i] with
      memoId := some memo.id, updatedTs := env.now + (normalized.length - 1 - i : Nat) } := by
  have hlinks : (normalized.reverse.zipIdx.map (·.1.id)).Nodup := by
    rw [zipIdx_ids]
    exact List.nodup_reverse.mpr hids
  have hmem : (normalized[i], normalized.length - 1 - i) ∈ normalized.reverse.zipIdx := by
    rw [List.mem_zipIdx_iff_getElem?, List.getElem?_reverse (by omega)]
    have hindex : normalized.length - 1 - (normalized.length - 1 - i) = i := by omega
    rw [hindex]
    exact List.getElem?_eq_getElem hi
  exact linked_of_mem memo.id env.now hlinks hmem rfl

theorem linkNormalized_order (env : Env) (memo : Memo) (hids : (normalized.map (·.id)).Nodup) :
    (normalized.map (linkNormalized env memo normalized)).Pairwise
      fun a b => b.updatedTs < a.updatedTs := by
  rw [List.pairwise_map, List.pairwise_iff_getElem]
  intro i j hi hj hij
  rw [linkNormalized_getElem env memo hids hi, linkNormalized_getElem env memo hids hj]
  dsimp only
  omega

section done

theorem AttachmentsSet.ids (hids : (s.attachments.map (·.id)).Nodup)
    (hset : AttachmentsSet env memo requested normalized s s') : (normalized.map (·.id)).Nodup :=
  hset.expected.nodup.map_on fun a ha b hb hid =>
    List.inj_on_of_nodup_map hids (hset.stored a ha) (hset.stored b hb) hid

theorem AttachmentsSet.mem_of_id (hids : (s.attachments.map (·.id)).Nodup)
    (hset : AttachmentsSet env memo requested normalized s s') {a : AttachmentRecord} (ha : a ∈ s.attachments)
    (hid : a.id ∈ normalized.map (·.id)) : a ∈ normalized := by
  obtain ⟨b, hb, heq⟩ := List.mem_map.mp hid
  rwa [← List.inj_on_of_nodup_map hids (hset.stored b hb) ha heq]

theorem AttachmentsSet.mem_attachments (hids : (s.attachments.map (·.id)).Nodup)
    (hset : AttachmentsSet env memo requested normalized s s') {a' : AttachmentRecord} : a' ∈ s'.attachments ↔
    ∃ a ∈ s.attachments, a ∉ removedAttachments s memo normalized ∧
      linkNormalized env memo normalized a = a' := by
  rw [hset.attachments, List.mem_map]
  refine exists_congr fun a => ?_
  unfold withoutAttachments
  rw [List.mem_filter, decide_eq_true_eq, and_assoc]
  refine and_congr_right fun ha => and_congr_left fun _ => not_congr ?_
  constructor
  · intro hid
    obtain ⟨b, hb, heq⟩ := List.mem_map.mp hid
    rwa [← List.inj_on_of_nodup_map hids (removedAttachments_mem hb) ha heq]
  · exact List.mem_map_of_mem

theorem AttachmentsSet.linkedTo_perm (hids : (s.attachments.map (·.id)).Nodup)
    (hset : AttachmentsSet env memo requested normalized s s')
    (hcovered : Covered memo requested s) :
    (normalized.map (linkNormalized env memo normalized)).Perm
      (linkedTo s'.toDatabase memo.id) := by
  have horder := linkNormalized_order env memo (hset.ids hids)
  have hnodup : (normalized.map (linkNormalized env memo normalized)).Nodup := by
    refine horder.imp fun hlt heq => ?_
    rw [heq] at hlt
    exact Int.lt_irrefl _ hlt
  have hids' : (s'.attachments.map (·.id)).Nodup := by
    have hkept : (·.id) ∘ linkNormalized env memo normalized = AttachmentRecord.id :=
      funext fun a => (links_linkNormalized env memo normalized a).id
    rw [hset.attachments, List.map_map, hkept]
    exact withoutAttachments_nodup hids _
  refine (List.perm_ext_iff_of_nodup hnodup (hids'.of_map.filter _)).mpr fun a' => ?_
  rw [List.mem_map, List.mem_filter, decide_eq_true_eq, hset.mem_attachments hids]
  constructor
  · rintro ⟨a, ha, rfl⟩
    obtain ⟨updatedTs, hlinked⟩ :=
      (links_linkNormalized env memo normalized a).linked (List.mem_map_of_mem ha)
    refine ⟨⟨a, hset.stored a ha, fun hremoved => ?_, rfl⟩, by rw [hlinked]⟩
    have hnot := (List.mem_filter.mp hremoved).2
    rw [decide_eq_true_eq] at hnot
    exact hnot (List.mem_map_of_mem ha)
  · rintro ⟨⟨a, ha, hkept, rfl⟩, hmemo⟩
    refine ⟨a, ?_, rfl⟩
    by_contra hnot
    have hid : a.id ∉ normalized.map (·.id) := fun hid =>
      hnot (hset.mem_of_id hids ha hid)
    rw [(links_linkNormalized env memo normalized a).other hid] at hmemo
    by_cases hcurrent : a ∈ currentAttachments s memo
    · exact hkept (List.mem_filter.mpr ⟨hcurrent, decide_eq_true hid⟩)
    · exact hnot ((hset.expected.mem a).mpr (hcovered a ha hmemo hcurrent))

end done

/-- After a call that had all old links to look at, the first hundred of the request are listed. -/
theorem Done.listAttachments (hids : (s.attachments.map (·.id)).Nodup)
    (hdone : Done env memo requested normalized s s')
    (hcovered : Covered memo requested s) :
    s'.listAttachments { memoId := some memo.id } =
      (normalized.map (linkNormalized env memo normalized)).take 100 := by
  have hlisting := Paging.listing_mergeSort AttachmentRecord.updatedTs (linkedTo s'.toDatabase memo.id)
  have heq := hlisting.eq_of_pairwise (hdone.set.linkedTo_perm hids hcovered)
    (linkNormalized_order env memo (hdone.set.ids hids))
  rw [listAttachments_memo, ← heq]

end listing

section reads

variable {env : Env} {s s' : Storage} {userID : Nat} {name : String} {user : UserRecord}
  {memo : Memo} {requested normalized : List AttachmentRecord}

theorem checkSetMemoAttachments_ok {db : Database}
    (h : checkSetMemoAttachments db userID name = .ok (user, memo)) :
    ∃ uid, extractMemoUIDFromName name = .ok uid ∧ db.getMemo { uid := some uid } = some memo ∧
      fetchCurrentUser db userID = .ok (some user) ∧
      (memo.creatorId = user.id ∨ isSuperUser user) := by
  rw [checkSetMemoAttachments] at h
  obtain ⟨current, hcurrent, h⟩ := Program.bind_ok h
  cases current with
  | none => cases h
  | some current =>
    obtain ⟨uid, huid, h⟩ := Program.bind_ok h
    obtain ⟨found, hfound, h⟩ := Program.bind_ok h
    split at h
    · cases h
    · rename_i hallowed
      obtain ⟨rfl, rfl⟩ := Prod.mk.inj (Except.ok.inj h)
      exact ⟨uid, Program.mapError_ok huid, foundMemo_ok hfound, Program.mapError_ok hcurrent,
        by tauto⟩

theorem touched_uid (env : Env) (memoID : Nat) (row : MemoRecord) :
    (touched env memoID row).uid = row.uid ∧ (touched env memoID row).id = row.id ∧
      (touched env memoID row).creatorId = row.creatorId ∧
      (touched env memoID row).visibility = row.visibility := by
  unfold touched
  split
  · exact ⟨rfl, rfl, rfl, rfl⟩
  · exact ⟨rfl, rfl, rfl, rfl⟩

theorem Done.getMemo (huids : (s.memos.map (·.uid)).Nodup)
    (hdone : Done env memo requested normalized s s') {uid : String}
    (hmemo : s.getMemo { uid := some uid } = some memo) :
    ∃ memo', s'.getMemo { uid := some uid } = some memo' ∧ memo'.id = memo.id ∧
      memo'.creatorId = memo.creatorId ∧ memo'.visibility = memo.visibility := by
  obtain ⟨row, hrow, huid, parent, -, hread⟩ := Database.getMemo_uid hmemo
  have hrow' : touched env memo.id row ∈ s'.memos := by
    rw [hdone.memos]
    exact List.mem_map_of_mem hrow
  obtain ⟨memo', hmemo'⟩ := Database.exists_getMemo hrow'
  rw [(touched_uid env memo.id row).1, huid] at hmemo'
  obtain ⟨found', hfound', huid', parent', -, hread'⟩ := Database.getMemo_uid hmemo'
  rw [hdone.memos] at hfound'
  obtain ⟨found, hfound, rfl⟩ := List.mem_map.mp hfound'
  rw [(touched_uid env memo.id found).1] at huid'
  obtain rfl : found = row := List.inj_on_of_nodup_map huids hfound hrow (huid'.trans huid.symm)
  obtain ⟨-, hid, hcreator, hvisibility⟩ := touched_uid env memo.id found
  refine ⟨memo', hmemo', ?_, ?_, ?_⟩
  · rw [← hread']
    exact hid.trans (congrArg Memo.id hread)
  · rw [← hread']
    exact hcreator.trans (congrArg Memo.creatorId hread)
  · rw [← hread']
    exact hvisibility.trans (congrArg Memo.visibility hread)

theorem Done.listMemoAttachments (h : Intact s) (hdone : Done env memo requested normalized s s')
    (hcheck : checkSetMemoAttachments s.toDatabase userID name = .ok (user, memo)) :
    listMemoAttachments s'.toDatabase userID name =
      .ok ((s'.listAttachments { memoId := some memo.id }).map
        (convertAttachmentFromStore s'.toDatabase)) := by
  obtain ⟨uid, huid, hmemo, huser, hallowed⟩ := checkSetMemoAttachments_ok hcheck
  obtain ⟨memo', hmemo', hid, hcreator, -⟩ := hdone.getMemo h.keys.memoUids hmemo
  have hfetch := (fetchCurrentUser_of_users hdone.users userID).trans huser
  have hread : ¬(memo'.visibility = .Private ∧ memo'.creatorId ≠ user.id ∧ ¬isSuperUser user) := by
    rw [hcreator]
    tauto
  unfold WriteMemos.listMemoAttachments
  rw [huid, ← hid]
  change (foundMemo (s'.getMemo { uid := some uid }) >>= fun memo => _) = _
  rw [hmemo']
  change (if memo'.visibility ≠ .Public then _ else _) = _
  by_cases hpublic : memo'.visibility = .Public
  · rw [if_neg (not_not_intro hpublic)]
    rfl
  · rw [if_pos hpublic, hfetch]
    change (if memo'.visibility = .Private ∧ memo'.creatorId ≠ user.id ∧ ¬isSuperUser user then _
      else _) = _
    rw [if_neg hread]
    rfl

end reads

section exactness

variable {env : Env} {s s' : Storage} {userID : Nat} {name : String} {names : List String}
  {user : UserRecord} {memo : Memo} {requested normalized : List AttachmentRecord}

theorem Done.withinLimit (h : Intact s) (hdone : Done env memo requested normalized s s')
    (hcheck : checkSetMemoAttachments s.toDatabase userID name = .ok (user, memo))
    (hexact : SetExactly userID name memo requested s s') : WithinLimit memo requested s := by
  constructor
  · intro expected hexpected
    obtain ⟨shown, hshown, hlisted⟩ := hexact.listed
    rw [hdone.listMemoAttachments h hcheck] at hlisted
    have hlength := congrArg List.length (Except.ok.inj hlisted)
    rw [List.length_map, List.length_map, listAttachments_memo] at hlength
    rw [hexpected.length_eq hshown, ← hlength]
    exact List.length_take_le _ _
  · intro a ha hmemo hcurrent
    by_contra hnot
    have hid : a.id ∉ normalized.map (·.id) := fun hid =>
      hnot ((hdone.expected.mem a).mp (hdone.set.mem_of_id h.attachmentIds ha hid))
    have hkept : a ∈ s'.attachments := by
      rw [hdone.set.mem_attachments h.attachmentIds]
      refine ⟨a, ha, fun hremoved => hcurrent (List.mem_of_mem_filter hremoved), ?_⟩
      exact (links_linkNormalized env memo normalized a).other hid
    exact hexact.unlinked a ha hmemo hnot a hkept rfl hmemo

theorem Done.setExactly (h : Intact s) (hdone : Done env memo requested normalized s s')
    (hcheck : checkSetMemoAttachments s.toDatabase userID name = .ok (user, memo))
    (hwithin : WithinLimit memo requested s) : SetExactly userID name memo requested s s' := by
  constructor
  · refine ⟨normalized, hdone.expected, ?_⟩
    have hlength : (normalized.map (linkNormalized env memo normalized)).length ≤ 100 := by
      rw [List.length_map]
      exact hwithin.length normalized hdone.expected
    rw [hdone.listMemoAttachments h hcheck, hdone.listAttachments h.attachmentIds hwithin.covered,
      List.take_of_length_le hlength, List.map_map]
    refine congrArg Except.ok (List.map_congr_left fun a ha => ?_)
    obtain ⟨updatedTs, hlinked⟩ :=
      (links_linkNormalized env memo normalized a).linked (List.mem_map_of_mem ha)
    rw [Function.comp_apply, hlinked]
    rfl
  · intro a ha hmemo hnot a' ha' hid
    obtain ⟨b, hb, hkept, rfl⟩ := (hdone.set.mem_attachments h.attachmentIds).mp ha'
    rw [(links_linkNormalized env memo normalized b).id] at hid
    obtain rfl : b = a := List.inj_on_of_nodup_map h.attachmentIds hb ha hid
    have hunnamed : b.id ∉ normalized.map (·.id) := fun hid =>
      hnot ((hdone.expected.mem b).mp (hdone.set.mem_of_id h.attachmentIds hb hid))
    by_cases hcurrent : b ∈ currentAttachments s memo
    · exact absurd (List.mem_filter.mpr ⟨hcurrent, decide_eq_true hunnamed⟩) hkept
    · exact absurd (hwithin.covered b hb hmemo hcurrent) hnot

/-- Exactly when a call that succeeds sets the attachments of the memo as requested. -/
theorem setExactly_iff {env : Env} {s s' : Storage} (h : Intact s) {userID : Nat} {name : String}
    {names : List String} {user : UserRecord} {memo : Memo} {requested : List AttachmentRecord}
    (hrun : (setMemoAttachments env userID name names).run s = (.ok (), s'))
    (hcheck : checkSetMemoAttachments s.toDatabase userID name = .ok (user, memo))
    (hrequested : names.mapM (requestedAttachment s.toDatabase user) = .ok requested) :
    SetExactly userID name memo requested s s' ↔ WithinLimit memo requested s := by
  obtain ⟨normalized, hdone⟩ := setMemoAttachments_done h.attachmentIds hrun hcheck hrequested
  constructor
  · exact hdone.withinLimit h hcheck
  · exact hdone.setExactly h hcheck

theorem setMemoAttachments_succeeds (h : Intact s) (hsnippets : env.Snippets)
    (hcheck : checkSetMemoAttachments s.toDatabase userID name = .ok (user, memo))
    (hpass : AttachmentsPass env user s memo names) (hcreator : (s.getUser memo.creatorId).isSome) :
    ∃ s', (setMemoAttachments env userID name names).run s = (.ok (), s') := by
  have hchecked : (Durable.ofExcept (checkSetMemoAttachments s.toDatabase userID name) :
      Handler (UserRecord × Memo)).run s = (.ok (user, memo), s) := by
    rw [Durable.run_ofExcept_eq, hcheck]
  obtain ⟨rows, hset, -⟩ := setMemoAttachments_ok h.attachmentIds hpass
  obtain ⟨uid, -, hmemo, huser, -⟩ := checkSetMemoAttachments_ok hcheck
  obtain ⟨row, hrow, -, parent, -, rfl⟩ := Database.getMemo_uid hmemo
  let t : Storage := { s with attachments := rows, memos := s.memos.map (touched env row.id) }
  obtain ⟨-, hid, hsame, -⟩ := touched_uid env row.id row
  have hids : (t.memos.map (·.id)).Nodup := by
    have hkept : (·.id) ∘ touched env row.id = MemoRecord.id :=
      funext fun other => (touched_uid env row.id other).2.1
    show ((s.memos.map (touched env row.id)).map (·.id)).Nodup
    rw [List.map_map, hkept]
    exact h.keys.memoIds
  have hmem : touched env row.id row ∈ t.memos := List.mem_map_of_mem hrow
  have hfetch : fetchCurrentUser t.toDatabase userID = .ok (some user) :=
    (fetchCurrentUser_of_users rfl userID).trans huser
  have hknown : t.getUser (touched env row.id row).creatorId = s.getUser row.creatorId := by
    rw [hsame]
    rfl
  have hbuilt := buildUpdatedMemoState_run hsnippets hids hmem hfetch
  rw [hid, hknown] at hbuilt
  obtain ⟨message, hmessage⟩ : ∃ message,
      buildUpdatedMemoState env t.toDatabase userID row.id = .ok message := by
    rcases hbuilt with ⟨-, hmessage⟩ | ⟨hnone, -⟩
    · exact hmessage
    · have hsome : (s.getUser row.creatorId).isSome := hcreator
      rw [hnone] at hsome
      cases hsome
  refine ⟨t, ?_⟩
  unfold setMemoAttachments
  rw [Durable.run_bind_of_ok (show Durable.get.run s = (.ok s, s) from rfl),
    Durable.run_bind_of_ok hchecked]
  refine (Durable.run_bind_of_ok hset).trans ?_
  refine (Durable.run_bind_of_ok (touchMemo_run env row.id { s with attachments := rows })).trans ?_
  refine (Durable.run_bind_of_ok (show Durable.get.run t = (.ok t, t) from rfl)).trans ?_
  show (Durable.ofExcept ((buildUpdatedMemoState env t.toDatabase userID row.id).mapError _) >>=
    fun _ => _).run t = _
  rw [hmessage]
  rfl

end exactness

section album

def photo (n : Nat) : AttachmentRecord where
  id := n + 1
  uid := "photo" ++ toString n
  creatorId := 1
  filename := "photo.jpg"
  type := "image/jpeg"
  size := 1
  createdTs := 0
  updatedTs := n
  memoId := some 1
  storageType := .UNSPECIFIED
  reference := ""
  motionMedia := none

def album (n : Nat) : Storage := { diary with attachments := (List.range n).map photo }

theorem album_intact (n : Nat) : Intact (album n) where
  keys := ⟨show (diary.users.map (·.id)).Nodup by decide, show (diary.memos.map (·.id)).Nodup by decide,
    show (diary.memos.map (·.uid)).Nodup by decide, List.nodup_nil⟩
  attachmentIds := by
    show (((List.range n).map photo).map (·.id)).Nodup
    rw [List.map_map]
    exact List.nodup_range.map fun i j hij => Nat.succ_injective hij
  fresh := by
    intro a ha
    obtain ⟨i, -, rfl⟩ := List.mem_map.mp ha
    show some 1 ≠ some 2
    decide

theorem check_album (n : Nat) : checkSetMemoAttachments (album n).toDatabase 1 "memos/diary" =
    .ok (ada, diaryMemo.withParent none) := by
  unfold checkSetMemoAttachments
  rw [extract_diary]
  change (foundMemo (diary.getMemo { uid := some "diary" }) >>= fun memo => _) = _
  rw [getMemo_diary]
  rfl

theorem clear_album (n : Nat) : ∃ s', (setMemoAttachments (lenientEnv "") 1 "memos/diary" []).run
    (album n) = (.ok (), s') := by
  refine setMemoAttachments_succeeds (album_intact n) (lenientEnv_snippets "") (check_album n)
    ⟨[], rfl, fun a ha => ?_⟩ rfl
  obtain ⟨i, -, rfl⟩ := List.mem_map.mp (removedAttachments_mem ha)
  exact ⟨.inl rfl, fun hfails => Bool.false_ne_true hfails.1⟩

/-- Of two photos one is kept. -/
theorem setExactly_iff_album : ∃ s',
    (setMemoAttachments (lenientEnv "") 1 "memos/diary" ["attachments/photo1"]).run (album 2) =
        (.ok (), s') ∧
      (SetExactly 1 "memos/diary" (diaryMemo.withParent none) [photo 1] (album 2) s' ↔
        WithinLimit (diaryMemo.withParent none) [photo 1] (album 2)) := by
  have hrequested : ["attachments/photo1"].mapM (requestedAttachment (album 2).toDatabase ada) =
      .ok [photo 1] := by decide +kernel
  have hpass : AttachmentsPass (lenientEnv "") ada (album 2) (diaryMemo.withParent none)
      ["attachments/photo1"] := by
    refine ⟨[photo 1], by decide +kernel, fun a ha => ?_⟩
    obtain ⟨i, -, rfl⟩ := List.mem_map.mp (removedAttachments_mem ha)
    exact ⟨.inl rfl, fun hfails => Bool.false_ne_true hfails.1⟩
  obtain ⟨s', hrun⟩ := setMemoAttachments_succeeds (album_intact 2) (lenientEnv_snippets "")
    (check_album 2) hpass rfl
  exact ⟨s', hrun, setExactly_iff (album_intact 2) hrun (check_album 2) hrequested⟩

/-- One of 101 photos stays in the album. -/
theorem photo_kept : ∃ s', (setMemoAttachments (lenientEnv "") 1 "memos/diary" []).run (album 101) =
    (.ok (), s') ∧ ¬SetExactly 1 "memos/diary" (diaryMemo.withParent none) [] (album 101) s' := by
  obtain ⟨s', hrun⟩ := clear_album 101
  refine ⟨s', hrun, fun hexact => ?_⟩
  obtain ⟨normalized, hdone⟩ : ∃ normalized, Done (lenientEnv "") (diaryMemo.withParent none) []
      normalized (album 101) s' :=
    setMemoAttachments_done (album_intact 101).attachmentIds hrun (check_album 101) rfl
  have hwithin := hdone.withinLimit (album_intact 101) (check_album 101) hexact
  have hsubset : (album 101).attachments ⊆ currentAttachments (album 101) (diaryMemo.withParent none) := by
    intro a ha
    by_contra hnot
    obtain ⟨i, -, rfl⟩ := List.mem_map.mp ha
    exact List.not_mem_nil (hwithin.covered _ ha rfl hnot).1
  have hlength := (List.subperm_of_subset (album_intact 101).attachmentIds.of_map hsubset).length_le
  rw [currentAttachments, listAttachments_memo, List.length_take] at hlength
  have hall : (album 101).attachments.length = 101 := by
    rw [album, List.length_map, List.length_range]
  omega

end album

end Memoark.Server.WriteMemos
