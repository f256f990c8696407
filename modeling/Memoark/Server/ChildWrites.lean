import Mathlib.Data.List.TakeWhile
import Memoark.Server.WriteAccess

/-! What the attachments and the relations of a memo are after a request sets them, whether it
succeeds or fails on the way. -/
namespace Memoark.Server.WriteMemos
open Store
open Program (Durable)

structure Intact (s : Storage) : Prop where
  keys : s.toDatabase.Keys
  attachmentIds : (s.attachments.map (·.id)).Nodup
  /-- The id of a memo is not used again. -/
  fresh : ∀ a ∈ s.attachments, a.memoId ≠ some s.nextMemoId

section attachments

def currentAttachments (s : Storage) (memo : Memo) : List AttachmentRecord :=
  s.listAttachments { memoId := some memo.id }

def removedAttachments (s : Storage) (memo : Memo) (normalized : List AttachmentRecord) :
    List AttachmentRecord :=
  (currentAttachments s memo).filter fun a => a.id ∉ normalized.map (·.id)

def Removable (env : Env) (user : UserRecord) (a : AttachmentRecord) : Prop :=
  (a.creatorId = user.id ∨ isSuperUser user) ∧ ¬(env.storageFails a ∧ a.storageType = .LOCAL)

instance (env : Env) (user : UserRecord) : DecidablePred (Removable env user) := fun a =>
  inferInstanceAs (Decidable ((a.creatorId = user.id ∨ isSuperUser user = true) ∧
    ¬(env.storageFails a = true ∧ a.storageType = .LOCAL)))

def withoutAttachments (s : Storage) (ids : List Nat) : Storage :=
  { s with attachments := s.attachments.filter (·.id ∉ ids) }

variable {env : Env} {user : UserRecord} {s : Storage} {memo : Memo}

theorem withoutAttachments_nil : withoutAttachments s [] = s := by
  unfold withoutAttachments
  rw [List.filter_eq_self.mpr fun a _ => by simp]

theorem withoutAttachments_cons (id : Nat) (ids : List Nat) :
    withoutAttachments (withoutAttachments s [id]) ids = withoutAttachments s (id :: ids) := by
  unfold withoutAttachments
  dsimp only
  rw [List.filter_filter]
  congr 3
  funext a
  simp only [List.mem_cons, List.not_mem_nil, or_false, not_or, Bool.decide_and]
  exact Bool.and_comm _ _

theorem withoutAttachments_nodup (hids : (s.attachments.map (·.id)).Nodup) (ids : List Nat) :
    ((withoutAttachments s ids).attachments.map (·.id)).Nodup :=
  hids.sublist (List.filter_sublist.map AttachmentRecord.id)

theorem listAttachments_singleton {db : Database} {find : FindAttachment} {a : AttachmentRecord}
    (hblob : find.getBlob = false) (hlimit : find.limit = none) (hlist : find.memoIdList = [])
    (hrows : (db.attachments.filter fun b => asked find.id b.id && asked find.uid b.uid &&
      find.memoId.all (fun id => b.memoId = some id) &&
        (find.memoIdList = [] ∨ ∃ id ∈ find.memoIdList, b.memoId = some id)) = [a]) :
    db.listAttachments find = [a] := by
  unfold Database.listAttachments
  rw [if_pos ⟨hlimit, hlist⟩]
  unfold Database.listAttachmentRows
  dsimp only
  rw [hrows, hblob, List.mergeSort_singleton]
  rfl

theorem listAttachments_id {db : Database} (hids : (db.attachments.map (·.id)).Nodup)
    {a : AttachmentRecord} (ha : a ∈ db.attachments) :
    db.listAttachments { id := some a.id } = [a] := by
  apply listAttachments_singleton rfl rfl rfl
  rw [← filter_key_eq hids ha]
  congr 1
  funext b
  simp [asked, eq_comm]

theorem listAttachments_uid {db : Database} (huids : (db.attachments.map (·.uid)).Nodup)
    {a : AttachmentRecord} (ha : a ∈ db.attachments) :
    db.listAttachments { uid := some a.uid } = [a] := by
  apply listAttachments_singleton rfl rfl rfl
  rw [← filter_key_eq huids ha]
  congr 1
  funext b
  simp [asked, eq_comm]

theorem mem_currentAttachments {a : AttachmentRecord}
    (ha : a ∈ currentAttachments s memo) :
    a ∈ s.attachments ∧ a.memoId = some memo.id := by
  unfold currentAttachments Database.listAttachments at ha
  rw [if_pos ⟨rfl, rfl⟩] at ha
  obtain ⟨hmem, hmatches⟩ := List.mem_filter.mp (List.mem_mergeSort.mp (Database.mem_page ha))
  simp only [Bool.and_eq_true, Option.all_some, decide_eq_true_eq] at hmatches
  exact ⟨hmem, hmatches.1.2⟩

theorem removeAttachment_ok (hids : (s.attachments.map (·.id)).Nodup) {a : AttachmentRecord}
    (ha : a ∈ s.attachments) (hremovable : Removable env user a) :
    (removeAttachment env user a).run s = (.ok (), withoutAttachments s [a.id]) := by
  have hdelete : (deleteAttachment env a.id).run s = (.ok (), withoutAttachments s [a.id]) := by
    refine (Durable.run_bind_of_ok (show Durable.get.run s = (.ok s, s) from rfl)).trans ?_
    rw [listAttachments_id hids ha]
    dsimp only [List.head?_cons]
    rw [if_neg hremovable.2]
    change (Except.ok (), { s with attachments := s.attachments.filter (·.id ≠ a.id) }) = _
    unfold withoutAttachments
    simp only [List.mem_singleton, ne_eq]
  unfold removeAttachment
  rw [if_neg (by have := hremovable.1; tauto), Durable.run_mapFailure_eq, hdelete]
  rfl

theorem removeAttachment_error (hids : (s.attachments.map (·.id)).Nodup) {a : AttachmentRecord}
    (ha : a ∈ s.attachments) (hremovable : ¬Removable env user a) :
    ∃ e, (removeAttachment env user a).run s = (.error e, s) := by
  unfold removeAttachment
  split
  · exact ⟨_, rfl⟩
  · rename_i hallowed
    have hfails : env.storageFails a = true ∧ a.storageType = .LOCAL := by
      unfold Removable at hremovable
      tauto
    have hdelete : (deleteAttachment env a.id).run s =
        (.error "failed to delete local file", s) := by
      refine (Durable.run_bind_of_ok (show Durable.get.run s = (.ok s, s) from rfl)).trans ?_
      rw [listAttachments_id hids ha]
      dsimp only [List.head?_cons]
      rw [if_pos hfails]
      rfl
    refine ⟨⟨.Internal, "failed to delete attachment"⟩, ?_⟩
    rw [Durable.run_mapFailure_eq, hdelete]
    rfl

theorem removeAttachments_run (env : Env) (user : UserRecord) {as : List AttachmentRecord}
    (hids : (s.attachments.map (·.id)).Nodup) (has : ∀ a ∈ as, a ∈ s.attachments)
    (hnodup : (as.map (·.id)).Nodup) :
    ∃ result, (Durable.forEach (removeAttachment env user) as).run s =
        (result, withoutAttachments s ((as.takeWhile (Removable env user ·)).map (·.id))) ∧
      (result = .ok () ↔ ∀ a ∈ as, Removable env user a) := by
  induction as generalizing s with
  | nil =>
    refine ⟨.ok (), ?_, iff_of_true rfl fun a ha => absurd ha List.not_mem_nil⟩
    rw [List.takeWhile_nil, List.map_nil, withoutAttachments_nil]
    rfl
  | cons a as ih =>
    rw [List.map_cons, List.nodup_cons] at hnodup
    obtain ⟨ha, hnodup⟩ := hnodup
    have hmem := has a List.mem_cons_self
    by_cases hremovable : Removable env user a
    · have hrest : ∀ b ∈ as, b ∈ (withoutAttachments s [a.id]).attachments := by
        intro b hb
        refine List.mem_filter.mpr ⟨has b (List.mem_cons_of_mem a hb), decide_eq_true ?_⟩
        rw [List.mem_singleton]
        exact fun hid => ha (hid ▸ List.mem_map_of_mem hb)
      obtain ⟨result, hrun, hresult⟩ :=
        ih (withoutAttachments_nodup hids [a.id]) hrest hnodup
      refine ⟨result, ?_, ?_⟩
      · refine (Durable.run_bind_of_ok (removeAttachment_ok hids hmem hremovable)).trans ?_
        rw [hrun, List.takeWhile_cons, if_pos (decide_eq_true hremovable), List.map_cons,
          withoutAttachments_cons]
      · rw [hresult, List.forall_mem_cons]
        exact (and_iff_right hremovable).symm
    · obtain ⟨e, hrun⟩ := removeAttachment_error hids hmem hremovable
      refine ⟨.error e, ?_, ?_⟩
      · refine (Durable.run_bind_of_error hrun).trans ?_
        rw [List.takeWhile_cons, if_neg (by simpa using hremovable), List.map_nil,
          withoutAttachments_nil]
      · constructor
        · intro h
          cases h
        · exact fun h => absurd (h a List.mem_cons_self) hremovable

structure Links (memoId : Nat) (ids : List Nat) (a a' : AttachmentRecord) : Prop where
  linked : a.id ∈ ids → ∃ updatedTs, a' = { a with memoId := some memoId, updatedTs }
  other : a.id ∉ ids → a' = a

theorem Links.same {α : Type} {f : AttachmentRecord → α}
    (hf : ∀ a memoId updatedTs, f { a with memoId, updatedTs } = f a) {memoId : Nat}
    {ids : List Nat} {a a' : AttachmentRecord} (h : Links memoId ids a a') : f a' = f a := by
  by_cases hmem : a.id ∈ ids
  · obtain ⟨updatedTs, rfl⟩ := h.linked hmem
    exact hf a (some memoId) updatedTs
  · rw [h.other hmem]

theorem Links.id {memoId : Nat} {ids : List Nat} {a a' : AttachmentRecord}
    (h : Links memoId ids a a') : a'.id = a.id := h.same (f := AttachmentRecord.id) fun _ _ _ => rfl

theorem Links.uid {memoId : Nat} {ids : List Nat} {a a' : AttachmentRecord}
    (h : Links memoId ids a a') : a'.uid = a.uid :=
  h.same (f := AttachmentRecord.uid) fun _ _ _ => rfl

theorem Links.motionGroup {memoId : Nat} {ids : List Nat} {a a' : AttachmentRecord}
    (h : Links memoId ids a a') : motionGroup a' = motionGroup a :=
  h.same (f := WriteMemos.motionGroup) fun _ _ _ => rfl

def linked (memoId : Nat) (now : Int) (links : List (AttachmentRecord × Nat))
    (a : AttachmentRecord) : AttachmentRecord :=
  links.foldl (fun a link =>
    if a.id = link.1.id then { a with memoId := some memoId, updatedTs := now + link.2 } else a) a

theorem linkAttachments_run (now : Int) (id : Nat) (links : List (AttachmentRecord × Nat))
    (failure : String → Status) :
    (Durable.forEach (fun (link : AttachmentRecord × Nat) =>
      (Storage.updateAttachment link.1.id id (now + link.2)).mapFailure failure) links).run s =
        (.ok (), { s with attachments := s.attachments.map (linked id now links) }) := by
  induction links generalizing s with
  | nil =>
    have hnone : linked id now [] = fun a => a := rfl
    rw [hnone, List.map_id']
    rfl
  | cons first links ih =>
    have hrest := ih (s := { s with attachments := s.attachments.map (linked id now [first]) })
    dsimp only at hrest
    rw [List.map_map] at hrest
    exact (Durable.run_bind_of_ok (a := ()) rfl).trans hrest

theorem linked_links (id : Nat) (now : Int) (links : List (AttachmentRecord × Nat))
    (a : AttachmentRecord) : Links id (links.map (·.1.id)) a (linked id now links a) := by
  induction links generalizing a with
  | nil => exact ⟨fun h => absurd h List.not_mem_nil, fun _ => rfl⟩
  | cons first links ih =>
    have hset : (linked id now [first] a).id = a.id := by
      unfold linked
      rw [List.foldl_cons, List.foldl_nil]
      split
      · rfl
      · rfl
    have hrest := ih (linked id now [first] a)
    rw [List.map_cons]
    constructor
    · intro hmem
      by_cases hlater : a.id ∈ links.map (·.1.id)
      · obtain ⟨updatedTs, heq⟩ := hrest.linked (hset ▸ hlater)
        refine ⟨updatedTs, heq.trans ?_⟩
        unfold linked
        rw [List.foldl_cons, List.foldl_nil]
        split
        · rfl
        · rfl
      · have hfirst : a.id = first.1.id := (List.mem_cons.mp hmem).resolve_right hlater
        exact ⟨now + first.2, (hrest.other (hset ▸ hlater)).trans (if_pos hfirst)⟩
    · intro hnot
      obtain ⟨hfirst, hlater⟩ := not_or.mp (mt List.mem_cons.mpr hnot)
      show linked id now links (linked id now [first] a) = a
      rw [hrest.other (hset ▸ hlater)]
      exact if_neg hfirst

theorem linked_of_mem (id : Nat) (now : Int) {links : List (AttachmentRecord × Nat)}
    (hids : (links.map (·.1.id)).Nodup) {link : AttachmentRecord × Nat} (hmem : link ∈ links)
    {a : AttachmentRecord} (ha : a.id = link.1.id) :
    linked id now links a = { a with memoId := some id, updatedTs := now + link.2 } := by
  induction links generalizing a with
  | nil => cases hmem
  | cons first links ih =>
    rw [List.map_cons, List.nodup_cons] at hids
    have hstep : linked id now (first :: links) a = linked id now links (linked id now [first] a) := rfl
    rw [hstep]
    rcases List.mem_cons.mp hmem with rfl | hmem
    · have hset : linked id now [link] a = { a with memoId := some id, updatedTs := now + link.2 } :=
        if_pos ha
      have hnot : a.id ∉ links.map (·.1.id) := ha ▸ hids.1
      rw [hset]
      exact (linked_links id now links _).other hnot
    · have hne : a.id ≠ first.1.id := by
        intro hid
        refine hids.1 ?_
        rw [← hid, ha]
        exact List.mem_map_of_mem (f := fun link : AttachmentRecord × Nat => link.1.id) hmem
      have hset : linked id now [first] a = a := if_neg hne
      rw [hset]
      exact ih hids.2 hmem ha

/-- The names of a request can all be resolved, and what it drops can be removed. -/
def AttachmentsPass (env : Env) (user : UserRecord) (s : Storage) (memo : Memo)
    (names : List String) : Prop :=
  ∃ normalized, normalizeMemoAttachmentRequest s.toDatabase user (currentAttachments s memo) names =
    .ok normalized ∧ ∀ a ∈ removedAttachments s memo normalized, Removable env user a

def AttachmentsIdle (env : Env) (user : UserRecord) (s : Storage) (memo : Memo)
    (names : List String) : Prop :=
  ∀ normalized, normalizeMemoAttachmentRequest s.toDatabase user (currentAttachments s memo) names =
    .ok normalized → ∀ a ∈ (removedAttachments s memo normalized).head?, ¬Removable env user a

theorem removedAttachments_mem {normalized : List AttachmentRecord} {a : AttachmentRecord}
    (ha : a ∈ removedAttachments s memo normalized) : a ∈ s.attachments :=
  (mem_currentAttachments (List.mem_of_mem_filter ha)).1

theorem removedAttachments_nodup (hids : (s.attachments.map (·.id)).Nodup) (memo : Memo)
    (normalized : List AttachmentRecord) :
    ((removedAttachments s memo normalized).map (·.id)).Nodup := by
  have hcurrent : ((currentAttachments s memo).map (·.id)).Nodup := by
    unfold currentAttachments Database.listAttachments
    rw [if_pos ⟨rfl, rfl⟩]
    refine .sublist ((Database.page_sublist _ _ _).map AttachmentRecord.id) ?_
    refine ((List.mergeSort_perm _ _).map AttachmentRecord.id).nodup_iff.mpr ?_
    exact hids.sublist (List.filter_sublist.map AttachmentRecord.id)
  exact hcurrent.sublist (List.filter_sublist.map AttachmentRecord.id)

def linkNormalized (env : Env) (memo : Memo) (normalized : List AttachmentRecord) :
    AttachmentRecord → AttachmentRecord :=
  linked memo.id env.now normalized.reverse.zipIdx

theorem setMemoAttachments_run (hids : (s.attachments.map (·.id)).Nodup) {names : List String}
    {normalized : List AttachmentRecord} (hnormalized : normalizeMemoAttachmentRequest s.toDatabase
      user (currentAttachments s memo) names = .ok normalized)
    (hremovable : ∀ a ∈ removedAttachments s memo normalized, Removable env user a) :
    (setMemoAttachmentsInternal env user memo names).run s = (.ok (), { s with
      attachments := (withoutAttachments s ((removedAttachments s memo normalized).map
        (·.id))).attachments.map (linkNormalized env memo normalized) }) := by
  obtain ⟨result, hrun, hresult⟩ := removeAttachments_run env user hids
    (fun a => removedAttachments_mem) (removedAttachments_nodup hids memo normalized)
  have htake : (removedAttachments s memo normalized).takeWhile (Removable env user ·) =
      removedAttachments s memo normalized :=
    List.takeWhile_eq_self_iff.mpr fun a ha => decide_eq_true (hremovable a ha)
  rw [hresult.mpr hremovable, htake] at hrun
  have hlink := linkAttachments_run env.now memo.id normalized.reverse.zipIdx
    (fun err => ⟨.Internal, "failed to update attachment: " ++ err⟩)
    (s := withoutAttachments s ((removedAttachments s memo normalized).map (·.id)))
  refine (Durable.run_bind_of_ok (show Durable.get.run s = (.ok s, s) from rfl)).trans ?_
  refine (Durable.run_bind_of_ok ((Durable.run_ofExcept_eq _ s).trans (by
    rw [← hnormalized]
    rfl))).trans ?_
  exact (Durable.run_bind_of_ok hrun).trans hlink

theorem zipIdx_ids (normalized : List AttachmentRecord) :
    normalized.reverse.zipIdx.map (·.1.id) = (normalized.map (·.id)).reverse :=
  calc normalized.reverse.zipIdx.map (·.1.id)
      = (normalized.reverse.zipIdx.map Prod.fst).map (·.id) := by
        rw [List.map_map]
        rfl
    _ = (normalized.map (·.id)).reverse := by rw [List.zipIdx_map_fst, List.map_reverse]

theorem links_linkNormalized (env : Env) (memo : Memo) (normalized : List AttachmentRecord)
    (a : AttachmentRecord) :
    Links memo.id (normalized.map (·.id)) a (linkNormalized env memo normalized a) := by
  have h := linked_links memo.id env.now normalized.reverse.zipIdx a
  rw [zipIdx_ids] at h
  exact ⟨fun hmem => h.linked (List.mem_reverse.mpr hmem),
    fun hnot => h.other fun hmem => hnot (List.mem_reverse.mp hmem)⟩

theorem setMemoAttachments_ok (hids : (s.attachments.map (·.id)).Nodup) {names : List String}
    (hpass : AttachmentsPass env user s memo names) : ∃ rows,
      (setMemoAttachmentsInternal env user memo names).run s =
        (.ok (), { s with attachments := rows }) ∧
      (rows.map (·.id)).Sublist (s.attachments.map (·.id)) := by
  obtain ⟨normalized, hnormalized, hremovable⟩ := hpass
  refine ⟨_, setMemoAttachments_run hids hnormalized hremovable, ?_⟩
  have hkept : (·.id) ∘ linkNormalized env memo normalized = AttachmentRecord.id :=
    funext fun a => (links_linkNormalized env memo normalized a).id
  rw [List.map_map, hkept]
  exact List.filter_sublist.map AttachmentRecord.id

theorem setMemoAttachments_error (hids : (s.attachments.map (·.id)).Nodup) {names : List String}
    (hpass : ¬AttachmentsPass env user s memo names) : ∃ e ids,
      (setMemoAttachmentsInternal env user memo names).run s =
        (.error e, withoutAttachments s ids) ∧
      (AttachmentsIdle env user s memo names → ids = []) ∧
      (¬AttachmentsIdle env user s memo names → ∃ a ∈ s.attachments, a.id ∈ ids) := by
  cases hnormalized : normalizeMemoAttachmentRequest s.toDatabase user (currentAttachments s memo)
      names with
  | error e =>
    refine ⟨e, [], ?_, fun _ => rfl, fun hidle => absurd ?_ hidle⟩
    · refine (Durable.run_bind_of_ok (show Durable.get.run s = (.ok s, s) from rfl)).trans ?_
      rw [withoutAttachments_nil]
      refine Durable.run_bind_of_error ((Durable.run_ofExcept_eq _ s).trans ?_)
      rw [← hnormalized]
      rfl
    · intro normalized h
      rw [hnormalized] at h
      cases h
  | ok normalized =>
    obtain ⟨result, hrun, hresult⟩ := removeAttachments_run env user hids
      (fun a => removedAttachments_mem) (removedAttachments_nodup hids memo normalized)
    have hnot : ¬∀ a ∈ removedAttachments s memo normalized, Removable env user a :=
      fun h => hpass ⟨normalized, hnormalized, h⟩
    obtain ⟨e, rfl⟩ : ∃ e, result = .error e := by
      cases result with
      | error e => exact ⟨e, rfl⟩
      | ok _ => exact absurd (hresult.mp rfl) hnot
    have hfull : (setMemoAttachmentsInternal env user memo names).run s = (.error e,
        withoutAttachments s (((removedAttachments s memo normalized).takeWhile
          (Removable env user ·)).map (·.id))) := by
      refine (Durable.run_bind_of_ok (show Durable.get.run s = (.ok s, s) from rfl)).trans ?_
      refine (Durable.run_bind_of_ok ((Durable.run_ofExcept_eq _ s).trans (by
        rw [← hnormalized]
        rfl))).trans ?_
      exact Durable.run_bind_of_error hrun
    refine ⟨e, _, hfull, ?_, ?_⟩
    · intro hidle
      have hhead := hidle normalized hnormalized
      cases hremoved : removedAttachments s memo normalized with
      | nil => rfl
      | cons a as =>
        rw [hremoved] at hhead
        rw [List.takeWhile_cons, if_neg (by simpa using hhead)]
        rfl
    · intro hidle
      simp only [AttachmentsIdle, not_forall, not_not] at hidle
      obtain ⟨normalized', h, a, ha, hremovable⟩ := hidle
      rw [hnormalized] at h
      obtain rfl := Except.ok.inj h
      obtain ⟨as, hremoved⟩ := List.head?_eq_some_iff.mp (Option.mem_def.mp ha)
      have hmem : a ∈ removedAttachments s memo normalized := by
        rw [hremoved]
        exact List.mem_cons_self
      refine ⟨a, removedAttachments_mem hmem, ?_⟩
      · rw [hremoved, List.takeWhile_cons, if_pos (decide_eq_true hremovable)]
        exact List.mem_cons_self

end attachments

section relations

/-- The relation that a request asks for: the outer `none` is one that fails, the inner one is
ignored. -/
def relationTarget (memos : List MemoRecord) (memo : Memo) (relation : RelationInput) :
    Option (Option MemoRelation) :=
  match relation.relatedMemo with
  | none => none
  | some relatedMemo =>
    if memoName memo.uid = relatedMemo ∨ relation.type = some .COMMENT then some none
    else
      match extractMemoUIDFromName relatedMemo with
      | .error _ => none
      | .ok uid => (memos.find? (·.uid = uid)).map fun row =>
        some ⟨memo.id, row.id, convertMemoRelationTypeToStore relation.type⟩

def RelationExists (memos : List MemoRecord) (uid : String) (relation : RelationInput) : Prop :=
  ∃ relatedMemo, relation.relatedMemo = some relatedMemo ∧
    (memoName uid = relatedMemo ∨ relation.type = some .COMMENT ∨
      ∃ related, extractMemoUIDFromName relatedMemo = .ok related ∧
        ∃ row ∈ memos, row.uid = related)

theorem relationTarget_isSome_iff {memos : List MemoRecord} {memo : Memo}
    {relation : RelationInput} :
    (relationTarget memos memo relation).isSome ↔ RelationExists memos memo.uid relation := by
  unfold relationTarget RelationExists
  cases hname : relation.relatedMemo with
  | none => simp
  | some relatedMemo =>
    simp only [Option.some.injEq, exists_eq_left']
    rw [← or_assoc]
    split
    · rename_i hskip
      exact iff_of_true rfl (.inl hskip)
    · rename_i hskip
      rw [or_iff_right hskip]
      cases huid : extractMemoUIDFromName relatedMemo with
      | error err => simp
      | ok uid =>
        dsimp only
        rw [Option.isSome_map, List.find?_isSome]
        constructor
        · rintro ⟨row, hrow, hid⟩
          exact ⟨uid, rfl, row, hrow, of_decide_eq_true hid⟩
        · rintro ⟨_, huid', row, hrow, hid⟩
          obtain rfl := Except.ok.inj huid'
          exact ⟨row, hrow, decide_eq_true hid⟩

/-- The answer where a relation leads to no memo; only an invalid name is not dereferenced. -/
def relationFailure (relation : RelationInput) : Status :=
  match relation.relatedMemo with
  | none => panicked
  | some relatedMemo =>
    match extractMemoUIDFromName relatedMemo with
    | .error err => ⟨.InvalidArgument, "invalid related memo name: " ++ err⟩
    | .ok _ => panicked

def relationsResult (memos : List MemoRecord) (memo : Memo) (relations : List RelationInput) :
    Except Status Unit :=
  match relations.find? fun relation => (relationTarget memos memo relation).isNone with
  | none => .ok ()
  | some relation => .error (relationFailure relation)

theorem relationsResult_ok_iff {memos : List MemoRecord} {memo : Memo}
    {relations : List RelationInput} : relationsResult memos memo relations = .ok () ↔
      ∀ relation ∈ relations, RelationExists memos memo.uid relation := by
  simp only [← relationTarget_isSome_iff]
  unfold relationsResult
  cases hfind : relations.find? fun relation => (relationTarget memos memo relation).isNone with
  | none =>
    refine iff_of_true rfl fun relation hrelation => ?_
    simpa [Option.isSome_iff_ne_none] using List.find?_eq_none.mp hfind relation hrelation
  | some relation =>
    refine iff_of_false (fun h => by cases h) fun h => ?_
    have hsome := h relation (List.mem_of_find?_eq_some hfind)
    have hnone := List.find?_some hfind
    rw [Option.isNone_iff_eq_none.mp hnone] at hsome
    cases hsome

def relationsWritten (memos : List MemoRecord) (memo : Memo) :
    List RelationInput → List MemoRelation
  | [] => []
  | relation :: relations =>
    match relationTarget memos memo relation with
    | none => []
    | some none => relationsWritten memos memo relations
    | some (some r) => r :: relationsWritten memos memo relations

variable {s : Storage} {memo : Memo} {relation : RelationInput}

theorem getMemo_map {α : Type} {f : Memo → α} {g : MemoRecord → α}
    (hf : ∀ row parent, f (row.withParent parent) = g row) (huids : (s.memos.map (·.uid)).Nodup)
    (uid : String) : (s.getMemo { uid := some uid }).map f = (s.memos.find? (·.uid = uid)).map g := by
  cases hfound : s.memos.find? (·.uid = uid) with
  | none =>
    cases hmemo : s.getMemo { uid := some uid } with
    | none => rfl
    | some memo =>
      obtain ⟨row, hrow, huid, -⟩ := Database.getMemo_uid hmemo
      exact absurd (decide_eq_true huid) (List.find?_eq_none.mp hfound row hrow)
  | some row =>
    have huid : row.uid = uid := by simpa using List.find?_some hfound
    have hrow := List.mem_of_find?_eq_some hfound
    obtain ⟨memo, hmemo⟩ := Database.exists_getMemo hrow
    rw [huid] at hmemo
    obtain ⟨row', hrow', huid', parent, -, hread⟩ := Database.getMemo_uid hmemo
    have hsame : row' = row :=
      List.inj_on_of_nodup_map huids hrow' hrow (huid'.trans huid.symm)
    rw [hmemo, ← hread, hsame]
    exact congrArg some (hf row parent)

theorem getMemo_find (huids : (s.memos.map (·.uid)).Nodup) (uid : String) :
    (s.getMemo { uid := some uid }).map (·.id) = (s.memos.find? (·.uid = uid)).map (·.id) :=
  getMemo_map (fun _ _ => rfl) huids uid

theorem setMemoRelation_error (huids : (s.memos.map (·.uid)).Nodup)
    (htarget : relationTarget s.memos memo relation = none) :
    (setMemoRelation memo relation).run s = (.error (relationFailure relation), s) := by
  rcases hname : relation.relatedMemo with _ | relatedMemo
  · unfold setMemoRelation relationFailure
    rw [hname]
    rfl
  unfold relationTarget at htarget
  unfold setMemoRelation relationFailure
  rw [hname] at htarget ⊢
  dsimp only at htarget
  split at htarget
  · cases htarget
  · rename_i hskip
    obtain ⟨hother, hreference⟩ := not_or.mp hskip
    dsimp only
    rw [if_neg hother, if_neg hreference]
    cases huid : extractMemoUIDFromName relatedMemo with
    | error err => exact Durable.run_bind_of_error (Durable.run_ofExcept_eq _ s)
    | ok uid =>
      rw [huid] at htarget
      have hnone : s.getMemo { uid := some uid } = none := by
        have hids := getMemo_find huids uid
        rw [Option.map_eq_none_iff.mp htarget] at hids
        exact Option.map_eq_none_iff.mp hids
      refine (Durable.run_bind_of_ok (Durable.run_ofExcept_eq _ s)).trans ?_
      refine (Durable.run_bind_of_ok (show Durable.get.run s = (.ok s, s) from rfl)).trans ?_
      rw [hnone]
      rfl

theorem setMemoRelation_ignored (htarget : relationTarget s.memos memo relation = some none) :
    (setMemoRelation memo relation).run s = (.ok (), s) := by
  unfold relationTarget at htarget
  rcases hname : relation.relatedMemo with _ | relatedMemo
  · rw [hname] at htarget
    cases htarget
  unfold setMemoRelation
  rw [hname] at htarget ⊢
  dsimp only at htarget
  dsimp only
  split at htarget
  · rename_i hskip
    by_cases hself : memoName memo.uid = relatedMemo
    · rw [if_pos hself]
      rfl
    · rw [if_neg hself, if_pos (hskip.resolve_left hself)]
      rfl
  · split at htarget
    · cases htarget
    · obtain ⟨row, -, hrow⟩ := Option.map_eq_some_iff.mp htarget
      cases hrow

theorem setMemoRelation_written (huids : (s.memos.map (·.uid)).Nodup) {r : MemoRelation}
    (htarget : relationTarget s.memos memo relation = some (some r)) :
    (setMemoRelation memo relation).run s = (.ok (), s.insertRelation r) := by
  unfold relationTarget at htarget
  rcases hname : relation.relatedMemo with _ | relatedMemo
  · rw [hname] at htarget
    cases htarget
  unfold setMemoRelation
  rw [hname] at htarget ⊢
  dsimp only at htarget
  split at htarget
  · cases htarget
  · rename_i hskip
    obtain ⟨hother, hreference⟩ := not_or.mp hskip
    dsimp only
    rw [if_neg hother, if_neg hreference]
    cases huid : extractMemoUIDFromName relatedMemo with
    | error err =>
      rw [huid] at htarget
      cases htarget
    | ok uid =>
      rw [huid] at htarget
      obtain ⟨row, hrow, hr⟩ := Option.map_eq_some_iff.mp htarget
      obtain rfl := Option.some.inj hr
      have hids := getMemo_find huids uid
      rw [hrow] at hids
      obtain ⟨related, hrelated, hid⟩ := Option.map_eq_some_iff.mp hids
      refine (Durable.run_bind_of_ok (Durable.run_ofExcept_eq _ s)).trans ?_
      refine (Durable.run_bind_of_ok (show Durable.get.run s = (.ok s, s) from rfl)).trans ?_
      rw [hrelated]
      dsimp only
      rw [hid]
      rfl

theorem mem_insertRelation {r r' : MemoRelation} :
    r' ∈ (s.insertRelation r).relations ↔ r' ∈ s.relations ∨ r' = r := by
  unfold Storage.insertRelation
  dsimp only
  split
  · rename_i hmem
    constructor
    · exact .inl
    · rintro (h | rfl)
      · exact h
      · exact hmem
  · rw [List.mem_append, List.mem_singleton]

theorem insertRelation_nodup {r : MemoRelation} (h : s.relations.Nodup) :
    (s.insertRelation r).relations.Nodup := by
  unfold Storage.insertRelation
  dsimp only
  split
  · exact h
  · rename_i hmem
    exact List.nodup_append.mpr ⟨h, List.nodup_singleton r, by
      intro a ha b hb
      rw [List.mem_singleton.mp hb]
      exact fun hab => hmem (hab ▸ ha)⟩

theorem setRelations_run (memo : Memo) (huids : (s.memos.map (·.uid)).Nodup)
    (hunique : s.relations.Nodup) (relations : List RelationInput) :
    ∃ rows, (Durable.forEach (setMemoRelation memo) relations).run s =
        (relationsResult s.memos memo relations, { s with relations := rows }) ∧
      rows.Nodup ∧
      ∀ r, r ∈ rows ↔ r ∈ s.relations ∨ r ∈ relationsWritten s.memos memo relations := by
  induction relations generalizing s with
  | nil =>
    refine ⟨s.relations, rfl, hunique, fun r => ?_⟩
    simp [relationsWritten]
  | cons relation relations ih =>
    cases htarget : relationTarget s.memos memo relation with
    | none =>
      refine ⟨s.relations, ?_, hunique, fun r => ?_⟩
      · refine (Durable.run_bind_of_error (setMemoRelation_error huids htarget)).trans ?_
        rw [relationsResult, List.find?_cons_of_pos (by rw [htarget]; rfl)]
      · simp [relationsWritten, htarget]
    | some target =>
      have hresult : relationsResult s.memos memo (relation :: relations) =
          relationsResult s.memos memo relations := by
        rw [relationsResult, List.find?_cons_of_neg (by rw [htarget]; exact Bool.false_ne_true)]
        rfl
      rw [hresult]
      cases target with
      | none =>
        obtain ⟨rows, hrun, hnodup, hrows⟩ := ih huids hunique
        refine ⟨rows, ?_, hnodup, fun r => ?_⟩
        · exact (Durable.run_bind_of_ok (setMemoRelation_ignored htarget)).trans hrun
        · rw [hrows, relationsWritten, htarget]
      | some r₀ =>
        obtain ⟨rows, hrun, hnodup, hrows⟩ :=
          ih (s := s.insertRelation r₀) huids (insertRelation_nodup hunique)
        refine ⟨rows, ?_, hnodup, fun r => ?_⟩
        · exact (Durable.run_bind_of_ok (setMemoRelation_written huids htarget)).trans hrun
        · rw [hrows, mem_insertRelation, relationsWritten, htarget, List.mem_cons, or_assoc]
          rfl

theorem selects_references (id : Nat) (r : MemoRelation) :
    DeleteMemoRelation.selects { memoId := some id, type := some .REFERENCE } r = true ↔
      r.memoId = id ∧ r.type = .REFERENCE := by
  unfold DeleteMemoRelation.selects asked
  simp only [Option.all_some, Option.all_none, Bool.and_true, Bool.and_eq_true, decide_eq_true_eq]
  exact and_congr eq_comm eq_comm

/-- The references of a memo are replaced, up to the first that cannot be written. -/
theorem setMemoRelations_run (memo : Memo) (huids : (s.memos.map (·.uid)).Nodup)
    (hunique : s.relations.Nodup) (relations : List RelationInput) :
    ∃ rows, (setMemoRelationsInternal memo relations).run s =
        (relationsResult s.memos memo relations, { s with relations := rows }) ∧
      rows.Nodup ∧
      ∀ r, r ∈ rows ↔ (r ∈ s.relations ∧ ¬(r.memoId = memo.id ∧ r.type = .REFERENCE)) ∨
        r ∈ relationsWritten s.memos memo relations := by
  have hkept := hunique.filter fun r =>
    !DeleteMemoRelation.selects { memoId := some memo.id, type := some .REFERENCE } r
  obtain ⟨rows, hrun, hnodup, hrows⟩ := setRelations_run (s := { s with
    relations := s.relations.filter fun r =>
      !DeleteMemoRelation.selects { memoId := some memo.id, type := some .REFERENCE } r })
    memo huids hkept relations
  refine ⟨rows, ?_, hnodup, fun r => ?_⟩
  · exact (Durable.run_bind_of_ok (a := ()) rfl).trans hrun
  · rw [hrows]
    refine or_congr_left ?_
    rw [List.mem_filter]
    refine and_congr_right fun _ => ?_
    rw [Bool.not_eq_true', ← Bool.not_eq_true, selects_references]

end relations

end Memoark.Server.WriteMemos
