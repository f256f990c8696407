import Memoark.Server.WriteAccess
import Memoark.System.Runs

/-! The visibility of comments over runs of `CreateMemo`, `CreateMemoComment`, `UpdateMemo` and
`DeleteMemo`, each of which may stop after any of its writes. -/
namespace Memoark.Server.WriteMemos
open Store Memoark.System
open Program (Durable)

structure Thread where
  memos : List MemoRecord
  comments : List MemoRelation
  nextMemoId : Nat

namespace Thread

def Follows (t : Thread) : Prop :=
  ∀ r ∈ t.comments, ∀ comment ∈ t.memos, ∀ parent ∈ t.memos,
    comment.id = r.memoId → parent.id = r.relatedMemoId → comment.visibility = parent.visibility

/-- Memos have their keys, comments have both of their ends and follow their parents. -/
structure Consistent (t : Thread) : Prop where
  ids : (t.memos.map (·.id)).Nodup
  uids : (t.memos.map (·.uid)).Nodup
  new : ∀ row ∈ t.memos, row.id < t.nextMemoId
  comment : ∀ r ∈ t.comments, ∃ row ∈ t.memos, row.id = r.memoId
  parent : ∀ r ∈ t.comments, ∃ row ∈ t.memos, row.id = r.relatedMemoId
  follows : t.Follows

def insertMemo (t : Thread) (row : MemoRecord) : Thread :=
  { t with memos := t.memos ++ [row], nextMemoId := t.nextMemoId + 1 }

def insertComment (t : Thread) (r : MemoRelation) : Thread :=
  { t with comments := if r ∈ t.comments then t.comments else t.comments ++ [r] }

def updateMemo (t : Thread) (id : Nat) (u : UpdateMemo) : Thread :=
  { t with memos := t.memos.map fun row => if row.id = id then row.updated u else row }

namespace Consistent

variable {t : Thread}

theorem row_eq (h : t.Consistent) {row row' : MemoRecord} (hrow : row ∈ t.memos)
    (hrow' : row' ∈ t.memos) (hid : row.id = row'.id) : row = row' :=
  List.inj_on_of_nodup_map h.ids hrow hrow' hid

theorem row_eq_of_uid (h : t.Consistent) {row row' : MemoRecord} (hrow : row ∈ t.memos)
    (hrow' : row' ∈ t.memos) (huid : row.uid = row'.uid) : row = row' :=
  List.inj_on_of_nodup_map h.uids hrow hrow' huid

theorem insertMemo (h : t.Consistent) {row : MemoRecord} (hid : row.id = t.nextMemoId)
    (huid : ∀ row' ∈ t.memos, row'.uid ≠ row.uid) : (t.insertMemo row).Consistent where
  ids := by
    show ((t.memos ++ [row]).map (·.id)).Nodup
    rw [List.map_append, List.nodup_append]
    refine ⟨h.ids, List.nodup_singleton _, ?_⟩
    rintro _ hmem _ hlast rfl
    obtain ⟨row', hrow', heq⟩ := List.mem_map.mp hmem
    obtain rfl := List.mem_singleton.mp hlast
    have hsame : row'.id = row.id := heq
    have hlt := h.new row' hrow'
    omega
  uids := by
    show ((t.memos ++ [row]).map (·.uid)).Nodup
    rw [List.map_append, List.nodup_append]
    refine ⟨h.uids, List.nodup_singleton _, ?_⟩
    rintro _ hmem _ hlast rfl
    obtain ⟨row', hrow', heq⟩ := List.mem_map.mp hmem
    obtain rfl := List.mem_singleton.mp hlast
    exact huid row' hrow' heq
  new := by
    intro row' hrow'
    show row'.id < t.nextMemoId + 1
    rcases List.mem_append.mp hrow' with hold | hlast
    · have hlt := h.new row' hold
      omega
    · rw [List.mem_singleton.mp hlast]
      omega
  comment := by
    intro r hr
    obtain ⟨row', hrow', heq⟩ := h.comment r hr
    exact ⟨row', List.mem_append_left _ hrow', heq⟩
  parent := by
    intro r hr
    obtain ⟨row', hrow', heq⟩ := h.parent r hr
    exact ⟨row', List.mem_append_left _ hrow', heq⟩
  follows := by
    intro r hr comment hcomment parent hparent hc hp
    have hend : ∀ end_ ∈ t.memos ++ [row], ∀ id, (∃ row ∈ t.memos, row.id = id) →
        end_.id = id → end_ ∈ t.memos := by
      intro end_ hend id hold heq
      rcases List.mem_append.mp hend with hmem | hlast
      · exact hmem
      · obtain ⟨row', hrow', hid'⟩ := hold
        have hlt := h.new row' hrow'
        rw [List.mem_singleton.mp hlast] at heq
        omega
    exact h.follows r hr comment (hend comment hcomment _ (h.comment r hr) hc) parent
      (hend parent hparent _ (h.parent r hr) hp) hc hp

theorem insertComment (h : t.Consistent) {comment parent : MemoRecord}
    (hcomment : comment ∈ t.memos) (hparent : parent ∈ t.memos)
    (hvisibility : comment.visibility = parent.visibility) (type : MemoRelationType) :
    (t.insertComment ⟨comment.id, parent.id, type⟩).Consistent := by
  have hmem : ∀ r ∈ (t.insertComment ⟨comment.id, parent.id, type⟩).comments,
      r ∈ t.comments ∨ r = ⟨comment.id, parent.id, type⟩ := by
    intro r hr
    simp only [Thread.insertComment] at hr
    split at hr
    · exact .inl hr
    · rcases List.mem_append.mp hr with hold | hlast
      · exact .inl hold
      · exact .inr (List.mem_singleton.mp hlast)
  constructor
  · exact h.ids
  · exact h.uids
  · exact h.new
  · intro r hr
    rcases hmem r hr with hold | rfl
    · exact h.comment r hold
    · exact ⟨comment, hcomment, rfl⟩
  · intro r hr
    rcases hmem r hr with hold | rfl
    · exact h.parent r hold
    · exact ⟨parent, hparent, rfl⟩
  · intro r hr row hrow row' hrow' hc hp
    rcases hmem r hr with hold | rfl
    · exact h.follows r hold row hrow row' hrow' hc hp
    · rw [h.row_eq hrow hcomment hc, h.row_eq hrow' hparent hp]
      exact hvisibility

theorem filterComments (h : t.Consistent) (keep : MemoRelation → Bool) :
    ({ t with comments := t.comments.filter keep } : Thread).Consistent where
  ids := h.ids
  uids := h.uids
  new := h.new
  comment := fun r hr => h.comment r (List.mem_of_mem_filter hr)
  parent := fun r hr => h.parent r (List.mem_of_mem_filter hr)
  follows := fun r hr => h.follows r (List.mem_of_mem_filter hr)

theorem deleteMemo (h : t.Consistent) {id : Nat}
    (huntouched : ∀ r ∈ t.comments, r.memoId ≠ id ∧ r.relatedMemoId ≠ id) :
    ({ t with memos := t.memos.filter (·.id ≠ id) } : Thread).Consistent where
  ids := h.ids.sublist (List.filter_sublist.map _)
  uids := h.uids.sublist (List.filter_sublist.map _)
  new := fun row hrow => h.new row (List.mem_of_mem_filter hrow)
  comment := by
    intro r hr
    obtain ⟨row, hrow, heq⟩ := h.comment r hr
    refine ⟨row, List.mem_filter.mpr ⟨hrow, ?_⟩, heq⟩
    simpa [heq] using (huntouched r hr).1
  parent := by
    intro r hr
    obtain ⟨row, hrow, heq⟩ := h.parent r hr
    refine ⟨row, List.mem_filter.mpr ⟨hrow, ?_⟩, heq⟩
    simpa [heq] using (huntouched r hr).2
  follows := fun r hr comment hcomment parent hparent =>
    h.follows r hr comment (List.mem_of_mem_filter hcomment) parent (List.mem_of_mem_filter hparent)

theorem mem_updateMemo {id : Nat} {u : UpdateMemo} {row' : MemoRecord}
    (hrow' : row' ∈ (t.updateMemo id u).memos) :
    ∃ row ∈ t.memos, row'.id = row.id ∧
      row'.visibility = if row.id = id then u.visibility.getD row.visibility else row.visibility := by
  obtain ⟨row, hrow, rfl⟩ := List.mem_map.mp hrow'
  by_cases hid : row.id = id
  · rw [if_pos hid]
    exact ⟨row, hrow, rfl, (if_pos hid).symm⟩
  · rw [if_neg hid]
    exact ⟨row, hrow, rfl, (if_neg hid).symm⟩

theorem updateMemo (h : t.Consistent) {id : Nat} {u : UpdateMemo}
    (hkeep : ∀ visibility, u.visibility = some visibility →
      (∃ r ∈ t.comments, r.memoId = id ∨ r.relatedMemoId = id) →
        ∀ row ∈ t.memos, row.id = id → row.visibility = visibility) :
    (t.updateMemo id u).Consistent := by
  have hids : (t.updateMemo id u).memos.map (·.id) = t.memos.map (·.id) := by
    simp only [Thread.updateMemo, List.map_map]
    refine List.map_congr_left fun row _ => ?_
    by_cases hid : row.id = id <;> simp [hid, MemoRecord.updated, Memo.record, MemoRecord.withParent,
      Memo.updated]
  have huids : (t.updateMemo id u).memos.map (·.uid) = t.memos.map (·.uid) := by
    simp only [Thread.updateMemo, List.map_map]
    refine List.map_congr_left fun row _ => ?_
    by_cases hid : row.id = id <;> simp [hid, MemoRecord.updated, Memo.record, MemoRecord.withParent,
      Memo.updated]
  have hmem : ∀ i, (∃ row ∈ t.memos, row.id = i) → ∃ row ∈ (t.updateMemo id u).memos, row.id = i := by
    intro i hi
    have hi' : i ∈ t.memos.map (·.id) := List.mem_map.mpr hi
    rw [← hids] at hi'
    exact List.mem_map.mp hi'
  have hvisibility : ∀ r ∈ t.comments, ∀ row' ∈ (t.updateMemo id u).memos,
      (row'.id = r.memoId ∨ row'.id = r.relatedMemoId) →
        ∃ row ∈ t.memos, row'.id = row.id ∧ row'.visibility = row.visibility := by
    intro r hr row' hrow' hend
    obtain ⟨row, hrow, hid, hvis⟩ := mem_updateMemo hrow'
    refine ⟨row, hrow, hid, ?_⟩
    rw [hvis]
    by_cases hrowid : row.id = id
    · rw [if_pos hrowid]
      cases hu : u.visibility with
      | none => rfl
      | some visibility =>
        have htouch : ∃ r ∈ t.comments, r.memoId = id ∨ r.relatedMemoId = id := by
          refine ⟨r, hr, ?_⟩
          rcases hend with heq | heq
          · exact .inl (by omega)
          · exact .inr (by omega)
        exact (hkeep visibility hu htouch row hrow hrowid).symm
    · exact if_neg hrowid
  constructor
  · rw [hids]
    exact h.ids
  · rw [huids]
    exact h.uids
  · intro row' hrow'
    obtain ⟨row, hrow, hid, -⟩ := mem_updateMemo hrow'
    rw [hid]
    exact h.new row hrow
  · exact fun r hr => hmem _ (h.comment r hr)
  · exact fun r hr => hmem _ (h.parent r hr)
  · intro r hr comment hcomment parent hparent hc hp
    obtain ⟨row, hrow, hid, hvis⟩ := hvisibility r hr comment hcomment (.inl hc)
    obtain ⟨row', hrow', hid', hvis'⟩ := hvisibility r hr parent hparent (.inr hp)
    rw [hvis, hvis']
    exact h.follows r hr row hrow row' hrow' (hid ▸ hc) (hid' ▸ hp)

end Consistent

end Thread

section frame

def thread (s : Storage) : Thread :=
  ⟨s.memos, s.relations.filter (·.type = .COMMENT), s.nextMemoId⟩

variable {ε ε' α β : Type}

def KeepsThread (p : Durable Storage Table ε α) : Prop :=
  ∀ t, p.Contract (thread · = t) (thread · = t) fun _ s => thread s = t

namespace KeepsThread

theorem pure {a : α} : KeepsThread (Pure.pure a : Durable Storage Table ε α) :=
  fun _ => .pure fun _ hs => hs

theorem fail {e : ε} : KeepsThread (Durable.fail e : Durable Storage Table ε α) := fun _ => .fail

theorem commit {label : Table} {f : Storage → Storage} (h : ∀ s, thread (f s) = thread s) :
    KeepsThread (Durable.commit label f : Durable Storage Table ε Unit) := by
  intro t
  exact .commit (fun s hs => (h s).trans hs) fun s hs => (h s).trans hs

theorem bind {p : Durable Storage Table ε α} {q : α → Durable Storage Table ε β}
    (hp : KeepsThread p) (hq : ∀ a, KeepsThread (q a)) : KeepsThread (p >>= q) :=
  fun t => (hp t).bind fun a => hq a t

theorem get {q : Storage → Durable Storage Table ε β} (hq : ∀ s, KeepsThread (q s)) :
    KeepsThread (Durable.get >>= q) := by
  intro t
  refine .get fun s hs => ?_
  exact (hq s t).mono (fun s' heq => heq ▸ hs) fun _ _ h => h

theorem ofExcept {x : Except ε α} {q : α → Durable Storage Table ε β}
    (hq : ∀ a, x = .ok a → KeepsThread (q a)) : KeepsThread (Durable.ofExcept x >>= q) :=
  fun t => .ofExcept fun a ha => hq a ha t

theorem mapFailure {p : Durable Storage Table ε α} {g : ε → ε'} (hp : KeepsThread p) :
    KeepsThread (p.mapFailure g) := fun t => (hp t).mapFailure

theorem forEach {f : α → Durable Storage Table ε Unit} {as : List α}
    (h : ∀ a ∈ as, KeepsThread (f a)) : KeepsThread (Durable.forEach f as) :=
  fun t => .forEach fun a ha => h a ha t

theorem ite {c : Prop} [Decidable c] {p p' : Durable Storage Table ε α} (h : KeepsThread p)
    (h' : ¬c → KeepsThread p') : KeepsThread (if c then p else p') :=
  fun t => .ite (fun _ => h t) fun hc => h' hc t

theorem contract {p : Durable Storage Table ε α} (h : KeepsThread p) {I : Storage → Prop}
    (P : Thread → Prop) (hI : ∀ s, P (thread s) → I s) :
    p.Contract I (fun s => P (thread s)) fun _ s => P (thread s) where
  writes := by
    intro s hs w hw
    have heq := (h (thread s)).writes s rfl w hw
    refine hI w.2 ?_
    rw [heq]
    exact hs
  result := by
    intro s a s' hs hrun
    rw [(h (thread s)).result s a s' rfl hrun]
    exact hs

end KeepsThread

theorem keepsThread_deleteAttachment (env : Env) (id : Nat) :
    KeepsThread (deleteAttachment env id) := by
  refine .get fun s => ?_
  split
  · exact .fail
  · exact .ite .fail fun _ => .commit fun _ => rfl

theorem keepsThread_setMemoAttachmentsInternal (env : Env) (user : UserRecord) (memo : Memo)
    (names : List String) : KeepsThread (setMemoAttachmentsInternal env user memo names) := by
  refine .get fun s => .ofExcept fun normalized _ => .bind (.forEach fun a _ => ?_) fun _ =>
    .forEach fun (a, index) _ => .mapFailure (.commit fun _ => rfl)
  exact .ite .fail fun _ => .mapFailure (keepsThread_deleteAttachment env a.id)

theorem thread_deleteReferences (s : Storage) (id : Nat) :
    (s.relations.filter fun r =>
        !DeleteMemoRelation.selects { memoId := some id, type := some .REFERENCE } r).filter
      (·.type = .COMMENT) = s.relations.filter (·.type = .COMMENT) := by
  rw [List.filter_filter]
  refine List.filter_congr fun r _ => ?_
  cases htype : r.type with
  | COMMENT => simp [DeleteMemoRelation.selects, asked, htype]
  | REFERENCE => rfl

theorem thread_insertReference (s : Storage) (memoId relatedMemoId : Nat) :
    thread (s.insertRelation ⟨memoId, relatedMemoId, .REFERENCE⟩) = thread s := by
  unfold thread Storage.insertRelation
  dsimp only
  split
  · rfl
  · rw [List.filter_append]
    simp

theorem keepsThread_setMemoRelationsInternal (memo : Memo) (relations : List RelationInput) :
    KeepsThread (setMemoRelationsInternal memo relations) := by
  refine .bind (.mapFailure (.commit fun s => ?_)) fun _ => .forEach fun relation _ => ?_
  · show Thread.mk _ _ _ = Thread.mk _ _ _
    rw [thread_deleteReferences]
  · unfold setMemoRelation
    split
    · exact .fail
    refine .ite .pure fun _ => .ite .pure fun hcomment => .ofExcept fun uid _ => .get fun s => ?_
    split
    · exact .fail
    · have htype : convertMemoRelationTypeToStore relation.type = .REFERENCE := by
        cases htype : relation.type with
        | none => rfl
        | some type =>
          cases type with
          | REFERENCE => rfl
          | COMMENT => exact absurd htype hcomment
      rw [htype]
      exact .mapFailure (.commit fun s => thread_insertReference s _ _)

end frame

section create

variable {t : Thread} {env : Env} {userID : Nat}

def Sound (s : Storage) : Prop := (thread s).Consistent

theorem keepsThread_setNewAttachments (user : UserRecord) (memo : Memo) (names : List String) :
    KeepsThread (setNewAttachments env user memo names) := by
  refine .ite .pure fun _ => .bind (.mapFailure ?_) fun _ => .get fun _ => .pure
  exact keepsThread_setMemoAttachmentsInternal env user memo names

theorem keepsThread_setNewRelations (memo : Memo) (relations : List RelationInput) :
    KeepsThread (setNewRelations memo relations) := by
  refine .ite .pure fun _ => .mapFailure ?_
  exact keepsThread_setMemoRelationsInternal memo relations

theorem memoMessage_name {db : Database} {memo : Memo} {reactions : List ReactionRecord}
    {attachments : List AttachmentRecord} {message : Api.Memo}
    (h : memoMessage env db userID memo reactions attachments = .ok message) :
    message.name = memoName memo.uid := by
  rw [memoMessage] at h
  obtain ⟨relations, -, h⟩ := Program.bind_ok h
  have hconverted : convertMemoFromStore db env.generateSnippet memo reactions attachments
      relations = .ok message := by
    cases hconvert : convertMemoFromStore db env.generateSnippet memo reactions attachments
        relations with
    | error err =>
      rw [hconvert] at h
      cases err <;> cases h
    | ok message' =>
      rw [hconvert] at h
      cases h
      rfl
  rw [convertMemoFromStore] at hconverted
  have hinverted := @convertMemo_ok env.toServices _ _ _ _ _ _ _ hconverted
  obtain ⟨_, _, -, -, rfl⟩ := hinverted
  rfl

theorem newMemo_visibility {user : UserRecord} {memoId : String} {memo : MemoInput} {create : Memo}
    (h : newMemo env user memoId memo = .ok create) :
    create.visibility = convertVisibilityToStore memo.visibility := by
  rw [newMemo] at h
  obtain ⟨uid, -, h⟩ := Program.bind_ok h
  obtain ⟨limit, -, h⟩ := Program.bind_ok h
  obtain ⟨_, -, h⟩ := Program.bind_ok h
  obtain ⟨built, hbuilt, h⟩ := Program.bind_ok h
  cases h
  show built.visibility = _
  rw [rebuildPayload] at hbuilt
  split at hbuilt
  · cases hbuilt
  · rename_i hpayload
    cases hbuilt
    obtain ⟨data, -, rfl⟩ := Option.map_eq_some_iff.mp hpayload
    rfl

structure NewRow (t : Thread) (uid : String) (visibility : Visibility) (row : MemoRecord) :
    Prop where
  id : row.id = t.nextMemoId
  uid : row.uid = uid
  unused : ∀ row' ∈ t.memos, row'.uid ≠ row.uid
  visibility : row.visibility = visibility

theorem storeCreateMemo_contract (ht : t.Consistent) (create : Memo) :
    (storeCreateMemo env create).Contract Sound (thread · = t) fun memo s =>
      ∃ row, thread s = t.insertMemo row ∧ NewRow t memo.uid create.visibility row := by
  refine .ite (fun _ => .mapFailure (.get fun s hs => .ite (fun _ => .fail) fun hunused => ?_))
    fun _ => .fail
  subst hs
  have hnew : ∀ row ∈ (thread s).memos, row.uid ≠ create.uid := by
    intro row hrow heq
    exact hunused (List.any_eq_true.mpr ⟨row, hrow, by simpa using heq⟩)
  refine .bind (.commit (R := fun _ s' => ∃ row, thread s' = (thread s).insertMemo row ∧
    NewRow (thread s) create.uid create.visibility row) ?_ ?_) fun _ => .pure fun _ h => h
  · rintro _ rfl
    exact ht.insertMemo rfl hnew
  · rintro _ rfl
    exact ⟨_, rfl, rfl, rfl, hnew, rfl⟩

theorem createMemo_contract (ht : t.Consistent) (memoId : String) (memo : MemoInput) :
    (createMemo env userID memoId memo).Contract Sound (thread · = t) fun message s =>
      ∃ row uid, thread s = t.insertMemo row ∧
        NewRow t uid (convertVisibilityToStore memo.visibility) row ∧
          message.name = memoName uid := by
  refine .get fun s hs => .ofExcept fun user _ => .ofExcept fun create hcreate => ?_
  rw [← newMemo_visibility hcreate]
  refine .bind ((storeCreateMemo_contract ht create).mono (fun _ h => h ▸ hs) fun _ _ h => h)
    fun created => ?_
  let P : Thread → Prop := fun t' => ∃ row, t' = t.insertMemo row ∧
    NewRow t created.uid create.visibility row
  have hsound : ∀ s, P (thread s) → Sound s := by
    rintro s ⟨row, hrow, hnew⟩
    rw [Sound, hrow]
    exact ht.insertMemo hnew.id hnew.unused
  refine .bind ((keepsThread_setNewAttachments user created _).contract P hsound)
    fun attachments => .bind ((keepsThread_setNewRelations created _).contract P hsound)
    fun _ => .get fun s hs => .last fun message hmessage _ heq => ?_
  subst heq
  obtain ⟨row, hrow, hnew⟩ := hs
  exact ⟨row, created.uid, hrow, hnew, memoMessage_name hmessage⟩

end create

section comment

variable {t : Thread} {env : Env} {userID : Nat}

theorem getMemo_row {s : Storage} {uid : String} {memo : Memo}
    (h : s.getMemo { uid := some uid } = some memo) :
    ∃ row ∈ (thread s).memos, row.uid = uid ∧ ∃ parent ∈ s.parents row,
      row.withParent parent = memo := Database.getMemo_uid h

theorem foundMemo_ok {found : Option Memo} {memo : Memo} (h : foundMemo found = .ok memo) :
    found = some memo := by
  cases found with
  | none => cases h
  | some memo' =>
    cases h
    rfl

theorem checkMemoComment_ok {s : Storage} {name : String} {comment : Option MemoInput}
    {checked : Memo × MemoInput}
    (h : checkMemoComment s.toDatabase userID name comment = .ok checked) :
    ∃ row ∈ (thread s).memos, row.id = checked.1.id ∧ row.visibility = checked.1.visibility ∧
      convertVisibilityToStore checked.2.visibility = checked.1.visibility := by
  rw [checkMemoComment] at h
  obtain ⟨uid, -, h⟩ := Program.bind_ok h
  obtain ⟨relatedMemo, hfound, h⟩ := Program.bind_ok h
  obtain ⟨user, -, h⟩ := Program.bind_ok h
  obtain ⟨_, -, h⟩ := Program.bind_ok h
  obtain ⟨row, hrow, -, parent, -, rfl⟩ := getMemo_row (foundMemo_ok hfound)
  split at h
  · cases h
  · cases h
    exact ⟨row, hrow, rfl, rfl, convertVisibility_roundTrip _⟩

theorem memoOfMessage_ok {db : Database} {message : Api.Memo} {memo : Memo} {uid : String}
    (hname : message.name = memoName uid) (h : memoOfMessage db message = .ok memo) :
    db.getMemo { uid := some uid } = some memo := by
  rw [memoOfMessage] at h
  obtain ⟨uid', huid, h⟩ := Program.bind_ok h
  have hname' := extractMemoUID_ok (Program.mapError_ok huid)
  rw [hname] at hname'
  obtain rfl := memoName_inj hname'
  split at h
  · cases h
  · rename_i hfound
    cases h
    exact hfound

theorem thread_insertRelation_comment (s : Storage) (memoId relatedMemoId : Nat) :
    thread (s.insertRelation ⟨memoId, relatedMemoId, .COMMENT⟩) =
      (thread s).insertComment ⟨memoId, relatedMemoId, .COMMENT⟩ := by
  unfold thread Storage.insertRelation Thread.insertComment
  dsimp only
  by_cases hmem : (⟨memoId, relatedMemoId, .COMMENT⟩ : MemoRelation) ∈ s.relations
  · rw [if_pos hmem, if_pos (List.mem_filter.mpr ⟨hmem, rfl⟩)]
  · rw [if_neg hmem, if_neg fun h => hmem (List.mem_of_mem_filter h), List.filter_append]
    rfl

theorem keepsThread_notifyCreator (creatorID : Nat) (visibility : Api.Visibility)
    (memo relatedMemo : Memo) : KeepsThread (notifyCreator creatorID visibility memo relatedMemo) := by
  unfold notifyCreator
  split
  · exact .pure
  · exact .ite .pure fun _ => .mapFailure (.commit fun _ => rfl)

theorem createMemoComment_contract (ht : t.Consistent) (name : String)
    (comment : Option MemoInput) (commentId : String) :
    (createMemoComment env userID name comment commentId).Contract Sound (thread · = t)
      fun _ s => Sound s := by
  refine .get fun s hs => .ofExcept fun (relatedMemo, input) hchecked => ?_
  obtain ⟨parentRow, hparent, hparentId, hparentVisibility, hinput⟩ := checkMemoComment_ok hchecked
  rw [hs] at hparent
  refine .bind (.mapFailure ((createMemo_contract ht commentId input).mono (fun _ h => h ▸ hs)
    fun _ _ h => h)) fun memoComment => .get fun s₁ hs₁ => .ofExcept fun memo hmemo => ?_
  obtain ⟨row, uid, hthread, hnew, hmessage⟩ := hs₁
  -- The memo that is read again is the row that was created.
  have hconsistent := ht.insertMemo hnew.id hnew.unused
  have hrow : row ∈ (t.insertMemo row).memos := List.mem_append_right _ (List.mem_singleton_self _)
  have hmemoId : memo.id = row.id := by
    obtain ⟨row', hrow', huid', parent, -, rfl⟩ := getMemo_row (memoOfMessage_ok hmessage hmemo)
    rw [hthread] at hrow'
    rw [hconsistent.row_eq_of_uid hrow' hrow (huid'.trans hnew.uid.symm)]
    rfl
  have hcommented : (thread (s₁.insertRelation ⟨memo.id, relatedMemo.id, .COMMENT⟩)).Consistent := by
    rw [thread_insertRelation_comment, hthread, hmemoId, ← hparentId]
    refine hconsistent.insertComment hrow (List.mem_append_left _ hparent) ?_ .COMMENT
    rw [hnew.visibility, hinput, hparentVisibility]
  refine .bind (Q := fun _ s => Sound s) (.mapFailure (.commit ?_ ?_)) fun _ => ?_
  · rintro _ rfl
    exact hcommented
  · rintro _ rfl
    exact hcommented
  · refine KeepsThread.contract (.get fun s => .ofExcept fun relations _ => .ofExcept
      fun creator _ => .bind ?_ fun _ => .pure) Thread.Consistent fun _ h => h
    exact keepsThread_notifyCreator creator.id memoComment.visibility memo relatedMemo

end comment

section delete

variable {env : Env} {userID : Nat}

theorem thread_deleteRelations (s : Storage) (delete : DeleteMemoRelation) :
    thread { s with relations := s.relations.filter fun r => !delete.selects r } =
      { thread s with comments := (thread s).comments.filter fun r => !delete.selects r } := by
  unfold thread
  dsimp only
  rw [List.filter_filter, List.filter_filter]
  congr 1
  exact List.filter_congr fun r _ => Bool.and_comm _ _

theorem storeDeleteMemo_contract (id : Nat) :
    (storeDeleteMemo env id).Contract Sound Sound fun _ s => Sound s := by
  have hdeleted : ∀ (delete : DeleteMemoRelation) (s : Storage), Sound s →
      Sound { s with relations := s.relations.filter fun r => !delete.selects r } := by
    intro delete s hs
    rw [Sound, thread_deleteRelations]
    exact Thread.Consistent.filterComments hs _
  let Source : Thread → Prop := fun t => t.Consistent ∧ ∀ r ∈ t.comments, r.memoId ≠ id
  let Untouched : Thread → Prop := fun t =>
    t.Consistent ∧ ∀ r ∈ t.comments, r.memoId ≠ id ∧ r.relatedMemoId ≠ id
  refine .bind (Q := fun _ s => Source (thread s)) (.commit (fun s hs => hdeleted _ s hs)
    fun s hs => ⟨hdeleted _ s hs, ?_⟩) fun _ => .bind (Q := fun _ s => Untouched (thread s))
      (.commit (fun s hs => hdeleted _ s hs.1) fun s hs => ⟨hdeleted _ s hs.1, ?_⟩) fun _ =>
        .get fun s hs => .bind (Q := fun _ s => Untouched (thread s)) ?_ fun _ =>
          .commit (fun s hs => Thread.Consistent.deleteMemo hs.1 hs.2)
            fun s hs => Thread.Consistent.deleteMemo hs.1 hs.2
  · intro r hr
    rw [thread_deleteRelations] at hr
    have hkept := (List.mem_filter.mp hr).2
    intro heq
    simp [DeleteMemoRelation.selects, asked, heq] at hkept
  · intro r hr
    rw [thread_deleteRelations] at hr
    obtain ⟨hold, hkept⟩ := List.mem_filter.mp hr
    refine ⟨hs.2 r hold, fun heq => ?_⟩
    simp [DeleteMemoRelation.selects, asked, heq] at hkept
  · have hkeep : KeepsThread (Durable.forEach (fun a : AttachmentRecord => deleteAttachment env a.id)
        (s.listAttachments { memoId := some id })) :=
      .forEach fun a _ => keepsThread_deleteAttachment env a.id
    exact (hkeep.contract Untouched fun _ h => h.1).mono (fun _ h => h ▸ hs) fun _ _ h => h

theorem deleteMemo_contract (name : String) :
    (deleteMemo env userID name).Contract Sound Sound fun _ s => Sound s := by
  refine .get fun s hs => .ofExcept fun memo _ => .bind (Q := fun _ s => Sound s)
    (Durable.Contract.mono (.forEach (P := Sound) fun r _ =>
      .mapFailure (storeDeleteMemo_contract r.memoId)) (fun _ h => h ▸ hs) fun _ _ h => h)
    fun _ => .mapFailure (storeDeleteMemo_contract memo.id)

end delete

section update

variable {t : Thread} {env : Env} {userID : Nat} {call : UpdateCall}

def Thread.IsComment (t : Thread) (id : Nat) : Prop := ∃ r ∈ t.comments, r.memoId = id

def Thread.HasComments (t : Thread) (id : Nat) : Prop := ∃ r ∈ t.comments, r.relatedMemoId = id

theorem applyPath_kept {extractAll : ExtractAll} {request : UpdateMemoRequest} {answers : Answers}
    {d d' : Draft} {path : Path} (h : applyPath extractAll request answers d path = .ok d') :
    d'.memo.id = d.memo.id ∧ d'.memo.parentUid = d.memo.parentUid ∧
      (path ≠ .visibility → d'.visibility = d.visibility) ∧
      (path = .visibility → ∃ visibility,
        updatedVisibility request answers d.memo = .ok visibility ∧
          d'.visibility = some visibility) := by
  cases applyPath_ok h with
  | content hm =>
    obtain ⟨data, -, rfl⟩ := Option.map_eq_some_iff.mp hm
    exact ⟨rfl, rfl, fun _ => rfl, nofun⟩
  | visibility hv => exact ⟨rfl, rfl, fun hpath => absurd rfl hpath, fun _ => ⟨_, hv, rfl⟩⟩
  | _ => exact ⟨rfl, rfl, fun _ => rfl, nofun⟩

structure DraftOf (t : Thread) (call : UpdateCall) (row : MemoRecord) (parent : Option String)
    (rest : List Path) (d : Draft) : Prop where
  id : d.memo.id = row.id
  parent : d.memo.parentUid = parent
  paths : ∀ path ∈ rest, path ∈ call.memo.paths
  named : d.visibility.isSome → .visibility ∈ call.memo.paths
  pending : .visibility ∈ call.memo.paths → .visibility ∈ rest ∨ d.visibility.isSome
  comment : ∀ visibility, d.visibility = some visibility → t.IsComment row.id →
    visibility = row.visibility
  topLevel : ∀ visibility, d.visibility = some visibility → ¬t.IsComment row.id →
    visibility = convertVisibilityToStore call.memo.visibility

theorem isComment_iff (s : Storage) (hs : Sound s) {row : MemoRecord} {parent : Option String}
    (h : parent ∈ s.parents row) : (thread s).IsComment row.id ↔ parent.isSome := by
  constructor
  · rintro ⟨r, hr, hid⟩
    cases parent with
    | some uid => rfl
    | none =>
      unfold Database.parents at h
      split at h
      · rename_i hnone
        have hmem : r ∈ s.relations.filter fun r => r.memoId = row.id ∧ r.type = .COMMENT := by
          obtain ⟨hr, htype⟩ := List.mem_filter.mp hr
          exact List.mem_filter.mpr ⟨hr, by simpa using ⟨hid, by simpa using htype⟩⟩
        rw [hnone] at hmem
        cases hmem
      · obtain ⟨r', hr', hnone⟩ := List.mem_map.mp h
        obtain ⟨hr', hcomment⟩ := List.mem_filter.mp hr'
        have htype : r'.type = .COMMENT := by
          have hboth : r'.memoId = row.id ∧ r'.type = .COMMENT := by simpa using hcomment
          exact hboth.2
        obtain ⟨parentRow, hparent, hparentId⟩ :=
          hs.parent r' (List.mem_filter.mpr ⟨hr', by simpa using htype⟩)
        have hfind := List.find?_eq_none.mp (Option.map_eq_none_iff.mp hnone) parentRow hparent
        simp [hparentId] at hfind
  · intro hsome
    cases parent with
    | none => cases hsome
    | some uid =>
      obtain ⟨r, hr, hid, htype, -⟩ := Database.exists_parent_row h
      exact ⟨r, List.mem_filter.mpr ⟨hr, by simpa using htype⟩, hid⟩

theorem parent_visibility {s : Storage} (hs : Sound s) {row : MemoRecord}
    (hrow : row ∈ s.memos) {uid : String} (hparent : some uid ∈ s.parents row)
    {s' : Storage} (hthread : thread s' = thread s) {memo : Memo}
    (hmemo : s'.getMemo { uid := some uid } = some memo) : memo.visibility = row.visibility := by
  obtain ⟨r, hr, hid, htype, parentRow, hparentRow, hparentId, hparentUid⟩ :=
    Database.exists_parent_row hparent
  obtain ⟨found, hfound, hfoundUid, _, -, rfl⟩ := getMemo_row hmemo
  rw [hthread] at hfound
  rw [hs.row_eq_of_uid hfound hparentRow (hfoundUid.trans hparentUid.symm)]
  exact (hs.follows r (List.mem_filter.mpr ⟨hr, by simpa using htype⟩) row hrow parentRow
    hparentRow hid.symm hparentId).symm

theorem keepsThread_setChildren (user : UserRecord) (memo : Memo) (path : Path) :
    KeepsThread (setChildren env call user memo path) := by
  unfold setChildren
  split
  · exact .mapFailure (keepsThread_setMemoAttachmentsInternal env user memo call.attachments)
  · exact .mapFailure (keepsThread_setMemoRelationsInternal memo call.relations)
  · exact .pure

theorem updateRound_contract {s : Storage} (hs : Sound s) {row : MemoRecord}
    (hrow : row ∈ s.memos) {parent : Option String} (hparent : parent ∈ s.parents row)
    (user : UserRecord) (d : Draft) (path : Path) (rest : List Path) :
    (updateRound env call user d path).Contract (thread · = thread s)
      (fun s' => thread s' = thread s ∧ DraftOf (thread s) call row parent (path :: rest) d)
      fun d' s' => thread s' = thread s ∧ DraftOf (thread s) call row parent rest d' := by
  refine .bind (Q := fun _ s' => thread s' = thread s ∧
    DraftOf (thread s) call row parent (path :: rest) d) ?_ fun _ => .get fun s' hs' =>
      .last fun d' happly _ heq => ?_
  · have hkeep : KeepsThread (setChildren env call user d.memo path) :=
      keepsThread_setChildren user d.memo path
    constructor
    · intro s' hs'
      exact (hkeep (thread s)).writes s' hs'.1
    · intro s' a s'' hs' hrun
      exact ⟨(hkeep (thread s)).result s' a s'' hs'.1 hrun, hs'.2⟩
  · obtain ⟨hthread, hd⟩ := hs'
    rw [heq]
    refine ⟨hthread, ?_⟩
    obtain ⟨hid, hparentUid, hother, hvisibility⟩ := applyPath_kept happly
    have hiff := isComment_iff s hs hparent
    by_cases hpath : path = .visibility
    · obtain ⟨visibility, hupdated, hset⟩ := hvisibility hpath
      have hnamed : .visibility ∈ call.memo.paths := hpath ▸ hd.paths path List.mem_cons_self
      rw [updatedVisibility, hd.parent] at hupdated
      constructor
      · exact hid.trans hd.id
      · exact hparentUid.trans hd.parent
      · exact fun p hp => hd.paths p (List.mem_cons_of_mem _ hp)
      · exact fun _ => hnamed
      · exact fun _ => .inr (by rw [hset]; rfl)
      · intro visibility' hvisibility' hcomment
        obtain rfl : visibility = visibility' := Option.some.inj (hset.symm.trans hvisibility')
        cases parent with
        | none => cases hiff.mp hcomment
        | some uid =>
          rw [answers, hd.parent] at hupdated
          simp only [Option.bind_some] at hupdated
          cases hfound : s'.getMemo { uid := some uid } with
          | none =>
            rw [hfound] at hupdated
            cases hupdated
          | some memo =>
            rw [hfound] at hupdated
            cases hupdated
            exact parent_visibility hs hrow hparent hthread hfound
      · intro visibility' hvisibility' htop
        obtain rfl : visibility = visibility' := Option.some.inj (hset.symm.trans hvisibility')
        cases parent with
        | none =>
          cases hupdated
          rfl
        | some uid => exact absurd (hiff.mpr rfl) htop
    · have hsame := hother hpath
      constructor
      · exact hid.trans hd.id
      · exact hparentUid.trans hd.parent
      · exact fun p hp => hd.paths p (List.mem_cons_of_mem _ hp)
      · rw [hsame]
        exact hd.named
      · rw [hsame]
        intro hnamed
        refine (hd.pending hnamed).imp_left fun hmem => ?_
        rcases List.mem_cons.mp hmem with heq' | hmem
        · exact absurd heq'.symm hpath
        · exact hmem
      · rw [hsame]
        exact hd.comment
      · rw [hsame]
        exact hd.topLevel

theorem checkUpdate_ok {db : Database} {user : UserRecord} {memo : Memo}
    (h : checkUpdate db userID call = .ok (user, memo)) :
    ∃ uid, extractMemoUIDFromName call.name = .ok uid ∧ db.getMemo { uid := some uid } = some memo ∧
      fetchCurrentUser db userID = .ok (some user) ∧
      (memo.creatorId = user.id ∨ isSuperUser user) := by
  rw [checkUpdate] at h
  obtain ⟨uid, huid, h⟩ := Program.bind_ok h
  split at h
  · cases h
  · split at h
    · cases h
    · rename_i hfound
      split at h
      · cases h
      · cases h
      · rename_i huser
        split at h
        · cases h
        · rename_i hallowed
          obtain ⟨rfl, rfl⟩ := Prod.mk.inj (Except.ok.inj h)
          exact ⟨uid, Program.mapError_ok huid, hfound, huser, by tauto⟩

theorem updateDraft_contract (env : Env) (userID : Nat) (call : UpdateCall) {s : Storage}
    (hs : Sound s) :
    (updateDraft env userID call).Contract (thread · = thread s) (· = s) fun d s' =>
      thread s' = thread s ∧ ∃ uid, extractMemoUIDFromName call.name = .ok uid ∧
        ∃ row ∈ s.memos, row.uid = uid ∧ ∃ parent ∈ s.parents row,
          DraftOf (thread s) call row parent [] d := by
  refine .get fun s₀ hs₀ => .ofExcept fun (user, memo) hchecked => ?_
  rw [hs₀] at hchecked
  rw [hs₀]
  obtain ⟨uid, huid, hfound, -, -⟩ := checkUpdate_ok hchecked
  obtain ⟨row, hrow, hrowUid, parent, hparent, rfl⟩ := getMemo_row hfound
  have hstart : DraftOf (thread s) call row parent call.memo.paths
      (Draft.start (row.withParent parent)) :=
    ⟨rfl, rfl, fun _ h => h, nofun, .inl, nofun, nofun⟩
  refine (Durable.Contract.fold
    (J := fun rest d s' => thread s' = thread s ∧ DraftOf (thread s) call row parent rest d)
    (updateRound_contract hs hrow hparent user) (Draft.start (row.withParent parent))).mono
      ?_ ?_
  · rintro _ rfl
    exact ⟨rfl, hstart⟩
  · rintro d s' ⟨hthread, hd⟩
    exact ⟨hthread, uid, huid, row, hrow, hrowUid, parent, hparent, hd⟩

def finishUpdate (env : Env) (userID : Nat) (d : Draft) : Durable Storage Table String Api.Memo := do
  Storage.updateMemo d.memo.id d.update
  let s ← Durable.get
  Durable.ofExcept (buildUpdatedMemoState env s.toDatabase userID d.memo.id)

theorem updateMemo_eq :
    updateMemo env userID call = updateDraft env userID call >>= finishUpdate env userID := rfl

theorem finishUpdate_stopAfter (d : Draft) (hset : d.visibility.isSome) (n : Nat) (s : Storage) :
    thread ((finishUpdate env userID d).stopAfter (n + 1) s) =
      (thread s).updateMemo d.memo.id d.update := by
  have hfull : ¬d.update.isEmpty = true := by
    cases hd : d.visibility with
    | none =>
      rw [hd] at hset
      cases hset
    | some visibility => simp [UpdateMemo.isEmpty, Draft.update, hd]
  rw [finishUpdate, Storage.updateMemo, if_neg hfull]
  show thread ((Durable.ofExcept _ : Durable Storage Table String Api.Memo).stopAfter n _) = _
  cases buildUpdatedMemoState env _ userID d.memo.id <;> rfl

theorem finishUpdate_contract {s : Storage} (hs : Sound s) (d : Draft)
    (hkeep : ∀ visibility, d.visibility = some visibility →
      ∀ row ∈ s.memos, row.id = d.memo.id → (thread s).IsComment row.id ∨
        (thread s).HasComments row.id → row.visibility = visibility) :
    (finishUpdate env userID d).Contract Sound (· = s) fun _ s => Sound s := by
  have hupdated : ((thread s).updateMemo d.memo.id d.update).Consistent := by
    refine hs.updateMemo fun visibility hvisibility htouched row hrow hid => ?_
    refine hkeep visibility hvisibility row hrow hid ?_
    obtain ⟨r, hr, hend⟩ := htouched
    rcases hend with hend | hend
    · exact .inl ⟨r, hr, hend.trans hid.symm⟩
    · exact .inr ⟨r, hr, hend.trans hid.symm⟩
  refine .bind (Q := fun _ s => Sound s) (.ite (fun _ => .pure ?_) fun _ => .commit ?_ ?_)
    fun _ => .get fun s' hs' => .last fun _ _ _ heq => ?_
  · rintro _ rfl
    exact hs
  · rintro _ rfl
    exact hupdated
  · rintro _ rfl
    exact hupdated
  · rw [heq]
    exact hs'

end update

section runs

inductive Request where
  | createMemo (memoId : String) (memo : MemoInput)
  | createMemoComment (name : String) (comment : Option MemoInput) (commentId : String)
  | updateMemo (call : UpdateCall)
  | deleteMemo (name : String)

structure Label where
  env : Env
  userID : Nat
  request : Request
  stop : Option Nat

def next (s : Storage) (l : Label) : Storage :=
  match l.request with
  | .createMemo memoId memo => (createMemo l.env l.userID memoId memo).leaves l.stop s
  | .createMemoComment name comment commentId =>
    (createMemoComment l.env l.userID name comment commentId).leaves l.stop s
  | .updateMemo call => (updateMemo l.env l.userID call).leaves l.stop s
  | .deleteMemo name => (deleteMemo l.env l.userID name).leaves l.stop s

structure NoMemos (s : Storage) : Prop where
  memos : s.memos = []
  relations : s.relations = []

def system : LabelledSystem Storage Label := ⟨NoMemos, fun s l => some (next s l)⟩

def CommentsFollow (s : Storage) : Prop :=
  ∀ r ∈ s.relations, r.type = .COMMENT → ∀ comment ∈ s.memos, ∀ parent ∈ s.memos,
    comment.id = r.memoId → parent.id = r.relatedMemoId → comment.visibility = parent.visibility

def WritesMemo (s : Storage) (l : Label) (call : UpdateCall) : Prop :=
  (∃ d s', (updateDraft l.env l.userID call).run s = (.ok d, s')) ∧
    ((updateDraft l.env l.userID call).writes s).length <
      l.stop.getD ((updateMemo l.env l.userID call).writes s).length

/-- An update that writes the visibility of a top-level memo with comments writes the one that
the memo has. -/
def KeepsVisibility (s : Storage) (l : Label) : Prop :=
  ∀ call, l.request = .updateMemo call → WritesMemo s l call → .visibility ∈ call.memo.paths →
    ∀ uid, extractMemoUIDFromName call.name = .ok uid → ∀ row ∈ s.memos, row.uid = uid →
      ¬(thread s).IsComment row.id → (thread s).HasComments row.id →
        convertVisibilityToStore call.memo.visibility = row.visibility

theorem commentsFollow_iff (s : Storage) : CommentsFollow s ↔ (thread s).Follows := by
  constructor
  · intro h r hr
    obtain ⟨hr, htype⟩ := List.mem_filter.mp hr
    exact h r hr (by simpa using htype)
  · intro h r hr htype
    exact h r (List.mem_filter.mpr ⟨hr, by simpa using htype⟩)

theorem sound_of_noMemos {s : Storage} (h : NoMemos s) : Sound s := by
  have hthread : thread s = ⟨[], [], s.nextMemoId⟩ := by
    rw [thread, h.memos, h.relations]
    rfl
  rw [Sound, hthread]
  constructor
  · exact List.nodup_nil
  · exact List.nodup_nil
  · exact fun _ h => absurd h List.not_mem_nil
  · exact fun _ h => absurd h List.not_mem_nil
  · exact fun _ h => absurd h List.not_mem_nil
  · exact fun _ h => absurd h List.not_mem_nil

/-- Every call but an update is sound, wherever it stops; an update is if it keeps what
`KeepsVisibility` says. -/
theorem next_sound {s : Storage} (hs : Sound s) {l : Label} (hkeeps : KeepsVisibility s l) :
    Sound (next s l) := by
  cases hrequest : l.request with
  | createMemo memoId memo =>
    rw [next, hrequest]
    exact (createMemo_contract hs memoId memo).leaves rfl hs l.stop
  | createMemoComment name comment commentId =>
    rw [next, hrequest]
    exact (createMemoComment_contract hs name comment commentId).leaves rfl hs l.stop
  | updateMemo call =>
    rw [next, hrequest]
    show Sound ((updateMemo l.env l.userID call).leaves l.stop s)
    have hdraft := updateDraft_contract l.env l.userID call hs
    have hsplit := Durable.leaves_bind (updateDraft l.env l.userID call)
      (finishUpdate l.env l.userID) l.stop s
    rw [← updateMemo_eq] at hsplit
    rcases hsplit with ⟨d, s', n, hrun, hlt, hstop⟩ | ⟨-, n, hstop⟩
    · rw [hstop]
      obtain ⟨hthread, uid, huid, row, hrow, hrowUid, parent, -, hd⟩ :=
        hdraft.result s d s' rfl hrun
      have hs' : Sound s' := by
        rw [Sound, hthread]
        exact hs
      refine (finishUpdate_contract hs' d ?_).stopAfter rfl hs' _
      intro visibility hvisibility row' hrow' hid htouched
      have hnamed := hd.named (by rw [hvisibility]; rfl)
      have hmem : row' ∈ (thread s).memos := hthread ▸ hrow'
      obtain rfl : row' = row := hs.row_eq hmem hrow (hid.trans hd.id)
      rw [hthread] at htouched
      by_cases hcomment : (thread s).IsComment row'.id
      · exact (hd.comment visibility hvisibility hcomment).symm
      · rw [hd.topLevel visibility hvisibility hcomment]
        exact (hkeeps call hrequest ⟨⟨d, s', hrun⟩, hlt⟩ hnamed uid huid row' hrow hrowUid hcomment
          (htouched.resolve_left hcomment)).symm
    · rw [hstop, Sound, hdraft.stopAfter rfl rfl n]
      exact hs
  | deleteMemo name =>
    rw [next, hrequest]
    exact (deleteMemo_contract name).leaves hs hs l.stop

theorem next_breaks {s : Storage} (hs : Sound s) {l : Label} (hkeeps : ¬KeepsVisibility s l) :
    ¬CommentsFollow (next s l) := by
  unfold KeepsVisibility at hkeeps
  push Not at hkeeps
  obtain ⟨call, hcall, ⟨⟨d, s', hrun⟩, hlt⟩, hpath, uid, huid, row, hrow, hrowUid, htop,
    ⟨r, hr, hparentId⟩, hchanged⟩ := hkeeps
  obtain ⟨hthread, uid', huid', row', hrow', hrowUid', parent, -, hd⟩ :=
    (updateDraft_contract l.env l.userID call hs).result s d s' rfl hrun
  obtain rfl : uid = uid' := Except.ok.inj (huid.symm.trans huid')
  obtain rfl : row = row' := hs.row_eq_of_uid hrow hrow' (hrowUid.trans hrowUid'.symm)
  have hset : d.visibility.isSome := (hd.pending hpath).resolve_left List.not_mem_nil
  have hafter : thread (next s l) = (thread s).updateMemo d.memo.id d.update := by
    rw [next, hcall]
    show thread ((updateMemo l.env l.userID call).leaves l.stop s) = _
    have hsplit := Durable.leaves_bind (updateDraft l.env l.userID call)
      (finishUpdate l.env l.userID) l.stop s
    rw [← updateMemo_eq] at hsplit
    rcases hsplit with ⟨d', s'', n, hrun', -, hstop⟩ | ⟨hlast, -⟩
    · rw [hrun] at hrun'
      cases hrun'
      rw [hstop, ← hthread]
      exact finishUpdate_stopAfter d hset n s'
    · have hle := hlast d s' hrun
      omega
  rw [commentsFollow_iff, hafter]
  intro hfollows
  obtain ⟨visibility, hvisibility⟩ := Option.isSome_iff_exists.mp hset
  obtain ⟨child, hchild, hchildId⟩ := hs.comment r hr
  have hne : child.id ≠ d.memo.id := by
    intro heq
    exact htop ⟨r, hr, by rw [← hchildId, heq, hd.id]⟩
  -- The child is as it was, the parent has the new visibility.
  have hchild' : child ∈ ((thread s).updateMemo d.memo.id d.update).memos :=
    List.mem_map.mpr ⟨child, hchild, if_neg hne⟩
  have hparent' : row.updated d.update ∈ ((thread s).updateMemo d.memo.id d.update).memos :=
    List.mem_map.mpr ⟨row, hrow, if_pos hd.id.symm⟩
  have hnew : (row.updated d.update).visibility = visibility := by
    show d.visibility.getD row.visibility = visibility
    rw [hvisibility]
    rfl
  have hafterSame := hfollows r hr child hchild' _ hparent' hchildId hparentId.symm
  have hbeforeSame := hs.follows r hr child hchild row hrow hchildId hparentId.symm
  rw [hnew, hd.topLevel visibility hvisibility htop] at hafterSame
  exact hchanged (hafterSame.symm.trans hbeforeSame)

/-- Comments follow their parents all along a run exactly if no step of it changes the visibility
of a memo that has comments. -/
theorem commentsFollow_throughout_iff {s : Storage} (hinit : system.init s) (as : List Label) :
    system.Throughout CommentsFollow s as ↔ system.Meets KeepsVisibility s as := by
  have hs : Sound s := sound_of_noMemos hinit
  have hstep : ∀ s l s', Sound s → KeepsVisibility s l → system.step s l = some s' → Sound s' := by
    rintro s l s' hs hkeeps ⟨⟩
    exact next_sound hs hkeeps
  constructor
  · intro hthroughout
    exact hthroughout.meets hs hstep fun s l hs hbreaks => ⟨next s l, rfl, next_breaks hs hbreaks⟩
  · intro hmeets
    exact hmeets.throughout hs (fun s hs => (commentsFollow_iff s).mpr hs.follows) hstep

end runs

section secret

def newInstance : Storage where
  users := [ada]
  memos := []
  relations := []
  attachments := []
  reactions := []
  inboxes := []
  nextMemoId := 1
  nextReactionId := 1
  nextInboxId := 1

def publish : Label := ⟨lenientEnv "memo", 1, .createMemo "" (emptyMemo .Public), none⟩

def comment : Label :=
  ⟨lenientEnv "comment", 1,
    .createMemoComment "memos/memo" (some (emptyMemo .unspecified)) "", none⟩

def hideCall : UpdateCall :=
  ⟨"memos/memo", ⟨"", .Private, false, .unspecified, none, none, none, [.visibility]⟩, [], []⟩

def hide : Label := ⟨lenientEnv "", 1, .updateMemo hideCall, some 1⟩

/-- Without the last step comments follow their parents. -/
theorem commentsFollow_publish : system.Throughout CommentsFollow newInstance [publish, comment] := by
  have hiff := commentsFollow_throughout_iff (s := newInstance) ⟨rfl, rfl⟩ [publish, comment]
  refine hiff.mpr ⟨?_, ?_, trivial⟩
  · intro call hcall
    cases hcall
  · intro call hcall
    cases hcall

theorem publish_comment : ∃ row child s, system.run newInstance [publish, comment] = some s ∧
    s.users = [ada] ∧ s.memos = [row, child] ∧ s.relations = [⟨child.id, row.id, .COMMENT⟩] ∧
      row.id = 1 ∧ child.id = 2 ∧ row.uid = "memo" ∧ row.creatorId = 1 ∧
        row.visibility = .Public := by
  have hvalid : UIDMatcher "memo" = true := by decide
  have hvalid' : UIDMatcher "comment" = true := by decide
  obtain ⟨_, row, hrun, hid, huid, hcreator, hvisibility, -⟩ :=
    createMemo_succeeds (s := newInstance) (v := ada) rfl rfl hvalid
      (fun _ h => absurd h List.not_mem_nil) .Public
  have hpublished : next newInstance publish = newInstance.insertMemo row := by
    show (createMemo (lenientEnv "memo") 1 "" (emptyMemo .Public)).leaves none newInstance = _
    rw [Durable.leaves_none]
    exact congrArg Prod.snd hrun
  have hmemo : (newInstance.insertMemo row).getMemo { uid := some "memo" } =
      some (row.withParent none) := by
    have hrow : row ∈ (newInstance.insertMemo row).toDatabase.memos := List.mem_singleton_self _
    rw [← huid]
    exact Database.getMemo_of_parents row (List.nodup_singleton row.uid) hrow rfl
  have hname : extractMemoUIDFromName "memos/memo" = .ok "memo" := by decide
  have haccess : checkMemoWriteAccess ada (row.withParent none) = .ok () := by
    refine if_neg fun h => ?_
    have hprivate : row.visibility = .Private := h.1
    rw [hvisibility] at hprivate
    cases hprivate
  have hnew : ∀ row' ∈ (newInstance.insertMemo row).memos, row'.uid ≠ "comment" := by
    intro row' hmem
    obtain rfl := List.mem_singleton.mp hmem
    rw [huid]
    decide
  obtain ⟨_, child, s, hrun, hchildId, -, husers, hmemos, hrelations⟩ :=
    createMemoComment_succeeds (s := newInstance.insertMemo row) (v := ada) rfl rfl hname hmemo
      haccess ⟨ada, by rfl⟩ hvalid' (by decide) hnew
  refine ⟨row, child, s, ?_, husers, hmemos, hrelations, hid, hchildId, huid, hcreator,
    hvisibility⟩
  have hcommented : next (next newInstance publish) comment = s := by
    rw [hpublished]
    show (createMemoComment (lenientEnv "comment") 1 "memos/memo" _ "").leaves none _ = _
    rw [Durable.leaves_none]
    exact congrArg Prod.snd hrun
  rw [← hcommented]
  rfl

/-- Hiding a memo leaves its comments public. -/
theorem comment_left_public : ∃ s, system.run newInstance [publish, comment, hide] = some s ∧
    ¬CommentsFollow s := by
  obtain ⟨row, child, s, hrun, husers, hmemos, hrelations, hid, hchildId, huid, hcreator,
    hvisibility⟩ := publish_comment
  have hsound : Sound s := by
    have hs := (sound_of_noMemos (s := newInstance) ⟨rfl, rfl⟩)
    have hnext : next (next newInstance publish) comment = s := Option.some.inj hrun
    rw [← hnext]
    refine next_sound (next_sound hs ?_) ?_
    · intro call hcall
      cases hcall
    · intro call hcall
      cases hcall
  have hrow : row ∈ s.memos := by simp [hmemos]
  refine ⟨next s hide, ?_, next_breaks hsound fun hkeeps => ?_⟩
  · have hnext : next (next newInstance publish) comment = s := Option.some.inj hrun
    rw [← hnext]
    rfl
  have hparents : s.parents row = [none] := by
    simp [Database.parents, hrelations, hid, hchildId]
  have hmemo : s.getMemo { uid := some "memo" } = some (row.withParent none) := by
    rw [← huid]
    exact Database.getMemo_of_parents row hsound.uids hrow hparents
  have huser : fetchCurrentUser s.toDatabase 1 = .ok (some ada) := by
    unfold fetchCurrentUser Database.getUser
    rw [husers]
    rfl
  have hchecked : checkUpdate s.toDatabase 1 hideCall = .ok (ada, row.withParent none) := by
    have hname : extractMemoUIDFromName hideCall.name = .ok "memo" := by decide
    rw [checkUpdate, hname]
    simp only [Except.mapError, Bind.bind, Except.bind]
    rw [hmemo]
    dsimp only
    rw [huser, if_neg (by decide)]
    exact if_neg fun h => h.1 hcreator
  let d : Draft := { Draft.start (row.withParent none) with visibility := some .Private }
  have hdraft : (updateDraft hide.env 1 hideCall).Executes s [] (.ok d) s := by
    refine Durable.Executes.bind_read .get (.bind_read (.ofExcept hchecked) ?_)
    refine Durable.Executes.bind_read (.bind_read .pure (.bind_read .get ?_)) .pure
    exact .ofExcept rfl
  have hwrites : WritesMemo s hide hideCall := by
    refine ⟨⟨d, s, hdraft.run⟩, ?_⟩
    show ((updateDraft hide.env 1 hideCall).writes s).length < 1
    rw [hdraft.writes]
    exact Nat.zero_lt_one
  have htop : ¬(thread s).IsComment row.id := by
    rintro ⟨r, hr, hrowId⟩
    have hmem := List.mem_of_mem_filter hr
    rw [hrelations] at hmem
    obtain rfl := List.mem_singleton.mp hmem
    dsimp only at hrowId
    omega
  have hcomments : (thread s).HasComments row.id := by
    refine ⟨⟨child.id, row.id, .COMMENT⟩, List.mem_filter.mpr ⟨?_, rfl⟩, rfl⟩
    rw [hrelations]
    exact List.mem_singleton_self _
  have hsame := hkeeps hideCall rfl hwrites (List.mem_singleton_self _) "memo" (by decide) row hrow
    huid htop hcomments
  rw [hvisibility] at hsame
  cases hsame

end secret

end Memoark.Server.WriteMemos
