import Memoark.Program.Contract
import Memoark.Server.UpdateFailures

/-! What an update leaves alone: the fields of the memo that its mask does not name. -/
namespace Memoark.Server.WriteMemos
open Store
open Program (Durable)

def requestedUpdateTime (call : UpdateCall) (now : Int) : Int :=
  match call.memo.updateTime with
  | some _ => Api.Timestamp.unix call.memo.updateTime
  | none => now

structure Spared (call : UpdateCall) (now : Int) (row row' : MemoRecord) : Prop where
  id : row'.id = row.id
  uid : row'.uid = row.uid
  creatorId : row'.creatorId = row.creatorId
  content : .content ∉ call.memo.paths → row'.content = row.content
  visibility : .visibility ∉ call.memo.paths → row'.visibility = row.visibility
  pinned : .pinned ∉ call.memo.paths → row'.pinned = row.pinned
  state : .state ∉ call.memo.paths → row'.rowStatus = row.rowStatus
  createTime : .createTime ∉ call.memo.paths → row'.createdTs = row.createdTs
  location : .location ∉ call.memo.paths → row'.payload.location = row.payload.location
  updateTime : row'.updatedTs = row.updatedTs ∨
    .updateTime ∈ call.memo.paths ∧ row'.updatedTs = requestedUpdateTime call now

def sparedTables (call : UpdateCall) (s : Storage) :
    List MemoRecord × List AttachmentRecord × List MemoRelation :=
  (s.memos, if .attachments ∈ call.memo.paths then [] else s.attachments,
    if .relations ∈ call.memo.paths then [] else s.relations)

structure Spares (call : UpdateCall) (now : Int) (s s' : Storage) : Prop where
  rows : ∀ row ∈ s.memos, ∃ row' ∈ s'.memos, Spared call now row row'
  attachments : .attachments ∉ call.memo.paths → s'.attachments = s.attachments
  relations : .relations ∉ call.memo.paths → s'.relations = s.relations

structure DraftSpares (call : UpdateCall) (now : Int) (memo : Memo) (d : Draft) : Prop where
  id : d.memo.id = memo.id
  content : .content ∉ call.memo.paths → d.contentSet = false
  visibility : .visibility ∉ call.memo.paths → d.visibility = none
  pinned : .pinned ∉ call.memo.paths → d.pinned = none
  state : .state ∉ call.memo.paths → d.rowStatus = none
  createTime : .createTime ∉ call.memo.paths → d.createdTs = none
  location : .location ∉ call.memo.paths → d.memo.payload.location = memo.payload.location
  updateTime : d.updatedTs = none ∨
    .updateTime ∈ call.memo.paths ∧ d.updatedTs = some (requestedUpdateTime call now)

variable {env : Env} {call : UpdateCall} {user : UserRecord} {memo : Memo} {userID : Nat}
  {s s' t : Storage} {d d' : Draft} {path : Path}

theorem Spared.refl (call : UpdateCall) (now : Int) (row : MemoRecord) : Spared call now row row :=
  ⟨rfl, rfl, rfl, fun _ => rfl, fun _ => rfl, fun _ => rfl, fun _ => rfl, fun _ => rfl,
    fun _ => rfl, .inl rfl⟩

theorem DraftSpares.start (call : UpdateCall) (now : Int) (memo : Memo) :
    DraftSpares call now memo (Draft.start memo) :=
  ⟨rfl, fun _ => rfl, fun _ => rfl, fun _ => rfl, fun _ => rfl, fun _ => rfl, fun _ => rfl,
    .inl rfl⟩

theorem spares_of_tables (h : sparedTables call s' = sparedTables call s) (now : Int) :
    Spares call now s s' := by
  obtain ⟨hmemos, hrest⟩ := Prod.mk.inj h
  obtain ⟨hattachments, hrelations⟩ := Prod.mk.inj hrest
  refine ⟨fun row hrow => ⟨row, ?_, .refl call now row⟩, fun hnot => ?_, fun hnot => ?_⟩
  · rw [hmemos]
    exact hrow
  · rwa [if_neg hnot, if_neg hnot] at hattachments
  · rwa [if_neg hnot, if_neg hnot] at hrelations

section rounds

theorem keeps_setMemoAttachments (hpath : .attachments ∈ call.memo.paths) (names : List String) :
    Durable.Keeps (sparedTables call) (setMemoAttachmentsInternal env user memo names) := by
  have hattachments : ∀ (t : Storage) rows,
      sparedTables call { t with attachments := rows } = sparedTables call t := by
    intro t rows
    unfold sparedTables
    rw [if_pos hpath, if_pos hpath]
  refine .get fun s => .ofExcept fun normalized _ => .bind (.forEach fun a _ => ?_) fun _ =>
    .forEach fun (a, index) _ => .mapFailure (.commit fun t => hattachments t _)
  refine .ite (fun _ => .fail) fun _ => .mapFailure (.get fun t => ?_)
  split
  · exact .fail
  · exact .ite (fun _ => .fail) fun _ => .commit fun t => hattachments t _

theorem keeps_setMemoRelations (hpath : .relations ∈ call.memo.paths)
    (relations : List RelationInput) :
    Durable.Keeps (sparedTables call) (setMemoRelationsInternal memo relations) := by
  have hrelations : ∀ (t : Storage) rows,
      sparedTables call { t with relations := rows } = sparedTables call t := by
    intro t rows
    unfold sparedTables
    rw [if_pos hpath, if_pos hpath]
  refine .bind (.mapFailure (.commit fun t => hrelations t _)) fun _ =>
    .forEach fun relation _ => ?_
  unfold setMemoRelation
  split
  · exact .fail
  refine .ite (fun _ => .pure) fun _ => .ite (fun _ => .pure) fun _ => .ofExcept fun uid _ =>
    .get fun t => ?_
  split
  · exact .fail
  · exact .mapFailure (.commit fun t => hrelations t _)

theorem keeps_setChildren (user : UserRecord) (memo : Memo) (hpath : path ∈ call.memo.paths) :
    Durable.Keeps (sparedTables call) (setChildren env call user memo path) := by
  unfold setChildren
  split
  · exact .mapFailure (keeps_setMemoAttachments hpath call.attachments)
  · exact .mapFailure (keeps_setMemoRelations hpath call.relations)
  · exact .pure

theorem DraftSpares.applyPath {extractAll : ExtractAll} {a : Answers} {now : Int}
    (hd : DraftSpares call now memo d) (hpath : path ∈ call.memo.paths) (hnow : a.now = now)
    (h : applyPath extractAll call.memo a d path = .ok d') : DraftSpares call now memo d' := by
  cases path with
  | content =>
    simp only [Server.applyPath] at h
    cases hl : a.contentLengthLimit with
    | none => rw [hl] at h; cases h
    | some limit =>
      rw [hl] at h
      by_cases hlen : call.memo.content.utf8ByteSize > limit
      · simp only [hlen] at h; cases h
      · simp only [hlen] at h
        cases hm : rebuildMemoPayload extractAll { d.memo with content := call.memo.content } with
        | none => rw [hm] at h; cases h
        | some built =>
          rw [hm] at h
          cases h
          obtain ⟨data, -, rfl⟩ := Option.map_eq_some_iff.mp hm
          exact ⟨hd.id, fun hnot => absurd hpath hnot, hd.visibility, hd.pinned, hd.state,
            hd.createTime, hd.location, hd.updateTime⟩
  | visibility =>
    simp only [Server.applyPath] at h
    cases hv : updatedVisibility call.memo a d.memo with
    | error e => rw [hv] at h; cases h
    | ok v =>
      rw [hv] at h
      cases h
      exact { hd with visibility := fun hnot => absurd hpath hnot }
  | pinned => cases h; exact { hd with pinned := fun hnot => absurd hpath hnot }
  | state => cases h; exact { hd with state := fun hnot => absurd hpath hnot }
  | createTime => cases h; exact { hd with createTime := fun hnot => absurd hpath hnot }
  | updateTime =>
    have hset : d' = { d with updatedTs := some (requestedUpdateTime call now) } := by
      simp only [Server.applyPath] at h
      unfold requestedUpdateTime
      cases htime : call.memo.updateTime with
      | none =>
        rw [htime, hnow] at h
        exact (Except.ok.inj h).symm
      | some time =>
        rw [htime] at h
        exact (Except.ok.inj h).symm
    rw [hset]
    exact { hd with updateTime := .inr ⟨hpath, rfl⟩ }
  | displayTime => cases h
  | location =>
    cases h
    exact { hd with location := fun hnot => absurd hpath hnot }
  | attachments =>
    simp only [Server.applyPath] at h
    cases ha : a.setMemoAttachments with
    | none => rw [ha] at h; cases h
    | some _ => rw [ha] at h; cases h; exact hd
  | relations =>
    simp only [Server.applyPath] at h
    cases ha : a.setMemoRelations with
    | none => rw [ha] at h; cases h
    | some _ => rw [ha] at h; cases h; exact hd
  | other path => cases h; exact hd

theorem updateRound_spares (user : UserRecord) (d : Draft) (path : Path) (rest : List Path)
    (c : List MemoRecord × List AttachmentRecord × List MemoRelation) :
    (updateRound env call user d path).Contract (sparedTables call · = c)
      (fun t => ((∀ p ∈ path :: rest, p ∈ call.memo.paths) ∧ DraftSpares call env.now memo d) ∧
        sparedTables call t = c)
      fun d' t => ((∀ p ∈ rest, p ∈ call.memo.paths) ∧ DraftSpares call env.now memo d') ∧
        sparedTables call t = c := by
  refine .bind (.frame fun hd => keeps_setChildren user d.memo (hd.1 path List.mem_cons_self) c)
    fun _ => .get fun t ht => .last fun d' happly _ heq => ?_
  obtain ⟨⟨hpaths, hd⟩, htables⟩ := ht
  rw [heq]
  refine ⟨⟨fun p hp => hpaths p (List.mem_cons_of_mem _ hp), ?_⟩, htables⟩
  exact hd.applyPath (hpaths path List.mem_cons_self) rfl happly

theorem updateRounds_spares (env : Env) (call : UpdateCall) (user : UserRecord) (memo : Memo)
    (c : List MemoRecord × List AttachmentRecord × List MemoRelation) :
    (Durable.fold (updateRound env call user) (Draft.start memo) call.memo.paths).Contract
      (sparedTables call · = c) (sparedTables call · = c)
      fun d t => DraftSpares call env.now memo d ∧ sparedTables call t = c := by
  refine Durable.Contract.mono (Durable.Contract.fold (J := fun rest d t =>
    ((∀ p ∈ rest, p ∈ call.memo.paths) ∧ DraftSpares call env.now memo d) ∧
      sparedTables call t = c) (fun d path rest => updateRound_spares user d path rest c)
      (Draft.start memo)) (fun t ht => ⟨⟨fun p hp => hp, .start call env.now memo⟩, ht⟩) ?_
  rintro d t ⟨⟨-, hd⟩, htables⟩
  exact ⟨hd, htables⟩

end rounds

section write

theorem DraftSpares.updated {now : Int} (hd : DraftSpares call now memo d) {row : MemoRecord}
    {parent : Option String} (hmemo : row.withParent parent = memo) :
    Spared call now row (row.updated d.update) := by
  subst hmemo
  refine ⟨rfl, rfl, rfl, fun h => ?_, fun h => ?_, fun h => ?_, fun h => ?_, fun h => ?_,
    fun h => ?_, ?_⟩
  · show (d.update.content).getD row.content = row.content
    rw [Draft.update, hd.content h]
    rfl
  · show d.visibility.getD row.visibility = row.visibility
    rw [hd.visibility h]
    rfl
  · show d.pinned.getD row.pinned = row.pinned
    rw [hd.pinned h]
    rfl
  · show d.rowStatus.getD row.rowStatus = row.rowStatus
    rw [hd.state h]
    rfl
  · show d.createdTs.getD row.createdTs = row.createdTs
    rw [hd.createTime h]
    rfl
  · show ((d.update.payload).getD row.payload).location = row.payload.location
    rw [Draft.update]
    cases hset : d.payloadSet with
    | false => rfl
    | true => exact hd.location h
  · show d.updatedTs.getD row.updatedTs = row.updatedTs ∨ _ ∧ d.updatedTs.getD row.updatedTs = _
    rcases hd.updateTime with hnone | ⟨hpath, hsome⟩
    · rw [hnone]
      exact .inl rfl
    · rw [hsome]
      exact .inr ⟨hpath, rfl⟩

theorem finishUpdate_spares {now : Int} (hids : (s.memos.map (·.id)).Nodup) {row : MemoRecord}
    (hrow : row ∈ s.memos) {parent : Option String} (hmemo : row.withParent parent = memo)
    (hd : DraftSpares call now memo d) :
    (finishUpdate env userID d).Contract (Spares call now s)
      (fun t => sparedTables call t = sparedTables call s) fun _ t => Spares call now s t := by
  have hwritten : ∀ t, sparedTables call t = sparedTables call s → Spares call now s
      { t with memos := t.memos.map fun r => if r.id = d.memo.id then r.updated d.update else r } := by
    intro t ht
    have hspares := spares_of_tables ht now
    refine ⟨fun old hold => ?_, hspares.attachments, hspares.relations⟩
    have hmem : old ∈ t.memos := by
      rw [(Prod.mk.inj ht).1]
      exact hold
    refine ⟨_, List.mem_map_of_mem hmem, ?_⟩
    by_cases hid : old.id = d.memo.id
    · have hrowId : old.id = row.id := by rw [hid, hd.id, ← hmemo]; rfl
      obtain rfl := List.inj_on_of_nodup_map hids hold hrow hrowId
      rw [if_pos hid]
      exact hd.updated hmemo
    · rw [if_neg hid]
      exact .refl call now old
  refine .bind (Q := fun _ t => Spares call now s t)
    (.ite (fun _ => .pure fun t ht => spares_of_tables ht now) fun _ => .commit hwritten hwritten)
    fun _ => .get fun t ht => .last fun _ _ _ heq => ?_
  rw [heq]
  exact ht

end write

theorem updateMemo_store {d : Draft}
    (hcheck : checkUpdate s.toDatabase userID call = .ok (user, memo))
    (hloop : (Durable.fold (updateRound env call user) (Draft.start memo) call.memo.paths).run s =
      (.ok d, t)) :
    ((updateMemo env userID call).run s).2 = ((Storage.updateMemo d.memo.id d.update).run t).2 := by
  rw [updateMemo_run hcheck, Durable.run_bind_of_ok hloop]
  obtain ⟨t', _, hwrite, -⟩ := storeUpdateMemo_run t d.memo.id d.update
  unfold finishUpdate
  rw [hwrite, Durable.run_bind_of_ok hwrite,
    Durable.run_bind_of_ok (show Durable.get.run t' = (.ok t', t') from rfl),
    Durable.run_ofExcept_eq]

/-- An update changes nothing that its mask does not name, wherever it stops. -/
theorem updateMemo_spares (hids : (s.memos.map (·.id)).Nodup) (env : Env) (userID : Nat)
    (call : UpdateCall) : (updateMemo env userID call).Contract (Spares call env.now s) (· = s)
      fun _ t => Spares call env.now s t := by
  rw [updateMemo_eq]
  refine .bind (Q := fun d t => ∃ memo, ∃ row : MemoRecord, ∃ parent, row ∈ s.memos ∧
    row.withParent parent = memo ∧ DraftSpares call env.now memo d ∧
      sparedTables call t = sparedTables call s) ?_ fun d => .exists fun memo => .exists
        fun row => .exists fun parent => .assume fun hrow => .assume fun hmemo => .assume
          fun hd => finishUpdate_spares hids hrow hmemo hd
  refine .get fun t ht => .ofExcept fun (user, memo) hcheck => ?_
  rw [ht] at hcheck
  obtain ⟨uid, -, hfound, -, -⟩ := checkUpdate_ok hcheck
  obtain ⟨row, hrow, -, parent, -, hmemo⟩ := Database.getMemo_uid hfound
  have hrounds := updateRounds_spares env call user memo (sparedTables call s)
  refine (hrounds.weaken fun t' ht' => spares_of_tables ht' env.now).mono ?_ ?_
  · rintro t' rfl
    exact congrArg (sparedTables call) ht
  · rintro d t' ⟨hd, htables⟩
    exact ⟨memo, row, parent, hrow, hmemo, hd, htables⟩

end Memoark.Server.WriteMemos
