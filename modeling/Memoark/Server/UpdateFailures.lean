import Memoark.Server.CommentVisibility
import Memoark.Server.CreateFailures

/-! What an update leaves in the store when it fails: the rounds of its mask loop before the one
that fails, and what that round has written. -/
namespace Memoark.Server.WriteMemos
open Store
open Program (Durable)

/-- What the mask loop leaves: attachments may be gone or linked, relations replaced. -/
structure Frame (s t : Storage) : Prop where
  users : t.users = s.users
  memos : t.memos = s.memos
  reactions : t.reactions = s.reactions
  inboxes : t.inboxes = s.inboxes
  attachmentIds : (t.attachments.map (·.id)).Sublist (s.attachments.map (·.id))
  relations : t.relations.Nodup

/-- The references of a memo are those that a request asks for, up to the first that fails. -/
def SameReferences (s : Storage) (memo : Memo) (relations : List RelationInput) : Prop :=
  ∀ r, r ∈ relationsWritten s.memos memo relations ↔
    r ∈ s.relations ∧ r.memoId = memo.id ∧ r.type = .REFERENCE

/-- The references of the memo are those that the request asks for, up to the first that fails;
the other relations stay. -/
def Replaced (memo : Memo) (relations : List RelationInput) (s s' : Storage) : Prop :=
  ∀ r, r ∈ s'.relations ↔ (r ∈ s.relations ∧ ¬(r.memoId = memo.id ∧ r.type = .REFERENCE)) ∨
    r ∈ relationsWritten s.memos memo relations

section rounds

variable (env : Env) (call : UpdateCall) (user : UserRecord) (memo : Memo)

def Passes (t : Storage) : Path → Prop
  | .content => (∃ limit, env.contentLengthLimit = some limit ∧
      call.memo.content.utf8ByteSize ≤ limit) ∧ (env.extractAll call.memo.content).isSome
  | .displayTime => False
  | .attachments => AttachmentsPass env user t memo call.attachments
  | .relations => ∀ relation ∈ call.relations, RelationExists t.memos memo.uid relation
  | _ => True

def Idle (t : Storage) : Path → Prop
  | .attachments => AttachmentsIdle env user t memo call.attachments
  | .relations => SameReferences t memo call.relations
  | _ => True

structure Drafts (memo : Memo) (d : Draft) : Prop where
  id : d.memo.id = memo.id
  uid : d.memo.uid = memo.uid
  parentUid : d.memo.parentUid = memo.parentUid

variable {env call user memo} {s t t' : Storage} {d d' : Draft}

theorem Frame.refl (h : Intact s) : Frame s s := ⟨rfl, rfl, rfl, rfl, .refl _, h.keys.relations⟩

theorem Frame.nodup (h : Intact s) (hframe : Frame s t) : (t.attachments.map (·.id)).Nodup :=
  h.attachmentIds.sublist hframe.attachmentIds

theorem Frame.uids (h : Intact s) (hframe : Frame s t) : (t.memos.map (·.uid)).Nodup := by
  rw [hframe.memos]
  exact h.keys.memoUids

theorem updateRound_pure {path : Path} (hattachments : path ≠ .attachments)
    (hrelations : path ≠ .relations) : (updateRound env call user d path).run t =
      (applyPath env.extractAll call.memo (answers env t.toDatabase d.memo) d path, t) := by
  have hchildren : setChildren env call user d.memo path = pure () := by
    unfold setChildren
    split
    · exact absurd rfl hattachments
    · exact absurd rfl hrelations
    · rfl
  unfold updateRound
  rw [hchildren]
  exact Durable.run_ofExcept_eq _ t

/-- A path that sets a field fails only for a bad content, or if it is not supported. -/
theorem applyPath_isOk_iff (hd : Drafts memo d)
    (hparent : ∀ uid, memo.parentUid = some uid → ∃ row ∈ t.memos, row.uid = uid) {path : Path}
    (hattachments : path ≠ .attachments) (hrelations : path ≠ .relations) :
    (applyPath env.extractAll call.memo (answers env t.toDatabase d.memo) d path).isOk ↔
      Passes env call user memo t path := by
  cases path with
  | content =>
    unfold Passes
    simp only [applyPath, answers]
    cases env.contentLengthLimit with
    | none =>
      refine iff_of_false Bool.false_ne_true fun h => ?_
      obtain ⟨limit, hlimit, -⟩ := h.1
      cases hlimit
    | some limit =>
      by_cases hlength : call.memo.content.utf8ByteSize > limit
      · simp only [hlength]
        refine iff_of_false Bool.false_ne_true fun h => ?_
        obtain ⟨limit', hlimit, hle⟩ := h.1
        obtain rfl := Option.some.inj hlimit
        exact absurd hlength (Nat.not_lt.mpr hle)
      · simp only [hlength, rebuildMemoPayload]
        cases env.extractAll call.memo.content with
        | none => exact iff_of_false Bool.false_ne_true fun h => Bool.false_ne_true h.2
        | some data => exact iff_of_true rfl ⟨⟨limit, rfl, Nat.not_lt.mp hlength⟩, rfl⟩
  | visibility =>
    refine iff_of_true ?_ trivial
    simp only [applyPath, updatedVisibility, answers, hd.parentUid]
    cases hmemo : memo.parentUid with
    | none => rfl
    | some uid =>
      obtain ⟨row, hrow, rfl⟩ := hparent uid hmemo
      obtain ⟨parent, hfound⟩ := Database.exists_getMemo hrow
      dsimp only [Option.bind_some]
      rw [hfound]
      rfl
  | pinned | state | createTime | location | other => exact iff_of_true rfl trivial
  | updateTime =>
    refine iff_of_true ?_ trivial
    cases htime : call.memo.updateTime with
    | none =>
      simp only [applyPath, htime]
      rfl
    | some time =>
      simp only [applyPath, htime]
      rfl
  | displayTime => exact iff_of_false Bool.false_ne_true id
  | attachments => exact absurd rfl hattachments
  | relations => exact absurd rfl hrelations

theorem Drafts.applyPath (hd : Drafts memo d) {path : Path} {extractAll : ExtractAll}
    {request : UpdateMemoRequest} {a : Answers}
    (h : applyPath extractAll request a d path = .ok d') : Drafts memo d' := by
  cases applyPath_round h with
  | content _ _ hm =>
    obtain ⟨data, -, hm⟩ := Option.map_eq_some_iff.mp hm
    constructor
    · rw [← hm]
      exact hd.id
    · rw [← hm]
      exact hd.uid
    · rw [← hm]
      exact hd.parentUid
  | location _ _ hm =>
    constructor
    · rw [hm]
      exact hd.id
    · rw [hm]
      exact hd.uid
    · rw [hm]
      exact hd.parentUid
  | other _ _ _ _ hm => exact ⟨hm ▸ hd.id, hm ▸ hd.uid, hm ▸ hd.parentUid⟩

theorem relationTarget_congr {memo' : Memo} (hid : memo'.id = memo.id) (huid : memo'.uid = memo.uid)
    (memos : List MemoRecord) : relationTarget memos memo' = relationTarget memos memo := by
  funext relation
  unfold relationTarget
  rw [hid, huid]

theorem relationsWritten_congr {memo' : Memo} (hid : memo'.id = memo.id)
    (huid : memo'.uid = memo.uid) (memos : List MemoRecord) (relations : List RelationInput) :
    relationsWritten memos memo' relations = relationsWritten memos memo relations := by
  induction relations with
  | nil => rfl
  | cons relation relations ih =>
    unfold relationsWritten
    rw [relationTarget_congr hid huid, ih]

theorem relationsResult_congr {memo' : Memo} (hid : memo'.id = memo.id) (huid : memo'.uid = memo.uid)
    (memos : List MemoRecord) (relations : List RelationInput) :
    relationsResult memos memo' relations = relationsResult memos memo relations := by
  unfold relationsResult
  rw [relationTarget_congr hid huid]

theorem updateRound_children {path : Path}
    (hrun : (setChildren env call user d.memo path).run t = (.ok (), t'))
    (hchild : path = .attachments ∨ path = .relations) :
    (updateRound env call user d path).run t = (.ok d, t') := by
  refine (Durable.run_bind_of_ok hrun).trans ?_
  refine (Durable.run_bind_of_ok (show Durable.get.run t' = (.ok t', t') from rfl)).trans ?_
  rcases hchild with rfl | rfl
  · rfl
  · rfl

theorem updateRound_attachments (env : Env) (call : UpdateCall) (user : UserRecord) (h : Intact s)
    (hframe : Frame s t) (hd : Drafts memo d) :
    ∃ result t', (updateRound env call user d .attachments).run t = (result, t') ∧
      (result.isOk ↔ Passes env call user memo t .attachments) ∧ Frame s t' ∧
      (∀ d', result = .ok d' → d' = d) ∧ t'.relations = t.relations ∧
      (¬result.isOk → Idle env call user memo t .attachments → t' = t) ∧
      (¬result.isOk → ¬Idle env call user memo t .attachments →
        t'.attachments.length < t.attachments.length) := by
  have hids := hframe.nodup h
  have hpass : AttachmentsPass env user t d.memo call.attachments ↔
      Passes env call user memo t .attachments := by
    unfold Passes AttachmentsPass removedAttachments currentAttachments
    rw [hd.id]
  have hidle : AttachmentsIdle env user t d.memo call.attachments ↔
      Idle env call user memo t .attachments := by
    unfold Idle AttachmentsIdle removedAttachments currentAttachments
    rw [hd.id]
  by_cases hpassed : AttachmentsPass env user t d.memo call.attachments
  · obtain ⟨rows, hrun, hrows⟩ := setMemoAttachments_ok hids hpassed
    have hchildren : (setChildren env call user d.memo .attachments).run t =
        (.ok (), { t with attachments := rows }) := Durable.run_mapFailure.mpr hrun
    refine ⟨.ok d, _, updateRound_children hchildren (.inl rfl),
      iff_of_true rfl (hpass.mp hpassed), ?_, ?_, rfl, ?_, ?_⟩
    · exact ⟨hframe.users, hframe.memos, hframe.reactions, hframe.inboxes,
        hrows.trans hframe.attachmentIds, hframe.relations⟩
    · intro d' heq
      exact (Except.ok.inj heq).symm
    · exact fun hfailed => absurd rfl hfailed
    · exact fun hfailed => absurd rfl hfailed
  · obtain ⟨e, ids, hrun, hnone, hsome⟩ := setMemoAttachments_error hids hpassed
    refine ⟨_, _, Durable.run_bind_of_error (Durable.run_mapFailure_of_error hrun),
      iff_of_false Bool.false_ne_true fun hp => hpassed (hpass.mpr hp), ?_, ?_, rfl, ?_, ?_⟩
    · exact ⟨hframe.users, hframe.memos, hframe.reactions, hframe.inboxes,
        (List.filter_sublist.map AttachmentRecord.id).trans hframe.attachmentIds, hframe.relations⟩
    · intro d' heq
      cases heq
    · intro _ hwaits
      rw [hnone (hidle.mpr hwaits), withoutAttachments_nil]
    · intro _ hwrites
      obtain ⟨a, ha, hid⟩ := hsome fun hwaits => hwrites (hidle.mp hwaits)
      refine List.length_filter_lt_length_iff_exists.mpr ⟨a, ha, ?_⟩
      simpa using hid

theorem updateRound_relations (env : Env) (call : UpdateCall) (user : UserRecord) (h : Intact s)
    (hframe : Frame s t) (hd : Drafts memo d) :
    ∃ result t', (updateRound env call user d .relations).run t = (result, t') ∧
      (result.isOk ↔ Passes env call user memo t .relations) ∧ Frame s t' ∧
      (∀ d', result = .ok d' → d' = d) ∧ t'.attachments = t.attachments ∧
      (result = .error panicked.message ↔
        relationsResult t.memos memo call.relations = .error panicked) ∧
      Replaced memo call.relations t t' := by
  obtain ⟨rows, hrun, hnodup, hrows⟩ :=
    setMemoRelations_run d.memo (hframe.uids h) hframe.relations call.relations
  rw [relationsResult_congr hd.id hd.uid] at hrun
  rw [relationsWritten_congr hd.id hd.uid, hd.id] at hrows
  have hrest : Frame s { t with relations := rows } := ⟨hframe.users, hframe.memos,
    hframe.reactions, hframe.inboxes, hframe.attachmentIds, hnodup⟩
  have hiff : relationsResult t.memos memo call.relations = .ok () ↔
      ∀ relation ∈ call.relations, RelationExists t.memos memo.uid relation :=
    relationsResult_ok_iff
  cases hresult : relationsResult t.memos memo call.relations with
  | ok _ =>
    rw [hresult] at hrun
    have hchildren : (setChildren env call user d.memo .relations).run t =
        (.ok (), { t with relations := rows }) := Durable.run_mapFailure.mpr hrun
    refine ⟨.ok d, _, updateRound_children hchildren (.inr rfl),
      iff_of_true rfl (hiff.mp hresult), hrest, ?_, rfl, ?_, hrows⟩
    · intro d' heq
      exact (Except.ok.inj heq).symm
    · exact iff_of_false (fun heq => by cases heq) fun heq => by cases heq
  | error e =>
    rw [hresult] at hrun hiff
    refine ⟨_, _, Durable.run_bind_of_error (Durable.run_mapFailure_of_error hrun),
      iff_of_false Bool.false_ne_true ?_, hrest, ?_, rfl, ?_, hrows⟩
    · intro hpassed
      cases hiff.mpr hpassed
    · intro d' heq
      cases heq
    · unfold answered
      by_cases hpanicked : e = panicked
      · rw [if_pos hpanicked, hpanicked]
        exact iff_of_true rfl rfl
      · rw [if_neg hpanicked]
        refine iff_of_false (fun heq => ?_) fun heq => hpanicked (Except.error.inj heq)
        have hmessage : "failed to set memo relations" ≠ panicked.message := by decide
        exact hmessage (Except.error.inj heq)

theorem updateRound_run (env : Env) (call : UpdateCall) (user : UserRecord) (h : Intact s)
    (hframe : Frame s t) (hd : Drafts memo d)
    (hparent : ∀ uid, memo.parentUid = some uid → ∃ row ∈ s.memos, row.uid = uid) (path : Path) :
    ∃ result t', (updateRound env call user d path).run t = (result, t') ∧
      (result.isOk ↔ Passes env call user memo t path) ∧ Frame s t' ∧
      (∀ d', result = .ok d' → Drafts memo d') ∧
      (path ≠ .relations → t'.relations = t.relations) := by
  by_cases hattachments : path = .attachments
  · subst hattachments
    obtain ⟨result, t', hrun, hok, hrest, hsame, hrelations, -⟩ :=
      updateRound_attachments env call user h hframe hd
    exact ⟨result, t', hrun, hok, hrest, fun d' heq => hsame d' heq ▸ hd, fun _ => hrelations⟩
  · by_cases hrelations : path = .relations
    · subst hrelations
      obtain ⟨result, t', hrun, hok, hrest, hsame, -⟩ :=
        updateRound_relations env call user h hframe hd
      exact ⟨result, t', hrun, hok, hrest, fun d' heq => hsame d' heq ▸ hd,
        fun hne => absurd rfl hne⟩
    · rw [← hframe.memos] at hparent
      exact ⟨_, t, updateRound_pure hattachments hrelations,
        applyPath_isOk_iff hd hparent hattachments hrelations, hframe,
        fun d' heq => hd.applyPath heq, fun _ => rfl⟩

end rounds

section loop

variable {env : Env} {call : UpdateCall} {user : UserRecord} {memo : Memo} {s t t' : Storage}
  {d d' : Draft}

theorem mem_relationsWritten {memos : List MemoRecord} {relations : List RelationInput}
    {r : MemoRelation} (h : r ∈ relationsWritten memos memo relations) :
    r.memoId = memo.id ∧ r.type = .REFERENCE := by
  induction relations with
  | nil => cases h
  | cons relation relations ih =>
    unfold relationsWritten at h
    split at h
    · cases h
    · exact ih h
    · rename_i r₀ htarget
      rcases List.mem_cons.mp h with rfl | h
      · unfold relationTarget at htarget
        split at htarget
        · cases htarget
        · split at htarget
          · cases htarget
          · rename_i hskip
            split at htarget
            · cases htarget
            · obtain ⟨row, -, hr⟩ := Option.map_eq_some_iff.mp htarget
              rw [← Option.some.inj hr]
              refine ⟨rfl, ?_⟩
              cases htype : relation.type with
              | none => rfl
              | some type =>
                cases type with
                | REFERENCE => rfl
                | COMMENT => exact absurd (.inr htype) hskip
      · exact ih h

theorem Replaced.again {relations : List RelationInput} (h : Replaced memo relations s t)
    (hmemos : t.memos = s.memos) (h' : Replaced memo relations t t') :
    Replaced memo relations s t' := by
  intro r
  rw [h' r, h r, hmemos]
  constructor
  · rintro (⟨hkept | hwritten, hother⟩ | hwritten)
    · exact .inl hkept
    · exact .inr hwritten
    · exact .inr hwritten
  · rintro (hkept | hwritten)
    · exact .inl ⟨.inl hkept, hkept.2⟩
    · exact .inr hwritten

theorem Replaced.unchanged_iff {relations : List RelationInput} (h : Replaced memo relations s t) :
    (∀ r, r ∈ t.relations ↔ r ∈ s.relations) ↔ SameReferences s memo relations := by
  constructor
  · refine fun hsame r => ⟨fun hr => ?_, ?_⟩
    · exact ⟨(hsame r).mp ((h r).mpr (.inr hr)), mem_relationsWritten hr⟩
    · rintro ⟨hmem, href⟩
      rcases (h r).mp ((hsame r).mpr hmem) with hother | hwritten
      · exact absurd href hother.2
      · exact hwritten
  · intro hreferences r
    rw [h r, hreferences r]
    tauto

theorem updateFold_ok (h : Intact s)
    (hparent : ∀ uid, memo.parentUid = some uid → ∃ row ∈ s.memos, row.uid = uid)
    {paths : List Path} (hframe : Frame s t) (hd : Drafts memo d)
    (hrun : (Durable.fold (updateRound env call user) d paths).run t = (.ok d', t')) :
    Frame s t' ∧ Drafts memo d' ∧ (.relations ∉ paths → t'.relations = t.relations) ∧
      (.relations ∈ paths → (∀ relation ∈ call.relations, RelationExists s.memos memo.uid relation) ∧
        Replaced memo call.relations t t') := by
  induction paths generalizing t d with
  | nil =>
    obtain ⟨hd', rfl⟩ := Prod.mk.inj hrun
    obtain rfl := Except.ok.inj hd'
    exact ⟨hframe, hd, fun _ => rfl, fun hmem => absurd hmem List.not_mem_nil⟩
  | cons path paths ih =>
    obtain ⟨d₁, t₁, hround, hrest⟩ := Durable.run_bind_ok.mp hrun
    obtain ⟨result, t₁', hround', hok, hframe₁, hd₁, hkept⟩ :=
      updateRound_run env call user h hframe hd hparent path
    rw [hround] at hround'
    obtain ⟨rfl, rfl⟩ := Prod.mk.inj hround'
    obtain ⟨hframe', hd', hsame, hreplaced⟩ := ih hframe₁ (hd₁ d₁ rfl) hrest
    refine ⟨hframe', hd', ?_, ?_⟩
    · intro hnot
      obtain ⟨hpath, hpaths⟩ := not_or.mp (mt List.mem_cons.mpr hnot)
      exact (hsame hpaths).trans (hkept fun heq => hpath heq.symm)
    · intro hmem
      by_cases hpath : path = .relations
      · subst hpath
        have hpassed : ∀ relation ∈ call.relations, RelationExists t.memos memo.uid relation :=
          hok.mp rfl
        rw [hframe.memos] at hpassed
        refine ⟨hpassed, ?_⟩
        obtain ⟨result', t₁', hround', -, -, -, -, -, hfirst⟩ :=
          updateRound_relations env call user h hframe hd
        rw [hround] at hround'
        obtain ⟨-, rfl⟩ := Prod.mk.inj hround'
        by_cases hagain : .relations ∈ paths
        · exact Replaced.again hfirst (hframe₁.memos.trans hframe.memos.symm) (hreplaced hagain).2
        · intro r
          rw [hsame hagain]
          exact hfirst r
      · have hpaths : .relations ∈ paths := by
          rcases List.mem_cons.mp hmem with heq | hpaths
          · exact absurd heq.symm hpath
          · exact hpaths
        obtain ⟨hexist, hwritten⟩ := hreplaced hpaths
        refine ⟨hexist, fun r => ?_⟩
        rw [hwritten r, hkept hpath, hframe₁.memos, hframe.memos]

theorem getMemo_id {db : Database} {row : MemoRecord} (hrow : row ∈ db.memos) :
    ∃ found ∈ db.memos, ∃ parent, found.id = row.id ∧
      db.getMemo { id := some row.id } = some (found.withParent parent) := by
  obtain ⟨parent, hparent⟩ := List.exists_mem_of_ne_nil _ (Database.parents_ne_nil db row)
  have hmem : FindMemo.selected { id := some row.id } (row.withParent parent) ∈
      db.listMemos { id := some row.id } :=
    Database.mem_listMemos_of_row rfl hrow (by simp [FindMemo.matchesRow, asked, askedIn]) hparent rfl
  cases hlist : db.listMemos { id := some row.id } with
  | nil =>
    rw [hlist] at hmem
    cases hmem
  | cons memo memos =>
    have hfirst : memo ∈ db.listMemos { id := some row.id } := by
      rw [hlist]
      exact List.mem_cons_self
    obtain ⟨found, hfound, hmatches, parent', -, -, rfl⟩ := Database.exists_of_mem_listMemos hfirst
    refine ⟨found, hfound, parent', ?_, ?_⟩
    · have hid : row.id = found.id := by simpa [FindMemo.matchesRow, asked, askedIn] using hmatches
      exact hid.symm
    · rw [Database.getMemo, hlist]
      rfl

theorem storeUpdateMemo_run (s : Storage) (id : Nat) (update : UpdateMemo) :
    ∃ s' f, (Storage.updateMemo id update).run s = (.ok (), s') ∧ s'.users = s.users ∧
      s'.relations = s.relations ∧ s'.memos = s.memos.map f ∧
      ∀ row, (f row).id = row.id ∧ (f row).creatorId = row.creatorId := by
  unfold Storage.updateMemo
  split
  · exact ⟨s, fun row => row, rfl, rfl, rfl, s.memos.map_id'.symm, fun row => ⟨rfl, rfl⟩⟩
  · refine ⟨_, _, rfl, rfl, rfl, rfl, fun row => ?_⟩
    split
    · exact ⟨rfl, rfl⟩
    · exact ⟨rfl, rfl⟩

theorem buildUpdatedMemoState_run (hsnippets : env.Snippets) {db : Database} {userID : Nat}
    (hids : (db.memos.map (·.id)).Nodup) {row : MemoRecord} (hrow : row ∈ db.memos)
    {current : Option UserRecord} (huser : fetchCurrentUser db userID = .ok current) :
    ((db.getUser row.creatorId).isSome ∧
        ∃ message, buildUpdatedMemoState env db userID row.id = .ok message) ∨
      db.getUser row.creatorId = none ∧ buildUpdatedMemoState env db userID row.id =
        .error "failed to convert memo: memo creator not found" := by
  obtain ⟨found, hfound, parent, hid, hmemo⟩ := getMemo_id hrow
  obtain rfl : found = row := List.inj_on_of_nodup_map hids hfound hrow hid
  unfold buildUpdatedMemoState
  rw [hmemo]
  dsimp only
  cases hcreator : db.getUser found.creatorId with
  | some creator =>
    have hfoundCreator : db.getUser (found.withParent parent).creatorId = some creator := hcreator
    obtain ⟨message, hmessage, -⟩ := memoMessage_total hsnippets huser hfoundCreator
      (db.listReactions { contentId := some (memoName found.uid) })
      (db.listAttachments { memoId := some found.id })
    exact .inl ⟨rfl, message, congrArg (Except.mapError Status.message) hmessage⟩
  | none =>
    have hfoundCreator : db.getUser (found.withParent parent).creatorId = none := hcreator
    have hmessage := memoMessage_noCreator hsnippets huser hfoundCreator
      (db.listReactions { contentId := some (memoName found.uid) })
      (db.listAttachments { memoId := some found.id })
    exact .inr ⟨rfl, congrArg (Except.mapError Status.message) hmessage⟩

theorem finishUpdate_run (h : Intact s) (hsnippets : env.Snippets) (hframe : Frame s t)
    (hrow : ∃ row ∈ s.memos, row.id = memo.id ∧ row.creatorId = memo.creatorId)
    (hd : Drafts memo d) {userID : Nat}
    (huser : fetchCurrentUser s.toDatabase userID = .ok (some user)) :
    ∃ result t', (finishUpdate env userID d).run t = (result, t') ∧
      (result.isOk ↔ (s.getUser memo.creatorId).isSome) ∧ result ≠ .error panicked.message ∧
      t'.relations = t.relations := by
  obtain ⟨row, hmem, hid, hcreator⟩ := hrow
  obtain ⟨t', f, hwrite, husers, hrelations, hmemos, hkept⟩ :=
    storeUpdateMemo_run t d.memo.id d.update
  rw [hframe.memos] at hmemos
  have hids : (t'.memos.map (·.id)).Nodup := by
    have hsame : (·.id) ∘ f = MemoRecord.id := funext fun row => (hkept row).1
    rw [hmemos, List.map_map, hsame]
    exact h.keys.memoIds
  have hmem' : f row ∈ t'.memos := hmemos ▸ List.mem_map_of_mem hmem
  have hfound : d.memo.id = (f row).id := by rw [hd.id, (hkept row).1, hid]
  have hgetUser : t'.getUser (f row).creatorId = s.getUser memo.creatorId := by
    rw [(hkept row).2, hcreator]
    unfold Database.getUser
    rw [husers, hframe.users]
  have hfetch := (fetchCurrentUser_of_users (husers.trans hframe.users) userID).trans huser
  have hrun : (finishUpdate env userID d).run t =
      (buildUpdatedMemoState env t'.toDatabase userID (f row).id, t') := by
    refine (Durable.run_bind_of_ok hwrite).trans ?_
    rw [Durable.run_bind_of_ok (show Durable.get.run t' = (.ok t', t') from rfl), hfound]
    exact Durable.run_ofExcept_eq _ t'
  have hbuilt := buildUpdatedMemoState_run hsnippets hids hmem' hfetch
  rw [hgetUser] at hbuilt
  refine ⟨_, t', hrun, ?_, ?_, hrelations⟩
  · rcases hbuilt with ⟨hsome, message, hmessage⟩ | ⟨hnone, herror⟩
    · rw [hmessage]
      exact iff_of_true rfl hsome
    · rw [herror, hnone]
      exact iff_of_false Bool.false_ne_true Bool.false_ne_true
  · rcases hbuilt with ⟨-, message, hmessage⟩ | ⟨-, herror⟩
    · rw [hmessage]
      exact fun heq => by cases heq
    · rw [herror]
      exact fun heq => absurd (Except.error.inj heq) (by decide)

end loop

section update

variable {env : Env} {call : UpdateCall} {userID : Nat} {user : UserRecord} {memo : Memo}
  {s t : Storage} {d : Draft}

theorem updateMemo_run (hcheck : checkUpdate s.toDatabase userID call = .ok (user, memo)) :
    (updateMemo env userID call).run s =
      (Durable.fold (updateRound env call user) (Draft.start memo) call.memo.paths >>=
        finishUpdate env userID).run s := by
  have hdraft : (updateDraft env userID call).run s =
      (Durable.fold (updateRound env call user) (Draft.start memo) call.memo.paths).run s := by
    have hchecked : (Durable.ofExcept (checkUpdate s.toDatabase userID call) :
        Durable Storage Table String (UserRecord × Memo)).run s = (.ok (user, memo), s) := by
      rw [Durable.run_ofExcept_eq, hcheck]
    unfold updateDraft
    rw [Durable.run_bind_of_ok (show Durable.get.run s = (.ok s, s) from rfl),
      Durable.run_bind_of_ok hchecked]
  rw [updateMemo_eq]
  generalize Durable.fold (updateRound env call user) (Draft.start memo) call.memo.paths = loop
    at hdraft
  cases hrun : loop.run s with
  | mk result t =>
    rw [hrun] at hdraft
    cases result with
    | error e => rw [Durable.run_bind_of_error hdraft, Durable.run_bind_of_error hrun]
    | ok d => rw [Durable.run_bind_of_ok hdraft, Durable.run_bind_of_ok hrun]

theorem updateMemo_refused {e : String} (hcheck : checkUpdate s.toDatabase userID call = .error e) :
    (updateMemo env userID call).run s = (.error e, s) := by
  have hchecked : (Durable.ofExcept (checkUpdate s.toDatabase userID call) :
      Durable Storage Table String (UserRecord × Memo)).run s = (.error e, s) := by
    rw [Durable.run_ofExcept_eq, hcheck]
  rw [updateMemo_eq]
  refine Durable.run_bind_of_error ?_
  unfold updateDraft
  rw [Durable.run_bind_of_ok (show Durable.get.run s = (.ok s, s) from rfl),
    Durable.run_bind_of_error hchecked]

theorem updateMemo_failed (hcheck : checkUpdate s.toDatabase userID call = .ok (user, memo))
    {before after : List Path} {path : Path} (hpaths : call.memo.paths = before ++ path :: after)
    (hbefore : (Durable.fold (updateRound env call user) (Draft.start memo) before).run s = (.ok d, t))
    {e : String} {t' : Storage} (hround : (updateRound env call user d path).run t = (.error e, t')) :
    (updateMemo env userID call).run s = (.error e, t') := by
  rw [updateMemo_run hcheck]
  refine Durable.run_bind_of_error ?_
  rw [hpaths, Durable.fold_append, Durable.run_bind_of_ok hbefore]
  exact Durable.run_bind_of_error hround

theorem checkUpdate_rows (hcheck : checkUpdate s.toDatabase userID call = .ok (user, memo)) :
    (∃ row ∈ s.memos, row.id = memo.id ∧ row.uid = memo.uid ∧ row.creatorId = memo.creatorId) ∧
      ∀ uid, memo.parentUid = some uid → ∃ row ∈ s.memos, row.uid = uid := by
  obtain ⟨uid, -, hmemo, -, -⟩ := checkUpdate_ok hcheck
  constructor
  · obtain ⟨row, hrow, -, parent, -, rfl⟩ := Database.getMemo_uid hmemo
    exact ⟨row, hrow, rfl, rfl, rfl⟩
  · intro parentUid hparent
    obtain ⟨parent, hfound⟩ := getMemo_of_parent hmemo hparent
    obtain ⟨row, hrow, huid, -⟩ := Database.getMemo_uid hfound
    exact ⟨row, hrow, huid⟩

theorem Drafts.start (memo : Memo) : Drafts memo (Draft.start memo) := ⟨rfl, rfl, rfl⟩

theorem laterRound_isOk_iff (h : Intact s)
    (hparent : ∀ uid, memo.parentUid = some uid → ∃ row ∈ s.memos, row.uid = uid)
    {before : List Path} {path : Path} {result : Except String Draft}
    (hbefore : (Durable.fold (updateRound env call user) (.start memo) before).run s = (.ok d, t))
    (hround : (updateRound env call user d path).run t = (result, t')) :
    result.isOk ↔ Passes env call user memo t path := by
  obtain ⟨hframe, hd, -, -⟩ := updateFold_ok h hparent (.refl h) (.start memo) hbefore
  obtain ⟨_, _, hrun, hok, -⟩ := updateRound_run env call user h hframe hd hparent path
  obtain ⟨rfl, -⟩ := Prod.mk.inj (hround.symm.trans hrun)
  exact hok

end update

section diary

def diaryUpdate (paths : List Path) : UpdateCall where
  name := "memos/diary"
  memo := ⟨"", .unspecified, true, .unspecified, none, none, none, paths⟩
  attachments := []
  relations := []

def noteMemo : MemoRecord := { diaryMemo with id := 2, uid := "note" }

def linkedDiary : Storage :=
  { diary with memos := [diaryMemo, noteMemo], relations := [⟨1, 2, .REFERENCE⟩], nextMemoId := 3 }

theorem linkedDiary_intact : Intact linkedDiary where
  keys := ⟨by decide, by decide, by decide, by decide⟩
  attachmentIds := List.nodup_nil
  fresh := fun a ha => absurd ha List.not_mem_nil

theorem getMemo_linkedDiary :
    linkedDiary.getMemo { uid := some "diary" } = some (diaryMemo.withParent none) :=
  Database.getMemo_of_parents diaryMemo linkedDiary_intact.keys.memoUids List.mem_cons_self rfl

end diary

end Memoark.Server.WriteMemos
