import Memoark.Go.Strings
import Memoark.Server.ChildWrites

/-! What a creation leaves in the store when it fails. -/
namespace Memoark.Server.WriteMemos
open Store
open Program (Durable)

/-- No memo, relation, notification or link of an attachment is there that was not before. -/
structure CreatesNothing (s s' : Storage) : Prop where
  memos : ∀ row ∈ s'.memos, row ∈ s.memos
  relations : ∀ r ∈ s'.relations, r ∈ s.relations
  inboxes : ∀ inbox ∈ s'.inboxes, inbox ∈ s.inboxes
  attachments : ∀ a ∈ s'.attachments, ∀ id, a.memoId = some id →
    ∃ a' ∈ s.attachments, a'.id = a.id ∧ a'.memoId = some id

theorem CreatesNothing.refl (s : Storage) : CreatesNothing s s :=
  ⟨fun _ h => h, fun _ h => h, fun _ h => h, fun a ha _ hid => ⟨a, ha, rfl, hid⟩⟩

def FailsCleanly {α : Type} (call : Handler α) (s : Storage) : Prop :=
  ∀ e s', call.run s = (.error e, s') → CreatesNothing s s'

def UIDTaken (s : Storage) (uid : String) : Prop :=
  UIDMatcher uid = false ∨ ∃ row ∈ s.memos, row.uid = uid

/-- A request that passes the checks of `CreateMemo`: the user is signed in, the content is short
enough and can be parsed, and the memo gets the UID. -/
structure Accepted (env : Env) (s : Storage) (userID : Nat) (memoId : String) (memo : MemoInput)
    (user : UserRecord) (uid : String) : Prop where
  user : requireUser s.toDatabase userID "failed to get user" = .ok user
  uid : validateAndGenerateUID memoId env.newUID = .ok uid
  content : ∃ limit, env.contentLengthLimit = some limit ∧ memo.content.utf8ByteSize ≤ limit
  data : (env.extractAll memo.content).isSome

/-- What a request refers to can be found, and its attachments may be used by the user. -/
structure ReferencesExist (s : Storage) (user : UserRecord) (uid : String) (memo : MemoInput) :
    Prop where
  attachments : ∀ name ∈ memo.attachments, ∃ a, requestedAttachment s.toDatabase user name = .ok a
  relations : ∀ relation ∈ memo.relations, RelationExists s.memos uid relation

variable {env : Env} {s t : Storage} {user : UserRecord} {userID : Nat} {memoId : String}
  {memo : MemoInput} {create created : Memo}

theorem requireUser_getUser {db : Database} {failure : String}
    (h : requireUser db userID failure = .ok user) :
    user.id = userID ∧ db.getUser user.id = some user := by
  have hfetch := requireUser_ok h
  unfold fetchCurrentUser at hfetch
  split at hfetch
  · cases hfetch
  · split at hfetch
    · cases hfetch
    · rename_i found hfound
      split at hfetch
      · cases hfetch
      · obtain rfl := Option.some.inj (Except.ok.inj hfetch)
        have hid : found.id = userID := by simpa using List.find?_some hfound
        rw [hid]
        exact ⟨rfl, hfound⟩

def storedMemo (env : Env) (s : Storage) (create : Memo) : Memo :=
  { create with
    id := s.nextMemoId
    createdTs := if create.createdTs ≠ 0 then create.createdTs else env.now
    updatedTs := if create.updatedTs ≠ 0 then create.updatedTs else env.now
    rowStatus := .normal
    pinned := false }

theorem storeCreateMemo_refused (env : Env) (h : UIDTaken s create.uid) :
    ∃ e, (storeCreateMemo env create).run s = (.error e, s) := by
  unfold storeCreateMemo
  split
  · rename_i hvalid
    rcases h with hinvalid | ⟨row, hrow, huid⟩
    · rw [hvalid] at hinvalid
      cases hinvalid
    · have hany : (s.memos.any fun row => row.uid = create.uid) = true :=
        List.any_eq_true.mpr ⟨row, hrow, decide_eq_true huid⟩
      have hcreate : (Storage.createMemo create env.now).run s =
          (.error "UNIQUE constraint failed: memo.uid", s) := by
        refine (Durable.run_bind_of_ok (show Durable.get.run s = (.ok s, s) from rfl)).trans ?_
        rw [hany]
        rfl
      exact ⟨_, Durable.run_mapFailure_of_error hcreate⟩
  · exact ⟨_, rfl⟩

theorem storeCreateMemo_run (h : ¬UIDTaken s create.uid) :
    (storeCreateMemo env create).run s =
      (.ok (storedMemo env s create), s.insertMemo (storedMemo env s create).record) := by
  obtain ⟨hvalid, hfree⟩ := not_or.mp h
  have hany : (s.memos.any fun row => row.uid = create.uid) = false := by
    rw [List.any_eq_false]
    intro row hrow huid
    exact hfree ⟨row, hrow, of_decide_eq_true huid⟩
  unfold storeCreateMemo
  rw [if_pos (by simpa using hvalid), Durable.run_mapFailure]
  refine (Durable.run_bind_of_ok (show Durable.get.run s = (.ok s, s) from rfl)).trans ?_
  rw [hany]
  rfl

theorem accepted_of_newMemo (huser : requireUser s.toDatabase userID "failed to get user" = .ok user)
    (h : newMemo env user memoId memo = .ok create) :
    Accepted env s userID memoId memo user create.uid ∧ create.creatorId = user.id := by
  rw [newMemo] at h
  obtain ⟨uid, huid, h⟩ := Program.bind_ok h
  obtain ⟨limit, hlimit, h⟩ := Program.bind_ok h
  obtain ⟨_, hlength, h⟩ := Program.bind_ok h
  obtain ⟨built, hbuilt, h⟩ := Program.bind_ok h
  rw [← Except.ok.inj h]
  unfold rebuildPayload at hbuilt
  split at hbuilt
  · cases hbuilt
  · rename_i hpayload
    obtain ⟨data, hdata, hbuilt'⟩ := Option.map_eq_some_iff.mp hpayload
    obtain rfl := Except.ok.inj hbuilt
    rw [← hbuilt']
    refine ⟨⟨huser, huid, ⟨limit, ?_, ?_⟩, ?_⟩, rfl⟩
    · unfold getContentLengthLimit at hlimit
      split at hlimit
      · cases hlimit
      · rename_i hsetting
        rw [hsetting, Except.ok.inj hlimit]
    · unfold checkContentLength at hlength
      split at hlength
      · cases hlength
      · omega
    · rw [hdata]
      rfl

theorem Accepted.newMemo {uid : String} (h : Accepted env s userID memoId memo user uid) :
    ∃ create, newMemo env user memoId memo = .ok create ∧ create.uid = uid := by
  obtain ⟨limit, hlimit, hlength⟩ := h.content
  obtain ⟨data, hdata⟩ := Option.isSome_iff_exists.mp h.data
  have hcheck : checkContentLength memo.content limit = .ok () := if_neg (by omega)
  unfold WriteMemos.newMemo getContentLengthLimit rebuildPayload rebuildMemoPayload
  rw [h.uid, hlimit]
  dsimp only [bind, Except.bind]
  rw [hcheck, hdata]
  exact ⟨_, rfl, rfl⟩

def finishMemo (env : Env) (user : UserRecord) (userID : Nat) (memo : MemoInput) (created : Memo) :
    Handler Api.Memo := do
  let attachments ← setNewAttachments env user created memo.attachments
  setNewRelations created memo.relations
  let s ← Durable.get
  Durable.ofExcept (memoMessage env s.toDatabase userID created [] attachments)

theorem createMemo_run (huser : requireUser s.toDatabase userID "failed to get user" = .ok user)
    (hcreate : newMemo env user memoId memo = .ok create) (hfree : ¬UIDTaken s create.uid) :
    (createMemo env userID memoId memo).run s =
      (finishMemo env user userID memo (storedMemo env s create)).run
        (s.insertMemo (storedMemo env s create).record) := by
  refine (Durable.run_bind_of_ok (show Durable.get.run s = (.ok s, s) from rfl)).trans ?_
  refine (Durable.run_bind_of_ok ((Durable.run_ofExcept_eq _ s).trans (by rw [huser]))).trans ?_
  refine (Durable.run_bind_of_ok ((Durable.run_ofExcept_eq _ s).trans (by rw [hcreate]))).trans ?_
  exact Durable.run_bind_of_ok (storeCreateMemo_run hfree)

theorem createMemo_refused
    (h : ∀ user uid, Accepted env s userID memoId memo user uid → UIDTaken s uid) :
    ∃ e, (createMemo env userID memoId memo).run s = (.error e, s) := by
  unfold createMemo
  rw [Durable.run_bind_of_ok (show Durable.get.run s = (.ok s, s) from rfl)]
  cases huser : requireUser s.toDatabase userID "failed to get user" with
  | error e => exact ⟨e, Durable.run_bind_of_error rfl⟩
  | ok user =>
    rw [Durable.run_bind_of_ok (show (Durable.ofExcept (.ok user)).run s = (.ok user, s) from rfl)]
    cases hcreate : newMemo env user memoId memo with
    | error e => exact ⟨e, Durable.run_bind_of_error rfl⟩
    | ok create =>
      rw [Durable.run_bind_of_ok
        (show (Durable.ofExcept (.ok create)).run s = (.ok create, s) from rfl)]
      have htaken := h user create.uid (accepted_of_newMemo huser hcreate).1
      obtain ⟨e, hrun⟩ := storeCreateMemo_refused env htaken
      exact ⟨e, Durable.run_bind_of_error hrun⟩

theorem attachmentsPass_iff (hcurrent : currentAttachments t created = []) (names : List String) :
    AttachmentsPass env user t created names ↔
      ∀ name ∈ names, ∃ a, requestedAttachment t.toDatabase user name = .ok a := by
  unfold AttachmentsPass removedAttachments normalizeMemoAttachmentRequest
  rw [hcurrent]
  constructor
  · rintro ⟨normalized, hnormalized, -⟩
    obtain ⟨requested, hrequested, -⟩ := Program.bind_ok hnormalized
    intro name hname
    obtain ⟨a, -, ha⟩ := Program.ok_of_mapM_ok hrequested name hname
    exact ⟨a, ha⟩
  · intro hall
    obtain ⟨requested, hrequested⟩ := Program.exists_mapM_ok hall
    rw [hrequested]
    exact ⟨_, rfl, fun a ha => absurd ha List.not_mem_nil⟩

theorem setNewAttachments_run (env : Env) (user : UserRecord)
    (hids : (t.attachments.map (·.id)).Nodup)
    (hcurrent : currentAttachments t created = []) (names : List String) :
    ∃ result rows, (setNewAttachments env user created names).run t =
        (result, { t with attachments := rows }) ∧
      (result.isOk ↔ ∀ name ∈ names, ∃ a, requestedAttachment t.toDatabase user name = .ok a) := by
  unfold setNewAttachments
  by_cases hnames : names = []
  · rw [if_pos hnames, hnames]
    exact ⟨.ok [], t.attachments, rfl, iff_of_true rfl fun name h => absurd h List.not_mem_nil⟩
  · rw [if_neg hnames]
    by_cases hpass : AttachmentsPass env user t created names
    · obtain ⟨rows, hrun, -⟩ := setMemoAttachments_ok hids hpass
      refine ⟨.ok (currentAttachments { t with attachments := rows } created), rows, ?_, ?_⟩
      · exact Durable.run_bind_of_ok (Durable.run_mapFailure.mpr hrun)
      · exact iff_of_true rfl ((attachmentsPass_iff hcurrent names).mp hpass)
    · obtain ⟨e, ids, hrun, -⟩ := setMemoAttachments_error hids hpass
      refine ⟨_, _, Durable.run_bind_of_error (Durable.run_mapFailure_of_error hrun), ?_⟩
      exact iff_of_false Bool.false_ne_true fun h => hpass ((attachmentsPass_iff hcurrent names).mpr h)

theorem setNewRelations_run (created : Memo) (huids : (t.memos.map (·.uid)).Nodup)
    (hunique : t.relations.Nodup)
    (relations : List RelationInput) :
    ∃ result rows, (setNewRelations created relations).run t =
        (result, { t with relations := rows }) ∧
      (result.isOk ↔ ∀ relation ∈ relations, RelationExists t.memos created.uid relation) := by
  unfold setNewRelations
  by_cases hrelations : relations = []
  · rw [if_pos hrelations, hrelations]
    exact ⟨.ok (), t.relations, rfl, iff_of_true rfl fun r h => absurd h List.not_mem_nil⟩
  · rw [if_neg hrelations]
    obtain ⟨rows, hrun, -⟩ := setMemoRelations_run created huids hunique relations
    refine ⟨(relationsResult t.memos created relations).mapError
      (wrap "failed to set memo relations"), rows, ?_, ?_⟩
    · rw [Durable.run_mapFailure_eq, hrun]
    · rw [← relationsResult_ok_iff]
      cases relationsResult t.memos created relations with
      | error e => exact iff_of_false Bool.false_ne_true (by simp)
      | ok value => exact iff_of_true rfl rfl

theorem getNameParentToken_uid {uid head : String} (h : UIDMatcher uid = true)
    (hhead : '/' ∉ head.toList) : getNameParentToken (head ++ "/" ++ uid) (head ++ "/") = .ok uid := by
  unfold UIDMatcher at h
  simp only [Bool.and_eq_true, List.all_eq_true, decide_eq_true_eq, Bool.or_eq_true] at h
  obtain ⟨⟨⟨⟨hlength, -⟩, hchars⟩, -⟩, -⟩ := h
  have hslash : '/' ∉ uid.toList := by
    intro hmem
    have hchar := hchars '/' hmem
    revert hchar
    decide
  have hne : uid.toList ≠ [] := by
    rintro hnil
    rw [← String.length_toList, hnil] at hlength
    cases hlength
  have hsplit : (head ++ "/" ++ uid).toList.splitOn '/' = [head.toList, uid.toList] := by
    refine Go.splitOn_eq_pair.mpr ⟨?_, hhead, hslash⟩
    rw [String.toList_append, String.toList_append, List.append_assoc]
    rfl
  unfold getNameParentToken
  rw [hsplit]
  dsimp only
  rw [String.ofList_toList, if_neg (not_not.mpr rfl), if_neg hne, String.ofList_toList]

theorem extractMemoUID_memoName {uid : String} (h : UIDMatcher uid = true) :
    extractMemoUIDFromName (memoName uid) = .ok uid := by
  have hname := getNameParentToken_uid h (by decide : '/' ∉ "memos".toList)
  rw [show "memos" ++ "/" = "memos/" by decide] at hname
  exact hname

theorem relationExists_insert {memos : List MemoRecord} {row : MemoRecord}
    {relation : RelationInput} :
    RelationExists (memos ++ [row]) row.uid relation ↔ RelationExists memos row.uid relation := by
  unfold RelationExists
  refine exists_congr fun relatedMemo => and_congr_right fun _ => ?_
  constructor
  · rintro (hself | hcomment | ⟨related, hname, found, hfound, huid⟩)
    · exact .inl hself
    · exact .inr (.inl hcomment)
    · rcases List.mem_append.mp hfound with hold | hnew
      · exact .inr (.inr ⟨related, hname, found, hold, huid⟩)
      · obtain rfl := List.mem_singleton.mp hnew
        rw [extractMemoUID_ok hname, ← huid]
        exact .inl rfl
  · rintro (hself | hcomment | ⟨related, hname, found, hfound, huid⟩)
    · exact .inl hself
    · exact .inr (.inl hcomment)
    · exact .inr (.inr ⟨related, hname, found, List.mem_append_left _ hfound, huid⟩)

theorem finishMemo_run (memo : MemoInput) (h : Intact s) (hsnippets : env.Snippets)
    (huser : requireUser s.toDatabase userID "failed to get user" = .ok user)
    (hcreator : create.creatorId = user.id) (hfree : ¬UIDTaken s create.uid) :
    ∃ result s', (finishMemo env user userID memo (storedMemo env s create)).run
        (s.insertMemo (storedMemo env s create).record) = (result, s') ∧
      s'.memos = s.memos ++ [(storedMemo env s create).record] ∧ s'.users = s.users ∧
      (result.isOk ↔ ReferencesExist s user create.uid memo) ∧
      ∀ message, result = .ok message → message.name = memoName create.uid ∧
        message.creator = buildUserName user.username := by
  generalize hcreated : storedMemo env s create = created
  have hid : created.id = s.nextMemoId := by rw [← hcreated]; rfl
  have huid : created.uid = create.uid := by rw [← hcreated]; rfl
  have howner : created.creatorId = create.creatorId := by rw [← hcreated]; rfl
  have hcurrent : currentAttachments (s.insertMemo created.record) created = [] := by
    refine List.eq_nil_iff_forall_not_mem.mpr fun a ha => ?_
    obtain ⟨hmem, hmemo⟩ := mem_currentAttachments ha
    exact h.fresh a hmem (hid ▸ hmemo)
  obtain ⟨attached, rows, hattach, hattached⟩ := setNewAttachments_run env user
    (t := s.insertMemo created.record) h.attachmentIds hcurrent memo.attachments
  change _ ↔ ∀ name ∈ memo.attachments, ∃ a, requestedAttachment s.toDatabase user name = .ok a
    at hattached
  cases attached with
  | error e =>
    refine ⟨.error e, _, Durable.run_bind_of_error hattach, rfl, rfl, ?_, ?_⟩
    · exact iff_of_false Bool.false_ne_true fun hrefs =>
        Bool.false_ne_true (hattached.mpr hrefs.attachments)
    · intro message hmessage
      cases hmessage
  | ok attachments =>
    have huids : ((s.memos ++ [created.record]).map (·.uid)).Nodup := by
      rw [List.map_append]
      refine List.nodup_append.mpr ⟨h.keys.memoUids, List.nodup_singleton _, ?_⟩
      intro uid' hmem last hlast heq
      obtain ⟨row, hrow, rfl⟩ := List.mem_map.mp hmem
      refine hfree (.inr ⟨row, hrow, ?_⟩)
      rw [heq, List.mem_singleton.mp hlast]
      exact huid
    obtain ⟨related, rows', hrelate, hrelated⟩ := setNewRelations_run created
      (t := { s.insertMemo created.record with attachments := rows }) huids h.keys.relations
      memo.relations
    have hrecord : created.uid = created.record.uid := rfl
    change _ ↔ ∀ relation ∈ memo.relations,
      RelationExists (s.memos ++ [created.record]) created.uid relation at hrelated
    simp only [hrecord, relationExists_insert] at hrelated
    cases related with
    | error e =>
      refine ⟨.error e, _, (Durable.run_bind_of_ok hattach).trans
        (Durable.run_bind_of_error hrelate), rfl, rfl, ?_, ?_⟩
      · exact iff_of_false Bool.false_ne_true fun hrefs =>
          Bool.false_ne_true (hrelated.mpr (by
            rw [← hrecord, huid]
            exact hrefs.relations))
      · intro message hmessage
        cases hmessage
    | ok _ =>
      generalize hlast : { s.insertMemo created.record with
        attachments := rows, relations := rows' } = last at hrelate
      have husers : last.users = s.users := by rw [← hlast]; rfl
      have hmemos : last.memos = s.memos ++ [created.record] := by rw [← hlast]; rfl
      have hfetch := (fetchCurrentUser_of_users husers userID).trans (requireUser_ok huser)
      have hfound : last.getUser created.creatorId = some user := by
        unfold Database.getUser
        rw [husers, howner, hcreator]
        exact (requireUser_getUser huser).2
      obtain ⟨message, hmessage, hname, hcreatorName⟩ :=
        memoMessage_total hsnippets hfetch hfound [] attachments
      refine ⟨.ok message, last, ?_, hmemos, husers, ?_, ?_⟩
      · refine (Durable.run_bind_of_ok hattach).trans ((Durable.run_bind_of_ok hrelate).trans ?_)
        refine (Durable.run_bind_of_ok (show Durable.get.run last = (.ok last, last) from rfl)).trans ?_
        exact (Durable.run_ofExcept_eq _ last).trans (by rw [hmessage])
      · refine iff_of_true rfl ⟨hattached.mp rfl, ?_⟩
        rw [← huid, hrecord]
        exact hrelated.mp rfl
      · intro message' heq
        rw [← Except.ok.inj heq, ← huid]
        exact ⟨hname, hcreatorName⟩

theorem failsCleanly_iff_isOk {α : Type} {call : Handler α} {result : Except Status α}
    (hrun : call.run s = (result, t)) {row : MemoRecord} (hrow : row ∈ t.memos)
    (hnew : row ∉ s.memos) : FailsCleanly call s ↔ result.isOk := by
  constructor
  · intro hclean
    cases result with
    | error e => exact absurd ((hclean e t hrun).memos row hrow) hnew
    | ok a => rfl
  · intro hok e s' h
    rw [hrun] at h
    obtain ⟨rfl, -⟩ := Prod.mk.inj h
    cases hok

theorem createMemo_accepted (h : Intact s) (hsnippets : env.Snippets) {uid : String}
    (haccepted : Accepted env s userID memoId memo user uid) (hfree : ¬UIDTaken s uid) :
    ∃ row result s', (createMemo env userID memoId memo).run s = (result, s') ∧
      row.uid = uid ∧ s'.memos = s.memos ++ [row] ∧ s'.users = s.users ∧
      (result.isOk ↔ ReferencesExist s user uid memo) ∧
      ∀ message, result = .ok message → message.name = memoName uid ∧
        message.creator = buildUserName user.username := by
  obtain ⟨create, hcreate, rfl⟩ := haccepted.newMemo
  obtain ⟨-, hcreator⟩ := accepted_of_newMemo haccepted.user hcreate
  obtain ⟨result, s', hrun, hmemos, husers, hresult, hmessage⟩ :=
    finishMemo_run memo h hsnippets haccepted.user hcreator hfree
  exact ⟨_, result, s', (createMemo_run haccepted.user hcreate hfree).trans hrun, rfl, hmemos,
    husers, hresult, hmessage⟩

theorem not_mem_of_free {uid : String} (hfree : ¬UIDTaken s uid) {row : MemoRecord}
    (huid : row.uid = uid) : row ∉ s.memos :=
  fun hmem => hfree (.inr ⟨row, hmem, huid⟩)

theorem createMemo_failsCleanly_iff (h : Intact s) (hsnippets : env.Snippets) :
    FailsCleanly (createMemo env userID memoId memo) s ↔
      ∀ user uid, Accepted env s userID memoId memo user uid →
        UIDTaken s uid ∨ ReferencesExist s user uid memo := by
  constructor
  · intro hclean user uid haccepted
    by_cases hfree : UIDTaken s uid
    · exact .inl hfree
    · obtain ⟨row, result, s', hrun, huid, hmemos, -, hresult, -⟩ :=
        createMemo_accepted h hsnippets haccepted hfree
      have hrow : row ∈ s'.memos := by
        rw [hmemos]
        exact List.mem_append_right _ (List.mem_singleton_self row)
      have hok := (failsCleanly_iff_isOk hrun hrow (not_mem_of_free hfree huid)).mp hclean
      exact .inr (hresult.mp hok)
  · intro hall
    by_cases hrefused : ∀ user uid, Accepted env s userID memoId memo user uid → UIDTaken s uid
    · obtain ⟨e, hrun⟩ := createMemo_refused hrefused
      intro e' s' hrun'
      rw [hrun] at hrun'
      obtain ⟨-, rfl⟩ := Prod.mk.inj hrun'
      exact .refl s
    · simp only [not_forall] at hrefused
      obtain ⟨user, uid, haccepted, hfree⟩ := hrefused
      obtain ⟨row, result, s', hrun, huid, hmemos, -, hresult, -⟩ :=
        createMemo_accepted h hsnippets haccepted hfree
      have hrow : row ∈ s'.memos := by
        rw [hmemos]
        exact List.mem_append_right _ (List.mem_singleton_self row)
      refine (failsCleanly_iff_isOk hrun hrow (not_mem_of_free hfree huid)).mpr ?_
      exact hresult.mpr ((hall user uid haccepted).resolve_left hfree)

section comment

variable {name commentId : String} {comment : Option MemoInput} {related : Memo}

def finishComment (env : Env) (userID : Nat) (relatedMemo : Memo) (memoComment : Api.Memo) :
    Handler Api.Memo := do
  let s ← Durable.get
  let memo ← Durable.ofExcept (memoOfMessage s.toDatabase memoComment)
  (Storage.upsertMemoRelation ⟨memo.id, relatedMemo.id, .COMMENT⟩).mapFailure
    fun _ => ⟨.Internal, "failed to create memo relation"⟩
  let s ← Durable.get
  let relations ← Durable.ofExcept
    ((loadMemoRelations s.toDatabase env.generateSnippet userID memo).mapError
      fun _ => ⟨.Internal, "failed to load memo relations"⟩)
  let creator ← Durable.ofExcept (resolveCreator s.toDatabase memoComment.creator)
  notifyCreator creator.id memoComment.visibility memo relatedMemo
  return { memoComment with relations }

theorem createMemoComment_run
    (hcheck : checkMemoComment s.toDatabase userID name comment = .ok (related, memo)) :
    (createMemoComment env userID name comment commentId).run s =
      ((createMemo env userID commentId memo).mapFailure
        (answered ⟨.Internal, "failed to create memo"⟩) >>= finishComment env userID related).run s := by
  have hchecked : (Durable.ofExcept (checkMemoComment s.toDatabase userID name comment) :
      Handler (Memo × MemoInput)).run s = (.ok (related, memo), s) := by
    rw [Durable.run_ofExcept_eq, hcheck]
  unfold createMemoComment finishComment
  rw [Durable.run_bind_of_ok (show Durable.get.run s = (.ok s, s) from rfl),
    Durable.run_bind_of_ok hchecked]

theorem finishComment_run (related : Memo) (hsnippets : env.Snippets) {uid username : String}
    (hvalid : UIDMatcher uid = true) (hrow : ∃ row ∈ s.memos, row.uid = uid)
    (hfetch : fetchCurrentUser s.toDatabase userID = .ok (some user)) {message : Api.Memo}
    (hname : message.name = memoName uid) (hcreator : message.creator = buildUserName username) :
    ∃ result s', (finishComment env userID related message).run s = (result, s') ∧
      s'.memos = s.memos ∧
      (result.isOk ↔ ∃ creator, resolveCreator s.toDatabase (buildUserName username) =
        .ok creator) := by
  obtain ⟨row, hmem, huid⟩ := hrow
  obtain ⟨memo, hmemo⟩ := Database.exists_getMemo hmem
  rw [huid] at hmemo
  have hread : memoOfMessage s.toDatabase message = .ok memo := by
    unfold memoOfMessage
    rw [hname, extractMemoUID_memoName hvalid]
    dsimp only [Except.mapError, bind, Except.bind]
    rw [hmemo]
  have hrelated : ((Storage.upsertMemoRelation ⟨memo.id, related.id, .COMMENT⟩).mapFailure
      fun _ => (⟨.Internal, "failed to create memo relation"⟩ : Status)).run s =
        (.ok (), s.insertRelation ⟨memo.id, related.id, .COMMENT⟩) := rfl
  generalize hs₁ : s.insertRelation ⟨memo.id, related.id, .COMMENT⟩ = s₁ at hrelated
  have husers : s₁.users = s.users := by rw [← hs₁]; rfl
  have hmemos : s₁.memos = s.memos := by rw [← hs₁]; rfl
  have hfetch₁ := (fetchCurrentUser_of_users husers userID).trans hfetch
  obtain ⟨relations, hrelations⟩ := loadMemoRelations_total hsnippets hfetch₁ memo
  have hresolve : resolveCreator s₁.toDatabase message.creator =
      resolveCreator s.toDatabase (buildUserName username) := by
    unfold resolveCreator
    rw [hcreator, husers]
  have hstart : (finishComment env userID related message).run s =
      (do
        let creator ← Durable.ofExcept (resolveCreator s.toDatabase (buildUserName username))
        notifyCreator creator.id message.visibility memo related
        return { message with relations } : Handler Api.Memo).run s₁ := by
    refine (Durable.run_bind_of_ok (show Durable.get.run s = (.ok s, s) from rfl)).trans ?_
    refine (Durable.run_bind_of_ok ((Durable.run_ofExcept_eq _ s).trans (by rw [hread]))).trans ?_
    refine (Durable.run_bind_of_ok hrelated).trans ?_
    refine (Durable.run_bind_of_ok (show Durable.get.run s₁ = (.ok s₁, s₁) from rfl)).trans ?_
    refine (Durable.run_bind_of_ok ((Durable.run_ofExcept_eq _ s₁).trans (by
      rw [hrelations]
      rfl))).trans ?_
    rw [hresolve]
  rw [hstart]
  cases hcreator' : resolveCreator s.toDatabase (buildUserName username) with
  | error e =>
    refine ⟨.error e, s₁, Durable.run_bind_of_error rfl, hmemos, ?_⟩
    exact iff_of_false Bool.false_ne_true fun ⟨creator, h⟩ => by cases h
  | ok creator =>
    obtain ⟨s₂, hnotified, -, hkept, -⟩ :=
      notifyCreator_total creator.id message.visibility memo related s₁
    refine ⟨.ok { message with relations }, s₂, ?_, hkept.trans hmemos, ?_⟩
    · exact (Durable.run_bind_of_ok (Durable.run_ofExcept_eq _ s₁)).trans
        (Durable.run_bind_of_ok hnotified)
    · exact iff_of_true rfl ⟨creator, rfl⟩

theorem createMemoComment_accepted (h : Intact s) (hsnippets : env.Snippets)
    (hcheck : checkMemoComment s.toDatabase userID name comment = .ok (related, memo)) {uid : String}
    (haccepted : Accepted env s userID commentId memo user uid) (hfree : ¬UIDTaken s uid) :
    ∃ row result s', (createMemoComment env userID name comment commentId).run s = (result, s') ∧
      row ∈ s'.memos ∧ row ∉ s.memos ∧
      (result.isOk ↔ ReferencesExist s user uid memo ∧
        ∃ creator, resolveCreator s.toDatabase (buildUserName user.username) = .ok creator) := by
  obtain ⟨row, created, s₁, hcreated, huid, hmemos, husers, hok, hmessage⟩ :=
    createMemo_accepted h hsnippets haccepted hfree
  have hrow : row ∈ s₁.memos := by
    rw [hmemos]
    exact List.mem_append_right _ (List.mem_singleton_self row)
  have hnew := not_mem_of_free hfree huid
  rw [createMemoComment_run hcheck]
  cases created with
  | error e =>
    refine ⟨row, _, s₁, Durable.run_bind_of_error (Durable.run_mapFailure_of_error hcreated), hrow,
      hnew, ?_⟩
    exact iff_of_false Bool.false_ne_true fun hrefs => Bool.false_ne_true (hok.mpr hrefs.1)
  | ok message =>
    obtain ⟨hname, hcreator⟩ := hmessage message rfl
    have hvalid : UIDMatcher uid = true := by simpa using (not_or.mp hfree).1
    have hfetch := (fetchCurrentUser_of_users husers userID).trans (requireUser_ok haccepted.user)
    obtain ⟨result, s₂, hrun, hkept, hresult⟩ := finishComment_run related hsnippets
      hvalid ⟨row, hrow, huid⟩ hfetch hname hcreator
    have hresolve : resolveCreator s₁.toDatabase = resolveCreator s.toDatabase := by
      unfold resolveCreator
      rw [husers]
    rw [hresolve] at hresult
    refine ⟨row, result, s₂, (Durable.run_bind_of_ok (Durable.run_mapFailure.mpr hcreated)).trans
      hrun, by rw [hkept]; exact hrow, hnew, ?_⟩
    exact hresult.trans (and_iff_right (hok.mp rfl)).symm

theorem createMemoComment_refused
    (h : ∀ related memo user uid, checkMemoComment s.toDatabase userID name comment =
      .ok (related, memo) → Accepted env s userID commentId memo user uid → UIDTaken s uid) :
    ∃ e, (createMemoComment env userID name comment commentId).run s = (.error e, s) := by
  cases hcheck : checkMemoComment s.toDatabase userID name comment with
  | error e =>
    have hchecked : (Durable.ofExcept (checkMemoComment s.toDatabase userID name comment) :
        Handler (Memo × MemoInput)).run s = (.error e, s) := by
      rw [Durable.run_ofExcept_eq, hcheck]
    unfold createMemoComment
    rw [Durable.run_bind_of_ok (show Durable.get.run s = (.ok s, s) from rfl),
      Durable.run_bind_of_error hchecked]
    exact ⟨e, rfl⟩
  | ok checked =>
    obtain ⟨related, memo⟩ := checked
    obtain ⟨e, hrun⟩ := createMemo_refused fun user uid => h related memo user uid hcheck
    rw [createMemoComment_run hcheck]
    exact ⟨_, Durable.run_bind_of_error (Durable.run_mapFailure_of_error hrun)⟩

theorem createMemoComment_failsCleanly_iff (h : Intact s) (hsnippets : env.Snippets) :
    FailsCleanly (createMemoComment env userID name comment commentId) s ↔
      ∀ related memo user uid, checkMemoComment s.toDatabase userID name comment =
        .ok (related, memo) → Accepted env s userID commentId memo user uid →
          UIDTaken s uid ∨ ReferencesExist s user uid memo ∧
            ∃ creator, resolveCreator s.toDatabase (buildUserName user.username) = .ok creator := by
  constructor
  · intro hclean related memo user uid hcheck haccepted
    by_cases hfree : UIDTaken s uid
    · exact .inl hfree
    · obtain ⟨row, result, s', hrun, hrow, hnew, hresult⟩ :=
        createMemoComment_accepted h hsnippets hcheck haccepted hfree
      exact .inr (hresult.mp ((failsCleanly_iff_isOk hrun hrow hnew).mp hclean))
  · intro hall
    by_cases hrefused : ∀ related memo user uid,
        checkMemoComment s.toDatabase userID name comment = .ok (related, memo) →
          Accepted env s userID commentId memo user uid → UIDTaken s uid
    · obtain ⟨e, hrun⟩ := createMemoComment_refused hrefused
      intro e' s' hrun'
      rw [hrun] at hrun'
      obtain ⟨-, rfl⟩ := Prod.mk.inj hrun'
      exact .refl s
    · simp only [not_forall] at hrefused
      obtain ⟨related, memo, user, uid, hcheck, haccepted, hfree⟩ := hrefused
      obtain ⟨row, result, s', hrun, hrow, hnew, hresult⟩ :=
        createMemoComment_accepted h hsnippets hcheck haccepted hfree
      refine (failsCleanly_iff_isOk hrun hrow hnew).mpr (hresult.mpr ?_)
      exact (hall related memo user uid hcheck haccepted).resolve_left hfree

end comment

/-- Exactly when creations that fail leave nothing behind: what they refer to is there, or they
are refused before the insert. -/
theorem creations_failCleanly_iff (h : Intact s) (hsnippets : env.Snippets) (userID : Nat) :
    (∀ memoId memo, FailsCleanly (createMemo env userID memoId memo) s ↔
      ∀ user uid, Accepted env s userID memoId memo user uid →
        UIDTaken s uid ∨ ReferencesExist s user uid memo) ∧
    (∀ name comment commentId, FailsCleanly (createMemoComment env userID name comment commentId) s ↔
      ∀ related memo user uid, checkMemoComment s.toDatabase userID name comment =
        .ok (related, memo) → Accepted env s userID commentId memo user uid →
          UIDTaken s uid ∨ ReferencesExist s user uid memo ∧
            ∃ creator, resolveCreator s.toDatabase (buildUserName user.username) = .ok creator) :=
  ⟨fun _ _ => createMemo_failsCleanly_iff h hsnippets,
    fun _ _ _ => createMemoComment_failsCleanly_iff h hsnippets⟩

section diary

theorem diary_intact : Intact diary where
  keys := ⟨by decide, by decide, by decide, List.nodup_nil⟩
  attachmentIds := List.nodup_nil
  fresh := fun a ha => absurd ha List.not_mem_nil

def linkedNote : MemoInput :=
  ⟨"", .Public, none, none, none, [], [⟨some "memos/diary", some .REFERENCE⟩]⟩

/-- A memo that refers to another one. -/
theorem creations_failCleanly_linked :
    FailsCleanly (createMemo (lenientEnv "note") 1 "" linkedNote) diary := by
  have hiff := (creations_failCleanly_iff diary_intact (lenientEnv_snippets "note") 1).1 "" linkedNote
  refine hiff.mpr fun user uid _ => .inr ⟨?_, ?_⟩
  · intro name hname
    cases hname
  · intro relation hrelation
    obtain rfl := List.mem_singleton.mp hrelation
    exact ⟨_, rfl, .inr (.inr ⟨"diary", by decide +kernel, _, List.mem_singleton_self _, rfl⟩)⟩

def strayNote : MemoInput :=
  ⟨"", .Public, none, none, none, [], [⟨some "memos/gone", some .REFERENCE⟩]⟩

/-- The creation fails, and the note is stored. -/
theorem strayNote_left : ∃ e s' row, (createMemo (lenientEnv "note") 1 "" strayNote).run diary =
    (.error e, s') ∧ row ∈ s'.memos ∧ row ∉ diary.memos := by
  have haccepted : Accepted (lenientEnv "note") diary 1 "" strayNote ada "note" :=
    ⟨rfl, by decide, ⟨8192, rfl, by decide⟩, rfl⟩
  have hfree : ¬UIDTaken diary "note" := by
    rintro (hinvalid | ⟨row, hrow, huid⟩)
    · revert hinvalid
      decide
    · obtain rfl := List.mem_singleton.mp hrow
      revert huid
      decide
  obtain ⟨row, result, s', hrun, huid, hmemos, -, hresult, -⟩ :=
    createMemo_accepted diary_intact (lenientEnv_snippets "note") haccepted hfree
  have hmissing : ¬ReferencesExist diary ada "note" strayNote := by
    intro hrefs
    obtain ⟨_, hgone, hfound⟩ := hrefs.relations _ List.mem_cons_self
    obtain rfl := Option.some.inj hgone
    rcases hfound with hself | hcomment | ⟨related, hname, row, hrow, huid⟩
    · revert hself
      decide
    · cases hcomment
    · obtain rfl := List.mem_singleton.mp hrow
      rw [← huid] at hname
      revert hname
      decide
  cases result with
  | ok message => exact absurd (hresult.mp rfl) hmissing
  | error e =>
    refine ⟨e, s', row, hrun, ?_, not_mem_of_free hfree huid⟩
    rw [hmemos]
    exact List.mem_append_right _ (List.mem_singleton_self row)

end diary

end Memoark.Server.WriteMemos
