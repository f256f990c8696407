import Memoark.Server.UpdateFailures

/-! `SetMemoRelations` and the path of an update for relations: all of a request or nothing. -/
namespace Memoark.Server.WriteMemos
open Store
open Program (Durable)

section handler

def checkSetMemoRelations (db : Database) (userID : Nat) (name : String) : Except Status Memo := do
  let current ← (fetchCurrentUser db userID).mapError
    fun err => ⟨.Internal, "failed to get current user: " ++ err⟩
  match current with
  | none => .error ⟨.Unauthenticated, "user not authenticated"⟩
  | some user =>
    let memoUID ← (extractMemoUIDFromName name).mapError
      fun err => ⟨.InvalidArgument, "invalid memo name: " ++ err⟩
    let memo ← foundMemo (db.getMemo { uid := some memoUID })
    if memo.creatorId ≠ user.id ∧ ¬isSuperUser user then
      .error ⟨.PermissionDenied, "permission denied"⟩
    else .ok memo

def touchMemoUpdatedTimestamp (env : Env) (memoID : Nat) : Handler Unit :=
  (Storage.updateMemo memoID ⟨none, some env.now, none, none, none, none, none⟩).mapFailure
    fun _ => ⟨.Internal, "failed to update memo timestamp"⟩

def setMemoRelations (env : Env) (userID : Nat) (name : String)
    (relations : List RelationInput) : Handler Unit := do
  let s ← Durable.get
  let memo ← Durable.ofExcept (checkSetMemoRelations s.toDatabase userID name)
  setMemoRelationsInternal memo relations
  touchMemoUpdatedTimestamp env memo.id
  let s ← Durable.get
  let _ ← Durable.ofExcept ((buildUpdatedMemoState env s.toDatabase userID memo.id).mapError
    fun _ => ⟨.Internal, "failed to build updated memo state"⟩)
  return

end handler

section specification

/-- The request asks for the relation: it names the related memo, which is another one, and is
no comment. -/
def Requests (memos : List MemoRecord) (memo : Memo) (relations : List RelationInput)
    (r : MemoRelation) : Prop :=
  r.memoId = memo.id ∧ r.type = .REFERENCE ∧ ∃ relation ∈ relations,
    relation.type ≠ some .COMMENT ∧ relation.relatedMemo ≠ some (memoName memo.uid) ∧
      ∃ row ∈ memos, row.id = r.relatedMemoId ∧ relation.relatedMemo = some (memoName row.uid)

/-- Either the references of the memo are the requested ones, each once, and the other relations
stay, or the call fails and all stay; it does not panic. -/
structure AllOrNothing {ε α : Type} (panic : ε) (memo : Memo) (relations : List RelationInput)
    (s : Storage) (result : Except ε α) (s' : Storage) : Prop where
  done : result.isOk → s'.relations.Nodup ∧ ∀ r, r ∈ s'.relations ↔
    (r ∈ s.relations ∧ ¬(r.memoId = memo.id ∧ r.type = .REFERENCE)) ∨
      Requests s.memos memo relations r
  failed : ¬result.isOk → ∀ r, r ∈ s'.relations ↔ r ∈ s.relations
  noPanic : result ≠ .error panic

/-- The first relation of a request that does not exist has no valid name. -/
def Misnamed (memos : List MemoRecord) (uid : String) (relations : List RelationInput) : Prop :=
  ∃ before relation after, relations = before ++ relation :: after ∧
    (∀ other ∈ before, RelationExists memos uid other) ∧ ¬RelationExists memos uid relation ∧
    ∃ relatedMemo err, relation.relatedMemo = some relatedMemo ∧
      extractMemoUIDFromName relatedMemo = .error err

variable {memos : List MemoRecord} {memo : Memo} {relations : List RelationInput}

theorem convertMemoRelationType_reference {type : Option Api.MemoRelation.Type}
    (h : type ≠ some .COMMENT) : convertMemoRelationTypeToStore type = .REFERENCE := by
  cases type with
  | none => rfl
  | some type =>
    cases type with
    | REFERENCE => rfl
    | COMMENT => exact absurd rfl h

theorem relationTarget_eq_some_iff (huids : (memos.map (·.uid)).Nodup) {relation : RelationInput}
    (hexists : RelationExists memos memo.uid relation) {r : MemoRelation} :
    relationTarget memos memo relation = some (some r) ↔
      r.memoId = memo.id ∧ r.type = .REFERENCE ∧ relation.type ≠ some .COMMENT ∧
        relation.relatedMemo ≠ some (memoName memo.uid) ∧ ∃ row ∈ memos, row.id = r.relatedMemoId ∧
          relation.relatedMemo = some (memoName row.uid) := by
  obtain ⟨relatedMemo, hname, hfound⟩ := hexists
  unfold relationTarget
  rw [hname]
  dsimp only
  by_cases hskip : memoName memo.uid = relatedMemo ∨ relation.type = some .COMMENT
  · rw [if_pos hskip]
    refine iff_of_false (fun h => by cases h) ?_
    rintro ⟨-, -, hcomment, hself, -⟩
    rcases hskip with rfl | htype
    · exact hself rfl
    · exact hcomment htype
  · rw [if_neg hskip]
    obtain ⟨hother, hreference⟩ := not_or.mp hskip
    obtain ⟨related, huid, row, hrow, hrowUid⟩ := (hfound.resolve_left hother).resolve_left hreference
    have hrelated := extractMemoUID_ok huid
    rw [huid]
    dsimp only
    cases hfind : memos.find? (·.uid = related) with
    | none => exact absurd (decide_eq_true hrowUid) (List.find?_eq_none.mp hfind row hrow)
    | some found =>
      have hfoundUid : found.uid = related := by simpa using List.find?_some hfind
      have hmem := List.mem_of_find?_eq_some hfind
      rw [Option.map_some, Option.some.injEq, Option.some.injEq,
        convertMemoRelationType_reference hreference]
      constructor
      · rintro rfl
        refine ⟨rfl, rfl, hreference, ?_, found, hmem, rfl, ?_⟩
        · exact fun heq => hother (Option.some.inj heq).symm
        · rw [hrelated, hfoundUid]
      · rintro ⟨hid, htype, -, -, row', hrow', hrowId, hrowName⟩
        have hsame : row'.uid = related := memoName_inj ((Option.some.inj hrowName).symm.trans hrelated)
        obtain rfl : row' = found :=
          List.inj_on_of_nodup_map huids hrow' hmem (hsame.trans hfoundUid.symm)
        cases r
        simp_all

theorem mem_relationsWritten_iff
    (hexist : ∀ relation ∈ relations, RelationExists memos memo.uid relation) {r : MemoRelation} :
    r ∈ relationsWritten memos memo relations ↔
      ∃ relation ∈ relations, relationTarget memos memo relation = some (some r) := by
  induction relations with
  | nil => simp [relationsWritten]
  | cons relation relations ih =>
    obtain ⟨hfirst, hrest⟩ := List.forall_mem_cons.mp hexist
    unfold relationsWritten
    obtain ⟨target, htarget⟩ := Option.isSome_iff_exists.mp (relationTarget_isSome_iff.mpr hfirst)
    rw [htarget]
    cases target with
    | none => simp [htarget, ih hrest]
    | some r₀ => simp [htarget, ih hrest, eq_comm]

theorem written_iff_requests (huids : (memos.map (·.uid)).Nodup)
    (hexist : ∀ relation ∈ relations, RelationExists memos memo.uid relation) {r : MemoRelation} :
    r ∈ relationsWritten memos memo relations ↔ Requests memos memo relations r := by
  rw [mem_relationsWritten_iff hexist]
  constructor
  · rintro ⟨relation, hmem, htarget⟩
    obtain ⟨hid, htype, hcomment, hself, row, hrow⟩ :=
      (relationTarget_eq_some_iff huids (hexist relation hmem)).mp htarget
    exact ⟨hid, htype, relation, hmem, hcomment, hself, row, hrow⟩
  · rintro ⟨hid, htype, relation, hmem, hcomment, hself, row, hrow⟩
    exact ⟨relation, hmem, (relationTarget_eq_some_iff huids (hexist relation hmem)).mpr
      ⟨hid, htype, hcomment, hself, row, hrow⟩⟩

theorem relationFailure_ne_panicked_iff {relation : RelationInput} :
    relationFailure relation ≠ panicked ↔ ∃ relatedMemo err,
      relation.relatedMemo = some relatedMemo ∧ extractMemoUIDFromName relatedMemo = .error err := by
  unfold relationFailure
  cases relation.relatedMemo with
  | none => simp
  | some relatedMemo =>
    dsimp only
    cases huid : extractMemoUIDFromName relatedMemo with
    | error err => simp [panicked, huid]
    | ok uid => simp [huid]

theorem relationsResult_panics_iff
    (hmissing : ¬∀ relation ∈ relations, RelationExists memos memo.uid relation) :
    relationsResult memos memo relations ≠ .error panicked ↔ Misnamed memos memo.uid relations := by
  unfold relationsResult
  cases hfind : relations.find? fun relation => (relationTarget memos memo relation).isNone with
  | none =>
    refine absurd (fun relation hrelation => relationTarget_isSome_iff.mp ?_) hmissing
    simpa [Option.isSome_iff_ne_none] using List.find?_eq_none.mp hfind relation hrelation
  | some relation =>
    obtain ⟨hnone, before, after, hsplit, hbefore⟩ := List.find?_eq_some_iff_append.mp hfind
    have hexist : ∀ other ∈ before, RelationExists memos memo.uid other := by
      intro other hother
      have hsome := hbefore other hother
      rw [← relationTarget_isSome_iff]
      simpa [Option.isSome_iff_ne_none] using hsome
    have hfirst : ¬RelationExists memos memo.uid relation := by
      rw [← relationTarget_isSome_iff, Option.isNone_iff_eq_none.mp hnone]
      exact Bool.false_ne_true
    dsimp only
    rw [ne_eq, Except.error.injEq, ← ne_eq, relationFailure_ne_panicked_iff]
    constructor
    · exact fun hname => ⟨before, relation, after, hsplit, hexist, hfirst, hname⟩
    · rintro ⟨before', relation', after', hsplit', hexist', hfirst', hname⟩
      -- Both lists are split at the first relation that does not exist.
      have hfind' : relations.find? (fun relation => (relationTarget memos memo relation).isNone) =
          some relation' := by
        refine List.find?_eq_some_iff_append.mpr ⟨?_, before', after', hsplit', ?_⟩
        · rw [← relationTarget_isSome_iff] at hfirst'
          simpa using hfirst'
        · intro other hother
          have hsome := relationTarget_isSome_iff.mpr (hexist' other hother)
          simpa [Option.isSome_iff_ne_none] using hsome
      rw [Option.some.inj (hfind.symm.trans hfind')]
      exact hname

end specification

section answers

variable {s s' t : Storage} {memo : Memo} {relations : List RelationInput}

/-- What decides whether a call that has written the relations did so as a whole: `built` says
whether it can answer once they are written. -/
theorem allOrNothing_iff {ε α : Type} {panic : ε} {result : Except ε α} {built : Prop} (h : Intact s)
    (hok : result.isOk ↔
      (∀ relation ∈ relations, RelationExists s.memos memo.uid relation) ∧ built)
    (hpanic : result = .error panic ↔ relationsResult s.memos memo relations = .error panicked)
    (hreplaced : Replaced memo relations s s') (hnodup : s'.relations.Nodup) :
    AllOrNothing panic memo relations s result s' ↔
      ((∀ relation ∈ relations, RelationExists s.memos memo.uid relation) ∧
          (built ∨ SameReferences s memo relations)) ∨
        Misnamed s.memos memo.uid relations ∧ SameReferences s memo relations := by
  by_cases hexist : ∀ relation ∈ relations, RelationExists s.memos memo.uid relation
  · have hnoPanic : result ≠ .error panic := by
      rw [ne_eq, hpanic, relationsResult_ok_iff.mpr hexist]
      exact fun heq => by cases heq
    have hnamed : ¬Misnamed s.memos memo.uid relations := by
      rintro ⟨before, relation, after, rfl, -, hmissing, -⟩
      exact hmissing (hexist relation (List.mem_append_right _ List.mem_cons_self))
    rw [or_iff_left fun hboth => hnamed hboth.1, and_iff_right hexist]
    by_cases hbuilt : built
    · have hdone : result.isOk := hok.mpr ⟨hexist, hbuilt⟩
      refine iff_of_true ⟨fun _ => ⟨hnodup, fun r => ?_⟩, fun hfailed => ?_, hnoPanic⟩ (.inl hbuilt)
      · rw [hreplaced r, written_iff_requests h.keys.memoUids hexist]
      · exact absurd hdone hfailed
    · have hfailed : ¬result.isOk := fun hdone => hbuilt (hok.mp hdone).2
      rw [or_iff_right hbuilt, ← hreplaced.unchanged_iff]
      exact ⟨fun hall => hall.failed hfailed,
        fun hsame => ⟨fun hdone => absurd hdone hfailed, fun _ => hsame, hnoPanic⟩⟩
  · rw [or_iff_right fun hboth => hexist hboth.1]
    have hfailed : ¬result.isOk := fun hdone => hexist (hok.mp hdone).1
    constructor
    · intro hall
      refine ⟨(relationsResult_panics_iff hexist).mp ?_, ?_⟩
      · exact fun hpanicked => hall.noPanic (hpanic.mpr hpanicked)
      · exact hreplaced.unchanged_iff.mp (hall.failed hfailed)
    · rintro ⟨hmisnamed, hsame⟩
      refine ⟨fun hdone => absurd hdone hfailed, fun _ => hreplaced.unchanged_iff.mpr hsame, ?_⟩
      exact fun hpanicked => (relationsResult_panics_iff hexist).mpr hmisnamed (hpanic.mp hpanicked)

/-- A call that fails before it writes, and with an answer of its own. -/
theorem allOrNothing_refused {ε α : Type} {panic e : ε} (he : e ≠ panic) :
    AllOrNothing panic memo relations s (.error e : Except ε α) s :=
  ⟨fun hdone => absurd hdone Bool.false_ne_true, fun _ _ => .rfl,
    fun heq => he (Except.error.inj heq)⟩

theorem append_ne {text rest other : String} (h : ¬text.toList <+: other.toList) :
    text ++ rest ≠ other := by
  rintro rfl
  exact h ⟨rest.toList, String.toList_append.symm⟩

end answers

section call

variable {env : Env} {s t : Storage} {userID : Nat} {name uid : String} {user : UserRecord}
  {memo : Memo} {relations : List RelationInput}

theorem checkSetMemoRelations_ok {db : Database}
    (h : checkSetMemoRelations db userID name = .ok memo) :
    ∃ uid user, extractMemoUIDFromName name = .ok uid ∧ db.getMemo { uid := some uid } = some memo ∧
      fetchCurrentUser db userID = .ok (some user) ∧
      (memo.creatorId = user.id ∨ isSuperUser user) := by
  rw [checkSetMemoRelations] at h
  obtain ⟨current, hcurrent, h⟩ := Program.bind_ok h
  cases current with
  | none => cases h
  | some user =>
    obtain ⟨uid, huid, h⟩ := Program.bind_ok h
    obtain ⟨found, hfound, h⟩ := Program.bind_ok h
    split at h
    · cases h
    · rename_i hallowed
      obtain rfl := Except.ok.inj h
      exact ⟨uid, user, Program.mapError_ok huid, foundMemo_ok hfound,
        Program.mapError_ok hcurrent, by tauto⟩

theorem checkSetMemoRelations_ne {db : Database} {e : Status}
    (h : checkSetMemoRelations db userID name = .error e) : e ≠ panicked := by
  rw [checkSetMemoRelations] at h
  rcases Program.bind_error h with h | ⟨current, -, h⟩
  · obtain ⟨err, -, rfl⟩ := Program.mapError_error h
    exact fun heq => append_ne (by decide) (Status.mk.inj heq).2
  · cases current with
    | none =>
      rw [← Except.error.inj h]
      decide
    | some user =>
      rcases Program.bind_error h with h | ⟨uid, -, h⟩
      · obtain ⟨err, -, rfl⟩ := Program.mapError_error h
        exact fun heq => by cases heq
      · rcases Program.bind_error h with h | ⟨memo, -, h⟩
        · unfold foundMemo at h
          split at h
          · rw [← Except.error.inj h]
            decide
          · cases h
        · split at h
          · rw [← Except.error.inj h]
            decide
          · cases h

theorem setMemoRelations_refused {e : Status}
    (hcheck : checkSetMemoRelations s.toDatabase userID name = .error e) :
    (setMemoRelations env userID name relations).run s = (.error e, s) := by
  have hchecked : (Durable.ofExcept (checkSetMemoRelations s.toDatabase userID name) :
      Handler Memo).run s = (.error e, s) := by
    rw [Durable.run_ofExcept_eq, hcheck]
  unfold setMemoRelations
  rw [Durable.run_bind_of_ok (show Durable.get.run s = (.ok s, s) from rfl),
    Durable.run_bind_of_error hchecked]

/-- The answer of `SetMemoRelations` once the relations are set: the message of the memo is built,
which needs its creator. -/
def builtAnswer (s : Storage) (memo : Memo) : Except Status Unit :=
  if (s.getUser memo.creatorId).isSome then .ok ()
  else .error ⟨.Internal, "failed to build updated memo state"⟩

theorem setMemoRelations_checked (relations : List RelationInput) (h : Intact s)
    (hsnippets : env.Snippets)
    (hcheck : checkSetMemoRelations s.toDatabase userID name = .ok memo) :
    ∃ s', (setMemoRelations env userID name relations).run s =
        ((relationsResult s.memos memo relations).bind fun _ => builtAnswer s memo, s') ∧
      Replaced memo relations s s' ∧ s'.relations.Nodup := by
  obtain ⟨uid, user, -, hmemo, huser, -⟩ := checkSetMemoRelations_ok hcheck
  have hchecked : (Durable.ofExcept (checkSetMemoRelations s.toDatabase userID name) :
      Handler Memo).run s = (.ok memo, s) := by
    rw [Durable.run_ofExcept_eq, hcheck]
  obtain ⟨rows, hrun, hnodup, hrows⟩ :=
    setMemoRelations_run memo h.keys.memoUids h.keys.relations relations
  unfold setMemoRelations
  rw [Durable.run_bind_of_ok (show Durable.get.run s = (.ok s, s) from rfl),
    Durable.run_bind_of_ok hchecked]
  cases hresult : relationsResult s.memos memo relations with
  | error e =>
    rw [hresult] at hrun
    exact ⟨_, Durable.run_bind_of_error hrun, hrows, hnodup⟩
  | ok _ =>
    rw [hresult] at hrun
    obtain ⟨s', f, hwrite, husers, hrelations, hmemos, hkept⟩ := storeUpdateMemo_run
      { s with relations := rows } memo.id ⟨none, some env.now, none, none, none, none, none⟩
    have htouch : (touchMemoUpdatedTimestamp env memo.id).run { s with relations := rows } =
        (.ok (), s') := Durable.run_mapFailure.mpr hwrite
    obtain ⟨row, hrow, -, parent, -, rfl⟩ := Database.getMemo_uid hmemo
    have hids : (s'.memos.map (·.id)).Nodup := by
      have hsame : (·.id) ∘ f = MemoRecord.id := funext fun row => (hkept row).1
      rw [hmemos, List.map_map, hsame]
      exact h.keys.memoIds
    have hmem : f row ∈ s'.memos := hmemos ▸ List.mem_map_of_mem hrow
    have hid : (f row).id = (row.withParent parent).id := (hkept row).1
    have hgetUser : s'.getUser (f row).creatorId = s.getUser (row.withParent parent).creatorId := by
      rw [(hkept row).2]
      unfold Database.getUser
      rw [husers]
      rfl
    have hfetch := (fetchCurrentUser_of_users husers userID).trans huser
    have hbuilt := buildUpdatedMemoState_run hsnippets hids hmem hfetch
    rw [hgetUser, hid] at hbuilt
    refine ⟨s', ?_, fun r => by rw [hrelations]; exact hrows r, by rw [hrelations]; exact hnodup⟩
    refine (Durable.run_bind_of_ok hrun).trans ((Durable.run_bind_of_ok htouch).trans ?_)
    refine (Durable.run_bind_of_ok (show Durable.get.run s' = (.ok s', s') from rfl)).trans ?_
    rcases hbuilt with ⟨hsome, message, hmessage⟩ | ⟨hnone, herror⟩
    · rw [hmessage, builtAnswer, if_pos hsome]
      rfl
    · rw [herror, builtAnswer, if_neg (by rw [hnone]; exact Bool.false_ne_true)]
      rfl

theorem relationsAnswer_isOk_iff :
    ((relationsResult s.memos memo relations).bind fun _ => builtAnswer s memo).isOk ↔
      (∀ relation ∈ relations, RelationExists s.memos memo.uid relation) ∧
        (s.getUser memo.creatorId).isSome := by
  rw [← relationsResult_ok_iff]
  cases relationsResult s.memos memo relations with
  | error e => exact iff_of_false Bool.false_ne_true fun hboth => by cases hboth.1
  | ok _ =>
    rw [and_iff_right rfl]
    unfold builtAnswer
    by_cases hsome : (s.getUser memo.creatorId).isSome
    · rw [Except.bind, if_pos hsome]
      exact iff_of_true rfl hsome
    · rw [Except.bind, if_neg hsome]
      exact iff_of_false Bool.false_ne_true hsome

theorem relationsAnswer_panicked_iff :
    (relationsResult s.memos memo relations).bind (fun _ => builtAnswer s memo) = .error panicked ↔
      relationsResult s.memos memo relations = .error panicked := by
  cases relationsResult s.memos memo relations with
  | error e => rfl
  | ok _ =>
    refine iff_of_false (fun heq => ?_) fun heq => by cases heq
    rw [Except.bind, builtAnswer] at heq
    split at heq
    · cases heq
    · exact absurd (Except.error.inj heq) (by decide)

theorem setMemoRelations_allOrNothing_iff (h : Intact s) (hsnippets : env.Snippets)
    (hname : extractMemoUIDFromName name = .ok uid)
    (hmemo : s.getMemo { uid := some uid } = some memo) :
    (∀ result s', (setMemoRelations env userID name relations).run s = (result, s') →
      AllOrNothing panicked memo relations s result s') ↔
      (checkSetMemoRelations s.toDatabase userID name = .ok memo →
        ((∀ relation ∈ relations, RelationExists s.memos memo.uid relation) ∧
            ((s.getUser memo.creatorId).isSome ∨ SameReferences s memo relations)) ∨
          Misnamed s.memos memo.uid relations ∧ SameReferences s memo relations) := by
  cases hcheck : checkSetMemoRelations s.toDatabase userID name with
  | error e =>
    refine iff_of_true (fun result s' hrun => ?_) fun heq => by cases heq
    rw [setMemoRelations_refused hcheck] at hrun
    obtain ⟨rfl, rfl⟩ := Prod.mk.inj hrun
    exact allOrNothing_refused (checkSetMemoRelations_ne hcheck)
  | ok memo' =>
    obtain ⟨uid', user, hname', hmemo', -, -⟩ := checkSetMemoRelations_ok hcheck
    obtain rfl : uid = uid' := Except.ok.inj (hname.symm.trans hname')
    obtain rfl : memo = memo' := Option.some.inj (hmemo.symm.trans hmemo')
    obtain ⟨s', hrun, hreplaced, hnodup⟩ := setMemoRelations_checked relations h hsnippets hcheck
    have hiff : AllOrNothing panicked memo relations s _ s' ↔ _ :=
      allOrNothing_iff h relationsAnswer_isOk_iff relationsAnswer_panicked_iff hreplaced hnodup
    constructor
    · exact fun hall _ => hiff.mp (hall _ s' hrun)
    · intro hcondition result s'' hrun'
      rw [hrun] at hrun'
      obtain ⟨rfl, rfl⟩ := Prod.mk.inj hrun'
      exact hiff.mpr (hcondition rfl)

end call

section update

variable {env : Env} {s t t' : Storage} {userID : Nat} {uid e : String} {user : UserRecord}
  {memo : Memo} {call : UpdateCall} {d : Draft}

theorem checkUpdate_ne {db : Database} (h : checkUpdate db userID call = .error e) :
    e ≠ panicked.message := by
  rw [checkUpdate] at h
  rcases Program.bind_error h with h | ⟨uid, -, h⟩
  · obtain ⟨err, -, rfl⟩ := Program.mapError_error h
    exact append_ne (by decide)
  · split at h
    · rw [← Except.error.inj h]
      decide
    · split at h
      · rw [← Except.error.inj h]
        decide
      · split at h
        · rw [← Except.error.inj h]
          decide
        · rw [← Except.error.inj h]
          decide
        · split at h
          · rw [← Except.error.inj h]
            decide
          · cases h

theorem applyPath_ne {extractAll : ExtractAll} {request : UpdateMemoRequest} {a : Answers}
    {path : Path} (h : applyPath extractAll request a d path = .error e) :
    e ≠ panicked.message := by
  cases path with
  | content =>
    simp only [applyPath] at h
    cases hlimit : a.contentLengthLimit with
    | none =>
      rw [hlimit] at h
      rw [← Except.error.inj h]
      decide
    | some limit =>
      rw [hlimit] at h
      by_cases hlength : request.content.utf8ByteSize > limit
      · simp only [hlength] at h
        rw [← Except.error.inj h, String.append_assoc]
        exact append_ne (by decide)
      · simp only [hlength] at h
        cases hmemo : rebuildMemoPayload extractAll { d.memo with content := request.content } with
        | none =>
          rw [hmemo] at h
          rw [← Except.error.inj h]
          decide
        | some memo =>
          rw [hmemo] at h
          cases h
  | visibility =>
    rw [applyPath] at h
    rcases Program.bind_error h with h | ⟨visibility, -, h⟩
    · unfold updatedVisibility at h
      split at h
      · cases h
      · rw [← Except.error.inj h]
        decide
      · rw [← Except.error.inj h]
        decide
      · cases h
    · cases h
  | pinned | state | createTime | location | other => cases h
  | updateTime =>
    simp only [applyPath] at h
    split at h
    · cases h
    · cases h
  | displayTime =>
    rw [← Except.error.inj h]
    decide
  | attachments =>
    simp only [applyPath] at h
    split at h
    · cases h
    · rw [← Except.error.inj h]
      decide
  | relations =>
    simp only [applyPath] at h
    split at h
    · cases h
    · rw [← Except.error.inj h]
      decide

theorem updateRound_ne {path : Path} (hpath : path ≠ .relations)
    (h : (updateRound env call user d path).run t = (.error e, t')) : e ≠ panicked.message := by
  unfold updateRound at h
  cases hchildren : (setChildren env call user d.memo path).run t with
  | mk result t₁ =>
    cases result with
    | error e' =>
      rw [Durable.run_bind_of_error hchildren] at h
      obtain rfl := Except.error.inj (Prod.mk.inj h).1
      by_cases hattachments : path = .attachments
      · subst hattachments
        unfold setChildren at hchildren
        dsimp only at hchildren
        rw [Durable.run_mapFailure_eq] at hchildren
        obtain ⟨err, -, rfl⟩ := Program.mapError_error (Prod.mk.inj hchildren).1
        decide
      · unfold setChildren at hchildren
        split at hchildren
        · exact absurd rfl hattachments
        · exact absurd rfl hpath
        · cases hchildren
    | ok _ =>
      rw [Durable.run_bind_of_ok hchildren,
        Durable.run_bind_of_ok (show Durable.get.run t₁ = (.ok t₁, t₁) from rfl),
        Durable.run_ofExcept_eq] at h
      exact applyPath_ne (Prod.mk.inj h).1

theorem updateRound_allOrNothing_iff (h : Intact s)
    (hparent : ∀ uid, memo.parentUid = some uid → ∃ row ∈ s.memos, row.uid = uid)
    {before : List Path} {path : Path}
    (hbefore : (Durable.fold (updateRound env call user) (Draft.start memo) before).run s =
      (.ok d, t)) (hround : (updateRound env call user d path).run t = (.error e, t')) :
    AllOrNothing panicked.message memo call.relations s (.error e : Except String Api.Memo) t' ↔
      (path = .relations ∧ Misnamed s.memos memo.uid call.relations ∧
        SameReferences s memo call.relations) ∨
      (path ≠ .relations ∧ (.relations ∉ before ∨ SameReferences s memo call.relations)) := by
  obtain ⟨hframe, hd, hsame, hchecked⟩ := updateFold_ok h hparent (.refl h) (.start memo) hbefore
  by_cases hpath : path = .relations
  · subst hpath
    obtain ⟨result, t₁, hround', hok, hframe', -, -, hpanic, hreplaced⟩ :=
      updateRound_relations env call user h hframe hd
    rw [hround] at hround'
    obtain ⟨rfl, rfl⟩ := Prod.mk.inj hround'
    change _ ↔ ∀ relation ∈ call.relations, RelationExists t.memos memo.uid relation at hok
    rw [hframe.memos] at hok hpanic
    have hmissing : ¬∀ relation ∈ call.relations, RelationExists s.memos memo.uid relation :=
      fun hexist => Bool.false_ne_true (hok.mpr hexist)
    have hfirst : .relations ∉ before := fun hmem => hmissing (hchecked hmem).1
    have hreplaced' : Replaced memo call.relations s t' := by
      intro r
      rw [hreplaced r, hsame hfirst, hframe.memos]
    have hok' : (.error e : Except String Api.Memo).isOk ↔
        (∀ relation ∈ call.relations, RelationExists s.memos memo.uid relation) ∧ True := by
      rw [and_true]
      exact hok
    have hpanic' : (.error e : Except String Api.Memo) = .error panicked.message ↔
        relationsResult s.memos memo call.relations = .error panicked := by
      rw [← hpanic, Except.error.injEq, Except.error.injEq]
    rw [allOrNothing_iff h hok' hpanic' hreplaced' hframe'.relations,
      or_iff_right fun hboth => hmissing hboth.1]
    simp
  · obtain ⟨result, t₁, hround', -, -, -, hkept⟩ :=
      updateRound_run env call user h hframe hd hparent path
    rw [hround] at hround'
    obtain ⟨rfl, rfl⟩ := Prod.mk.inj hround'
    have hunchanged : (∀ r, r ∈ t'.relations ↔ r ∈ s.relations) ↔
        .relations ∉ before ∨ SameReferences s memo call.relations := by
      rw [hkept hpath]
      by_cases hmem : .relations ∈ before
      · rw [(hchecked hmem).2.unchanged_iff, or_iff_right (not_not.mpr hmem)]
      · rw [hsame hmem]
        exact iff_of_true (fun _ => .rfl) (.inl hmem)
    rw [or_iff_right fun hboth => hpath hboth.1, and_iff_right hpath, ← hunchanged]
    refine ⟨fun hall => hall.failed Bool.false_ne_true, fun hall => ⟨?_, fun _ => hall, ?_⟩⟩
    · exact fun hdone => absurd hdone Bool.false_ne_true
    · exact fun heq => updateRound_ne hpath hround (Except.error.inj heq)

theorem updateMemo_finished (h : Intact s) (hsnippets : env.Snippets)
    (hcheck : checkUpdate s.toDatabase userID call = .ok (user, memo))
    (hnamed : .relations ∈ call.memo.paths)
    (hloop : (Durable.fold (updateRound env call user) (Draft.start memo) call.memo.paths).run s =
      (.ok d, t)) :
    ∃ result s', (updateMemo env userID call).run s = (result, s') ∧
      (∀ relation ∈ call.relations, RelationExists s.memos memo.uid relation) ∧
      (AllOrNothing panicked.message memo call.relations s result s' ↔
        ((∀ relation ∈ call.relations, RelationExists s.memos memo.uid relation) ∧
            ((s.getUser memo.creatorId).isSome ∨ SameReferences s memo call.relations)) ∨
          Misnamed s.memos memo.uid call.relations ∧ SameReferences s memo call.relations) := by
  obtain ⟨⟨row, hrow, hid, -, hcreator⟩, hparent⟩ := checkUpdate_rows hcheck
  obtain ⟨uid, -, -, huser, -⟩ := checkUpdate_ok hcheck
  obtain ⟨hframe, hd, -, hchecked⟩ := updateFold_ok h hparent (.refl h) (.start memo) hloop
  obtain ⟨result, s', hfinish, hok, hnoPanic, hkept⟩ :=
    finishUpdate_run h hsnippets hframe ⟨row, hrow, hid, hcreator⟩ hd huser
  obtain ⟨hexist, hreplaced⟩ := hchecked hnamed
  have hreplaced' : Replaced memo call.relations s s' := by
    intro r
    rw [hkept]
    exact hreplaced r
  have hnodup : s'.relations.Nodup := by
    rw [hkept]
    exact hframe.relations
  refine ⟨result, s', ?_, hexist, allOrNothing_iff h ?_ ?_ hreplaced' hnodup⟩
  · rw [updateMemo_run hcheck, Durable.run_bind_of_ok hloop, hfinish]
  · rw [hok]
    exact (and_iff_right hexist).symm
  · rw [relationsResult_ok_iff.mpr hexist]
    exact iff_of_false hnoPanic fun heq => by cases heq

theorem updateMemo_allOrNothing_iff (h : Intact s) (hsnippets : env.Snippets)
    (hname : extractMemoUIDFromName call.name = .ok uid)
    (hmemo : s.getMemo { uid := some uid } = some memo) (hnamed : .relations ∈ call.memo.paths) :
    (∀ result s', (updateMemo env userID call).run s = (result, s') →
      AllOrNothing panicked.message memo call.relations s result s') ↔
      ∀ user, checkUpdate s.toDatabase userID call = .ok (user, memo) →
        (∀ before path after d t, call.memo.paths = before ++ path :: after →
          (Durable.fold (updateRound env call user) (Draft.start memo) before).run s = (.ok d, t) →
            Passes env call user memo t path ∨
              (path = .relations ∧ Misnamed s.memos memo.uid call.relations ∧
                SameReferences s memo call.relations) ∨
              (path ≠ .relations ∧
                (.relations ∉ before ∨ SameReferences s memo call.relations))) ∧
        ∀ d t, (Durable.fold (updateRound env call user) (Draft.start memo) call.memo.paths).run s =
            (.ok d, t) →
          (s.getUser memo.creatorId).isSome ∨ SameReferences s memo call.relations := by
  constructor
  · intro hall user hcheck
    obtain ⟨-, hparent⟩ := checkUpdate_rows hcheck
    refine ⟨fun before path after d t hpaths hbefore => ?_, fun d t hloop => ?_⟩
    · obtain ⟨result, t', hround⟩ : ∃ result t',
          (updateRound env call user d path).run t = (result, t') := ⟨_, _, rfl⟩
      cases result with
      | ok d' => exact .inl ((laterRound_isOk_iff h hparent hbefore hround).mp rfl)
      | error e =>
        have hatomic := hall (.error e) t' (updateMemo_failed hcheck hpaths hbefore hround)
        exact .inr ((updateRound_allOrNothing_iff h hparent hbefore hround).mp hatomic)
    · obtain ⟨result, s', hrun, hexist, hiff⟩ :=
        updateMemo_finished h hsnippets hcheck hnamed hloop
      rcases hiff.mp (hall result s' hrun) with hboth | hnamed
      · exact hboth.2
      · exact .inr hnamed.2
  · intro hall result s' hrun
    cases hcheck : checkUpdate s.toDatabase userID call with
    | error refused =>
      rw [updateMemo_refused hcheck] at hrun
      obtain ⟨rfl, rfl⟩ := Prod.mk.inj hrun
      exact allOrNothing_refused (checkUpdate_ne hcheck)
    | ok checked =>
      obtain ⟨user, memo'⟩ := checked
      obtain ⟨uid', hname', hmemo', huser, -⟩ := checkUpdate_ok hcheck
      obtain rfl : uid = uid' := Except.ok.inj (hname.symm.trans hname')
      obtain rfl : memo = memo' := Option.some.inj (hmemo.symm.trans hmemo')
      obtain ⟨-, hparent⟩ := checkUpdate_rows hcheck
      rw [updateMemo_run hcheck] at hrun
      cases hloop : (Durable.fold (updateRound env call user) (Draft.start memo)
          call.memo.paths).run s with
      | mk looped t =>
        cases looped with
        | ok d =>
          obtain ⟨result', s'', hrun', hexist, hiff⟩ :=
            updateMemo_finished h hsnippets hcheck hnamed hloop
          rw [← updateMemo_run hcheck, hrun'] at hrun
          obtain ⟨rfl, rfl⟩ := Prod.mk.inj hrun
          exact hiff.mpr (.inl ⟨hexist, (hall user hcheck).2 d t hloop⟩)
        | error e =>
          rw [Durable.run_bind_of_error hloop] at hrun
          obtain ⟨rfl, rfl⟩ := Prod.mk.inj hrun
          obtain ⟨before, path, after, d, t₁, hpaths, hbefore, hround⟩ := Durable.fold_error hloop
          refine (updateRound_allOrNothing_iff h hparent hbefore hround).mpr ?_
          refine ((hall user hcheck).1 before path after d t₁ hpaths hbefore).resolve_left ?_
          exact fun hpasses =>
            Bool.false_ne_true ((laterRound_isOk_iff h hparent hbefore hround).mpr hpasses)

end update

/-- Exactly when the relations of a memo are set as a whole or not at all, and without a panic. -/
theorem setRelations_allOrNothing_iff {env : Env} {s : Storage} (h : Intact s)
    (hsnippets : env.Snippets) {name uid : String} {memo : Memo}
    (hname : extractMemoUIDFromName name = .ok uid)
    (hmemo : s.getMemo { uid := some uid } = some memo) (userID : Nat) :
    (∀ relations, (∀ result s', (setMemoRelations env userID name relations).run s = (result, s') →
      AllOrNothing panicked memo relations s result s') ↔
      (checkSetMemoRelations s.toDatabase userID name = .ok memo →
        ((∀ relation ∈ relations, RelationExists s.memos memo.uid relation) ∧
            ((s.getUser memo.creatorId).isSome ∨ SameReferences s memo relations)) ∨
          Misnamed s.memos memo.uid relations ∧ SameReferences s memo relations)) ∧
    ∀ call : UpdateCall, call.name = name → .relations ∈ call.memo.paths →
      ((∀ result s', (updateMemo env userID call).run s = (result, s') →
        AllOrNothing panicked.message memo call.relations s result s') ↔
        ∀ user, checkUpdate s.toDatabase userID call = .ok (user, memo) →
          (∀ before path after d t, call.memo.paths = before ++ path :: after →
            (Durable.fold (updateRound env call user) (Draft.start memo) before).run s =
              (.ok d, t) →
              Passes env call user memo t path ∨
                (path = .relations ∧ Misnamed s.memos memo.uid call.relations ∧
                  SameReferences s memo call.relations) ∨
                (path ≠ .relations ∧
                  (.relations ∉ before ∨ SameReferences s memo call.relations))) ∧
          ∀ d t, (Durable.fold (updateRound env call user) (Draft.start memo)
              call.memo.paths).run s = (.ok d, t) →
            (s.getUser memo.creatorId).isSome ∨ SameReferences s memo call.relations) := by
  constructor
  · exact fun _ => setMemoRelations_allOrNothing_iff h hsnippets hname hmemo
  · rintro call rfl hnamed
    exact updateMemo_allOrNothing_iff h hsnippets hname hmemo hnamed

section diary

theorem extract_diary : extractMemoUIDFromName "memos/diary" = .ok "diary" := by decide

/-- The reference that is there is set again. -/
theorem setRelations_note :
    AllOrNothing panicked (diaryMemo.withParent none) [⟨some "memos/note", some .REFERENCE⟩] linkedDiary
      ((setMemoRelations (lenientEnv "") 1 "memos/diary"
        [⟨some "memos/note", some .REFERENCE⟩]).run linkedDiary).1
      ((setMemoRelations (lenientEnv "") 1 "memos/diary"
        [⟨some "memos/note", some .REFERENCE⟩]).run linkedDiary).2 := by
  refine ((setRelations_allOrNothing_iff linkedDiary_intact (lenientEnv_snippets "") extract_diary
    getMemo_linkedDiary 1).1 _).mpr (fun _ => .inl ⟨fun relation hrelation => ?_, .inl rfl⟩) _ _ rfl
  obtain rfl := List.mem_singleton.mp hrelation
  exact ⟨_, rfl, .inr (.inr ⟨"note", by decide, noteMemo,
    List.mem_cons_of_mem _ List.mem_cons_self, rfl⟩)⟩

/-- A related memo that does not exist: the call panics, and the old reference is gone. -/
theorem setRelations_gone : ∃ s', (setMemoRelations (lenientEnv "") 1 "memos/diary"
    [⟨some "memos/gone", some .REFERENCE⟩]).run linkedDiary = (.error panicked, s') ∧
      ⟨1, 2, .REFERENCE⟩ ∈ linkedDiary.relations ∧ ⟨1, 2, .REFERENCE⟩ ∉ s'.relations := by
  have hcheck : checkSetMemoRelations linkedDiary.toDatabase 1 "memos/diary" =
      .ok (diaryMemo.withParent none) := by
    unfold checkSetMemoRelations
    rw [extract_diary]
    change (foundMemo (linkedDiary.getMemo { uid := some "diary" }) >>= fun memo => _) = _
    rw [getMemo_linkedDiary]
    rfl
  obtain ⟨s', hrun, hreplaced, -⟩ := setMemoRelations_checked
    [⟨some "memos/gone", some .REFERENCE⟩] linkedDiary_intact (lenientEnv_snippets "") hcheck
  have hresult : relationsResult linkedDiary.memos (diaryMemo.withParent none)
      [⟨some "memos/gone", some .REFERENCE⟩] = .error panicked := by decide
  rw [relationsAnswer_panicked_iff.mpr hresult] at hrun
  refine ⟨s', hrun, List.mem_singleton_self _, fun hmem => ?_⟩
  rcases (hreplaced _).mp hmem with hkept | hwritten
  · exact hkept.2 ⟨rfl, rfl⟩
  · revert hwritten
    decide

end diary

end Memoark.Server.WriteMemos
