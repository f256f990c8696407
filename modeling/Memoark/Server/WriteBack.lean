import Memoark.Server.SetRelations

/-! The relations of a memo that is read, written back by the reader. -/
namespace Memoark.Server.WriteMemos
open Store
open Program (Durable)

def asInput (r : Api.MemoRelation) : RelationInput := ⟨some r.relatedMemo.name, some r.type⟩

def ReferencesSeen (s : Storage) (user : UserRecord) (memo : Memo) : Prop :=
  ∀ r ∈ s.relations, r.memoId = memo.id → r.type = .REFERENCE → r.relatedMemoId ≠ memo.id ∧
    ∃ row ∈ s.memos, row.id = r.relatedMemoId ∧
      (row.creatorId = user.id ∨ row.visibility ≠ .Private)

def KeepsRelations {ε α : Type} (call : Durable Storage Table ε α) (s : Storage) : Prop :=
  ∀ result s', call.run s = (result, s') → ∀ r, r ∈ s'.relations ↔ r ∈ s.relations

section read

variable {services : Services} {db : Database} {userID : Nat} {name uid : String} {memo : Memo}
  {user : UserRecord} {message : Api.Memo}

theorem getMemo_relations (hname : extractMemoUIDFromName name = .ok uid)
    (hmemo : db.getMemo { uid := some uid } = some memo)
    (hread : getMemo services db userID name = .ok message) :
    checkMemoReadAccess db userID (some memo) = .ok () ∧
      ∃ relationMap : Nat → List Api.MemoRelation,
        batchConvertMemoRelations db services.generateSnippet userID [memo] true =
          .ok relationMap ∧ message.relations = relationMap memo.id := by
  obtain ⟨uid', memo', relationMap, hname', hmemo', haccess, hmap, hconverted⟩ := getMemo_ok hread
  obtain rfl := Except.ok.inj (hname.symm.trans hname')
  obtain rfl := Option.some.inj (hmemo.symm.trans hmemo')
  rw [convertMemoFromStore] at hconverted
  obtain ⟨_, _, -, -, hmessage⟩ := convertMemo_ok hconverted
  exact ⟨haccess, relationMap, hmap, by rw [hmessage]⟩

theorem relationFilter_iff {row : MemoRecord} : relationFilter (some user) row = true ↔
    row.creatorId = user.id ∨ row.visibility ≠ .Private := by
  unfold relationFilter
  cases row.visibility <;> simp

theorem readable_seen (huser : fetchCurrentUser db user.id = .ok (some user))
    (hmemo : db.getMemo { uid := some uid } = some memo)
    (haccess : checkMemoReadAccess db user.id (some memo) = .ok ()) :
    memo.id ∈ db.idsWhere (relationFilter (some user)) := by
  obtain ⟨row, hrow, -, parent, -, rfl⟩ := Database.getMemo_uid hmemo
  refine Database.mem_idsWhere.mpr ⟨row, hrow, relationFilter_iff.mpr ?_, rfl⟩
  rcases (checkMemoReadAccess_iff huser _).mp haccess with hown | ⟨-, hopen⟩
  · exact .inl hown
  · exact .inr hopen

theorem mem_relationsOf {uidOf : Nat → Option String} {relations : List MemoRelation} {id : Nat}
    {x : Api.MemoRelation} : x ∈ relationsOf uidOf (fun _ => "") relations id ↔
      ∃ r ∈ relations, (r.memoId = id ∨ r.relatedMemoId = id) ∧ ∃ memoUid relatedUid,
        uidOf r.memoId = some memoUid ∧ uidOf r.relatedMemoId = some relatedUid ∧
          x = ⟨⟨memoName memoUid, ""⟩, ⟨memoName relatedUid, ""⟩,
            convertMemoRelationTypeFromStore r.type⟩ := by
  unfold relationsOf
  rw [List.mem_flatMap]
  refine exists_congr fun r => and_congr_right fun _ => ?_
  cases uidOf r.memoId with
  | none => simp
  | some memoUid =>
    cases uidOf r.relatedMemoId with
    | none => simp
    | some relatedUid =>
      simp only [List.mem_append, Option.some.injEq, exists_and_left, exists_eq_left']
      by_cases hleft : r.memoId = id
      · by_cases hright : r.relatedMemoId = id
        · simp [hleft, hright]
        · simp [hleft, hright]
      · by_cases hright : r.relatedMemoId = id
        · simp [hleft, hright]
        · simp [hleft, hright]

/-- The relation of a message is the stored one, as far as the setter reads it. -/
def Shows (db : Database) (r : MemoRelation) (relation : Api.MemoRelation) : Prop :=
  relation.type = convertMemoRelationTypeFromStore r.type ∧
    ∃ row ∈ db.memos, row.id = r.relatedMemoId ∧ relation.relatedMemo.name = memoName row.uid

theorem message_relations (hkeys : db.Keys) (hname : extractMemoUIDFromName name = .ok uid)
    (hmemo : db.getMemo { uid := some uid } = some memo)
    (huser : fetchCurrentUser db userID = .ok (some user))
    (hread : getMemo services db userID name = .ok message) :
    (∀ relation ∈ message.relations, ∃ r ∈ db.relations,
      (r.memoId = memo.id ∨ r.relatedMemoId = memo.id) ∧ Joined db (some user) r ∧
        Shows db r relation) ∧
    ∀ r ∈ db.relations, (r.memoId = memo.id ∨ r.relatedMemoId = memo.id) →
      Joined db (some user) r → ∃ relation ∈ message.relations, Shows db r relation := by
  obtain ⟨-, relationMap, hmap, hrelations⟩ := getMemo_relations hname hmemo hread
  have hrows : FromRows db [memo] := by
    intro m hm
    obtain rfl := List.mem_singleton.mp hm
    obtain ⟨row, hrow, -, parent, -, rfl⟩ := Database.getMemo_uid hmemo
    exact ⟨row, hrow, rfl, rfl⟩
  have hperm := batchConvertMemoRelations_spec hkeys hrows hmap huser (List.mem_singleton_self memo)
  rw [← hrelations] at hperm
  have hmem := fun x => (hperm.mem_iff (a := x)).trans mem_relationsOf
  simp only [List.mem_filter, decide_eq_true_eq] at hmem
  constructor
  · intro relation hrelation
    obtain ⟨r, ⟨hr, hjoined, htouch⟩, -, memoUid, relatedUid, -, huid, hx⟩ :=
      (hmem relation.withoutSnippets).mp (List.mem_map_of_mem hrelation)
    obtain ⟨row, hrow, -, hid⟩ := Database.mem_idsWhere.mp hjoined.2
    rw [← hid, hkeys.uidOf_eq hrow] at huid
    obtain rfl := Option.some.inj huid
    refine ⟨r, hr, htouch, hjoined, ?_, row, hrow, hid, ?_⟩
    · exact congrArg Api.MemoRelation.type hx
    · exact congrArg (fun x : Api.MemoRelation => x.relatedMemo.name) hx
  · intro r hr htouch hjoined
    obtain ⟨row, hrow, -, hid⟩ := Database.mem_idsWhere.mp hjoined.1
    obtain ⟨row', hrow', -, hid'⟩ := Database.mem_idsWhere.mp hjoined.2
    have huid : db.uidOf r.memoId = some row.uid := hid ▸ hkeys.uidOf_eq hrow
    have huid' : db.uidOf r.relatedMemoId = some row'.uid := hid' ▸ hkeys.uidOf_eq hrow'
    obtain ⟨relation, hrelation, hx⟩ := List.mem_map.mp ((hmem _).mpr
      ⟨r, ⟨hr, hjoined, htouch⟩, htouch, row.uid, row'.uid, huid, huid', rfl⟩)
    refine ⟨relation, hrelation, ?_, row', hrow', hid', ?_⟩
    · exact congrArg Api.MemoRelation.type hx
    · exact congrArg (fun x : Api.MemoRelation => x.relatedMemo.name) hx

end read

section writeBack

variable {env : Env} {s : Storage} {name uid : String} {memo : Memo} {user : UserRecord}
  {message : Api.Memo}

theorem message_relations_exist (hkeys : s.toDatabase.Keys)
    (hvalid : ∀ row ∈ s.memos, UIDMatcher row.uid = true)
    (hname : extractMemoUIDFromName name = .ok uid)
    (hmemo : s.getMemo { uid := some uid } = some memo)
    (huser : fetchCurrentUser s.toDatabase user.id = .ok (some user))
    (hread : getMemo env.toServices s.toDatabase user.id name = .ok message) :
    ∀ relation ∈ message.relations.map asInput, RelationExists s.memos memo.uid relation := by
  intro input hinput
  obtain ⟨relation, hrelation, rfl⟩ := List.mem_map.mp hinput
  obtain ⟨r, -, -, -, -, row, hrow, -, hrelated⟩ :=
    (message_relations hkeys hname hmemo huser hread).1 relation hrelation
  refine ⟨relation.relatedMemo.name, rfl, .inr (.inr ⟨row.uid, ?_, row, hrow, rfl⟩)⟩
  rw [hrelated]
  exact extractMemoUID_memoName (hvalid row hrow)

/-- What is asked for when the relations of a message are written back: the references to other
memos that the user may see. -/
theorem requests_message_iff (hkeys : s.toDatabase.Keys)
    (hname : extractMemoUIDFromName name = .ok uid)
    (hmemo : s.getMemo { uid := some uid } = some memo)
    (huser : fetchCurrentUser s.toDatabase user.id = .ok (some user))
    (hread : getMemo env.toServices s.toDatabase user.id name = .ok message) {r : MemoRelation} :
    Requests s.memos memo (message.relations.map asInput) r ↔
      r ∈ s.relations ∧ r.memoId = memo.id ∧ r.type = .REFERENCE ∧ r.relatedMemoId ≠ memo.id ∧
        Joined s.toDatabase (some user) r := by
  obtain ⟨hstored, hshown⟩ := message_relations hkeys hname hmemo huser hread
  obtain ⟨own, hown, -, parent, -, hownRead⟩ := Database.getMemo_uid hmemo
  have hownId : own.id = memo.id := by rw [← hownRead]; rfl
  have hownUid : own.uid = memo.uid := by rw [← hownRead]; rfl
  constructor
  · rintro ⟨hid, htype, input, hinput, hcomment, hself, row, hrow, hrowId, hrowName⟩
    obtain ⟨relation, hrelation, rfl⟩ := List.mem_map.mp hinput
    obtain ⟨r₀, hr₀, htouch, hjoined, htype₀, row₀, hrow₀, hrowId₀, hrowName₀⟩ :=
      hstored relation hrelation
    have hsame : row = row₀ := hkeys.row_eq_of_uid hrow hrow₀
      (memoName_inj ((Option.some.inj hrowName).symm.trans hrowName₀))
    have hother : r₀.relatedMemoId ≠ memo.id := by
      intro heq
      have hrowOwn : row₀ = own := hkeys.row_eq hrow₀ hown (hrowId₀.trans (heq.trans hownId.symm))
      refine hself (congrArg some ?_)
      rw [hrowName₀, hrowOwn, hownUid]
    have hfrom : r₀.memoId = memo.id := htouch.resolve_right hother
    have hreference : r₀.type = .REFERENCE := by
      cases hstoredType : r₀.type with
      | REFERENCE => rfl
      | COMMENT =>
        rw [hstoredType] at htype₀
        exact absurd (congrArg some htype₀) hcomment
    have heq : r = r₀ := by
      cases r
      cases r₀
      simp_all
    rw [heq]
    exact ⟨hr₀, hfrom, hreference, hother, hjoined⟩
  · rintro ⟨hr, hid, htype, hother, hjoined⟩
    obtain ⟨relation, hrelation, hshownType, row, hrow, hrowId, hrowName⟩ :=
      hshown r hr (.inl hid) hjoined
    refine ⟨hid, htype, asInput relation, List.mem_map_of_mem hrelation, ?_, ?_, row, hrow, hrowId,
      congrArg some hrowName⟩
    · intro hcomment
      rw [htype] at hshownType
      have htypes := (Option.some.inj hcomment).symm.trans hshownType
      cases htypes
    · intro hself
      have hnames := hrowName.symm.trans (Option.some.inj hself)
      have hsame : row = own := hkeys.row_eq_of_uid hrow hown ((memoName_inj hnames).trans hownUid.symm)
      exact hother (by rw [← hrowId, hsame, hownId])

/-- A memo that is written back keeps its relations exactly if the reader sees all references. -/
theorem replaced_keeps_iff (h : Intact s) (hvalid : ∀ row ∈ s.memos, UIDMatcher row.uid = true)
    (hname : extractMemoUIDFromName name = .ok uid)
    (hmemo : s.getMemo { uid := some uid } = some memo)
    (huser : fetchCurrentUser s.toDatabase user.id = .ok (some user))
    (hread : getMemo env.toServices s.toDatabase user.id name = .ok message) {s' : Storage}
    (hreplaced : Replaced memo (message.relations.map asInput) s s') :
    (∀ r, r ∈ s'.relations ↔ r ∈ s.relations) ↔ ReferencesSeen s user memo := by
  have hexist := message_relations_exist h.keys hvalid hname hmemo huser hread
  have hrequests := fun r => (written_iff_requests h.keys.memoUids hexist (r := r)).trans
    (requests_message_iff h.keys hname hmemo huser hread)
  obtain ⟨haccess, -⟩ := getMemo_relations hname hmemo hread
  have hown := readable_seen huser hmemo haccess
  rw [hreplaced.unchanged_iff]
  constructor
  · intro hsame r hr hid htype
    obtain ⟨-, -, -, hother, hjoined⟩ := (hrequests r).mp ((hsame r).mpr ⟨hr, hid, htype⟩)
    obtain ⟨row, hrow, hseen, hrowId⟩ := Database.mem_idsWhere.mp hjoined.2
    exact ⟨hother, row, hrow, hrowId, relationFilter_iff.mp hseen⟩
  · intro hseen r
    rw [hrequests r]
    constructor
    · exact fun ⟨hr, hid, htype, _⟩ => ⟨hr, hid, htype⟩
    · rintro ⟨hr, hid, htype⟩
      obtain ⟨hother, row, hrow, hrowId, hvisible⟩ := hseen r hr hid htype
      refine ⟨hr, hid, htype, hother, hid ▸ hown, ?_⟩
      exact Database.mem_idsWhere.mpr ⟨row, hrow, relationFilter_iff.mpr hvisible, hrowId⟩

theorem checkSetMemoRelations_allowed (hname : extractMemoUIDFromName name = .ok uid)
    (hmemo : s.getMemo { uid := some uid } = some memo)
    (huser : fetchCurrentUser s.toDatabase user.id = .ok (some user))
    (hallowed : memo.creatorId = user.id ∨ isSuperUser user) :
    checkSetMemoRelations s.toDatabase user.id name = .ok memo := by
  unfold checkSetMemoRelations
  rw [huser, hname]
  change (foundMemo (s.getMemo { uid := some uid }) >>= fun memo => _) = _
  rw [hmemo]
  exact if_neg (by tauto)

theorem checkUpdate_allowed {call : UpdateCall} (hname : extractMemoUIDFromName call.name = .ok uid)
    (hmemo : s.getMemo { uid := some uid } = some memo)
    (huser : fetchCurrentUser s.toDatabase user.id = .ok (some user))
    (hallowed : memo.creatorId = user.id ∨ isSuperUser user) (hpaths : call.memo.paths ≠ []) :
    checkUpdate s.toDatabase user.id call = .ok (user, memo) := by
  unfold checkUpdate
  rw [hname]
  dsimp only [Except.mapError, bind, Except.bind]
  rw [if_neg hpaths, hmemo, huser]
  exact if_neg (by tauto)

theorem getMemo_succeeds (hsnippets : env.Snippets) (hname : extractMemoUIDFromName name = .ok uid)
    (hmemo : s.getMemo { uid := some uid } = some memo)
    (huser : fetchCurrentUser s.toDatabase user.id = .ok (some user))
    (haccess : Readable s.toDatabase user.id memo)
    (hcreator : ∃ creator, s.getUser memo.creatorId = some creator) :
    ∃ message, getMemo env.toServices s.toDatabase user.id name = .ok message := by
  obtain ⟨creator, hcreator⟩ := hcreator
  obtain ⟨message, hmessage, -⟩ := memoMessage_total hsnippets huser hcreator
    (s.listReactions { contentId := some name }) (s.listAttachments { memoId := some memo.id })
  rw [memoMessage] at hmessage
  obtain ⟨relations, hrelations, hmessage⟩ := Program.bind_ok hmessage
  have hconverted : convertMemoFromStore s.toDatabase env.generateSnippet memo
      (s.listReactions { contentId := some name }) (s.listAttachments { memoId := some memo.id })
        relations = .ok message := by
    unfold wrapConverted at hmessage
    split at hmessage
    · rename_i hconverted
      rw [hconverted]
      exact congrArg _ (Except.ok.inj hmessage)
    · cases hmessage
    · cases hmessage
  refine ⟨message, ?_⟩
  unfold getMemo
  rw [hname]
  dsimp only [Except.mapError, bind, Except.bind]
  rw [hmemo]
  dsimp only
  rw [haccess.1, haccess.2, Program.mapError_ok hrelations]
  dsimp only
  rw [hconverted]
  rfl

/-- Exactly when the relations that a caller reads can be written back: each reference of the memo
leads to another memo that the caller may see. -/
theorem writeBack_identity_iff (h : Intact s) (hsnippets : env.Snippets)
    (hvalid : ∀ row ∈ s.memos, UIDMatcher row.uid = true)
    (hname : extractMemoUIDFromName name = .ok uid)
    (hmemo : s.getMemo { uid := some uid } = some memo)
    (huser : fetchCurrentUser s.toDatabase user.id = .ok (some user))
    (hallowed : memo.creatorId = user.id ∨ isSuperUser user)
    (hread : getMemo env.toServices s.toDatabase user.id name = .ok message) :
    (KeepsRelations (setMemoRelations env user.id name (message.relations.map asInput)) s ↔
      ReferencesSeen s user memo) ∧
    ∀ call : UpdateCall, call.name = name → call.memo.paths = [.relations] →
      call.relations = message.relations.map asInput →
        (KeepsRelations (updateMemo env user.id call) s ↔ ReferencesSeen s user memo) := by
  have hexist := message_relations_exist h.keys hvalid hname hmemo huser hread
  constructor
  · have hcheck := checkSetMemoRelations_allowed hname hmemo huser hallowed
    obtain ⟨s', hrun, hreplaced, -⟩ :=
      setMemoRelations_checked (message.relations.map asInput) h hsnippets hcheck
    rw [← replaced_keeps_iff h hvalid hname hmemo huser hread hreplaced]
    constructor
    · exact fun hkeeps => hkeeps _ s' hrun
    · intro hsame result s'' hrun'
      rw [hrun] at hrun'
      obtain ⟨-, rfl⟩ := Prod.mk.inj hrun'
      exact hsame
  · rintro call rfl hpaths hrelations
    have hcheck := checkUpdate_allowed hname hmemo huser hallowed (by
      rw [hpaths]
      exact List.cons_ne_nil _ _)
    obtain ⟨⟨row, hrow, hid, -, hcreator⟩, hparent⟩ := checkUpdate_rows hcheck
    obtain ⟨looped, t, hround, hok, -⟩ :=
      updateRound_relations env call user h (.refl h) (.start memo)
    have hpassed : looped.isOk := hok.mpr fun relation hrelation => by
      rw [hrelations] at hrelation
      exact hexist relation hrelation
    cases looped with
    | error e => cases hpassed
    | ok d =>
      have hloop : (Durable.fold (updateRound env call user) (Draft.start memo)
          call.memo.paths).run s = (.ok d, t) := by
        rw [hpaths]
        exact Durable.run_bind_of_ok hround
      obtain ⟨hframe, hd, -, hchecked⟩ := updateFold_ok h hparent (.refl h) (.start memo) hloop
      have hreplaced : Replaced memo (message.relations.map asInput) s t := by
        rw [← hrelations]
        exact (hchecked (by rw [hpaths]; exact List.mem_singleton_self _)).2
      obtain ⟨updated, t', hfinish, -, -, hkept⟩ :=
        finishUpdate_run h hsnippets hframe ⟨row, hrow, hid, hcreator⟩ hd huser
      have hrun : (updateMemo env user.id call).run s = (updated, t') := by
        rw [updateMemo_run hcheck, Durable.run_bind_of_ok hloop, hfinish]
      rw [← replaced_keeps_iff h hvalid hname hmemo huser hread hreplaced]
      constructor
      · intro hkeeps r
        rw [← hkept]
        exact hkeeps _ t' hrun r
      · intro hsame result s'' hrun'
        rw [hrun] at hrun'
        obtain ⟨-, rfl⟩ := Prod.mk.inj hrun'
        rw [hkept]
        exact hsame

end writeBack

section diary

theorem linkedDiary_valid : ∀ row ∈ linkedDiary.memos, UIDMatcher row.uid = true := by decide

theorem fetch_ada : fetchCurrentUser linkedDiary.toDatabase ada.id = .ok (some ada) := rfl

/-- Ada writes back a reference to her own note. -/
theorem writeBack_note : ∃ message : Api.Memo,
    getMemo (lenientEnv "").toServices linkedDiary.toDatabase 1 "memos/diary" = .ok message ∧
      KeepsRelations (setMemoRelations (lenientEnv "") 1 "memos/diary"
        (message.relations.map asInput)) linkedDiary := by
  obtain ⟨message, hread⟩ := getMemo_succeeds (lenientEnv_snippets "") extract_diary
    getMemo_linkedDiary fetch_ada ⟨rfl, rfl⟩ ⟨ada, rfl⟩
  refine ⟨message, hread, ?_⟩
  refine (writeBack_identity_iff linkedDiary_intact (lenientEnv_snippets "") linkedDiary_valid
    extract_diary getMemo_linkedDiary fetch_ada (.inl rfl) hread).1.mpr ?_
  intro r hr _ _
  obtain rfl := List.mem_singleton.mp hr
  exact ⟨by decide, noteMemo, List.mem_cons_of_mem _ List.mem_cons_self, rfl, .inl rfl⟩

def secretMemo : MemoRecord := { noteMemo with creatorId := 2, visibility := .Private }

def secretDiary : Storage := { linkedDiary with memos := [diaryMemo, secretMemo] }

theorem secretDiary_intact : Intact secretDiary where
  keys := ⟨by decide, by decide, by decide, by decide⟩
  attachmentIds := List.nodup_nil
  fresh := fun a ha => absurd ha List.not_mem_nil

theorem getMemo_secretDiary :
    secretDiary.getMemo { uid := some "diary" } = some (diaryMemo.withParent none) :=
  Database.getMemo_of_parents diaryMemo secretDiary_intact.keys.memoUids List.mem_cons_self rfl

/-- Ada writes back what she reads, and the reference to the note that she may not see is gone. -/
theorem writeBack_secret : ∃ (message : Api.Memo) (s' : Storage),
    getMemo (lenientEnv "").toServices secretDiary.toDatabase 1 "memos/diary" = .ok message ∧
      (setMemoRelations (lenientEnv "") 1 "memos/diary" (message.relations.map asInput)).run
        secretDiary = (.ok (), s') ∧
      ⟨1, 2, .REFERENCE⟩ ∈ secretDiary.relations ∧ ⟨1, 2, .REFERENCE⟩ ∉ s'.relations := by
  have huser : fetchCurrentUser secretDiary.toDatabase ada.id = .ok (some ada) := rfl
  have hvalid : ∀ row ∈ secretDiary.memos, UIDMatcher row.uid = true := by decide
  obtain ⟨message, hread⟩ := getMemo_succeeds (lenientEnv_snippets "") extract_diary
    getMemo_secretDiary huser ⟨rfl, rfl⟩ ⟨ada, rfl⟩
  have hkeys := secretDiary_intact.keys
  have hexist := message_relations_exist hkeys hvalid extract_diary getMemo_secretDiary huser hread
  have hcheck := checkSetMemoRelations_allowed extract_diary getMemo_secretDiary huser (.inl rfl)
  obtain ⟨s', hrun, hreplaced, -⟩ := setMemoRelations_checked (message.relations.map asInput)
    secretDiary_intact (lenientEnv_snippets "") hcheck
  rw [relationsResult_ok_iff.mpr hexist] at hrun
  change _ = (Except.ok (), s') at hrun
  refine ⟨message, s', hread, hrun, List.mem_singleton_self _, fun hmem => ?_⟩
  rcases (hreplaced _).mp hmem with hkept | hwritten
  · exact hkept.2 ⟨rfl, rfl⟩
  · obtain ⟨-, -, -, -, hjoined⟩ := (requests_message_iff hkeys extract_diary getMemo_secretDiary
      huser hread).mp ((written_iff_requests hkeys.memoUids hexist).mp hwritten)
    have hunseen : 2 ∉ secretDiary.idsWhere (relationFilter (some ada)) := by decide
    exact hunseen hjoined.2

end diary

end Memoark.Server.WriteMemos
