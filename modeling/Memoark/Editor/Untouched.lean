import Memoark.Editor.MemoService
import Memoark.Server.UpdateFrame

/-! What a save does to the fields that the user has left as they were loaded. -/
namespace Memoark.Editor.MemoService
open Server Store
open Server.WriteMemos (Env UpdateCall Spares requestedUpdateTime)

def Touched (loaded : Memo) (state : EditorState) (all : List Api.Attachment) : Path → Prop
  | .content => state.content ≠ (fromMemo loaded).content
  | .visibility => state.visibility ≠ (fromMemo loaded).visibility
  | .attachments => all ≠ (fromMemo loaded).attachments
  | .relations => state.relations ≠ (fromMemo loaded).relations
  | .location => state.location ≠ (fromMemo loaded).location
  | .createTime => state.createTime ≠ (fromMemo loaded).createTime
  | .updateTime => state.updateTime ≠ (fromMemo loaded).updateTime
  | _ => False

def Stands (loaded prev : Memo) : Path → Prop
  | .content => prev.content = loaded.content
  | .visibility => prev.visibility = loaded.visibility
  | .attachments => prev.attachments = loaded.attachments
  | .relations => prev.relations = loaded.relations
  | .location => prev.location = loaded.location
  | .createTime => dateDiffers (loaded.createTime.map timestampDate) prev.createTime = false
  | _ => True

def updatedTs (memo : Memo) : Int := Api.Timestamp.unix memo.updateTime

def updatedTsAfter (now : Int) (prev : Memo) (call : UpdateCall) : Int :=
  if .updateTime ∈ call.memo.paths then requestedUpdateTime call now else updatedTs prev

/-- The update time that a save sends back for a memo whose own it no longer is. -/
def resentTs (loaded : Memo) : Int :=
  Api.Timestamp.unix ((loaded.updateTime.map timestampDate).map timestampFromDate)

section

variable (now : Int) (loaded prev : Memo) (state : EditorState) (all : List Api.Attachment)

/-- A call names no field that the user has left, but for the update time; that does not go back,
and stays where the text does. -/
structure Respects (call : UpdateCall) : Prop where
  fields : ∀ path ∈ call.memo.paths, path ≠ .updateTime → Touched loaded state all path
  updateTime : ¬Touched loaded state all .updateTime →
    updatedTs prev ≤ updatedTsAfter now prev call ∧
      ((∀ path ∈ contentPaths, path ∉ call.memo.paths) → updatedTsAfter now prev call = updatedTs prev)

structure Kept (row row' : MemoRecord) : Prop where
  content : ¬Touched loaded state all .content → row'.content = row.content
  visibility : ¬Touched loaded state all .visibility → row'.visibility = row.visibility
  location : ¬Touched loaded state all .location → row'.payload.location = row.payload.location
  createTime : ¬Touched loaded state all .createTime → row'.createdTs = row.createdTs
  pinned : row'.pinned = row.pinned
  state : row'.rowStatus = row.rowStatus

variable [DecidableEq MemoPayload.Location] (options : SaveOptions)

/-- Saving keeps on the server what the user has left: in what it asks for, and in what is stored
wherever the call stops, whatever was stored since the memo was fetched. The update time does not
go back from the one that was fetched. -/
structure Preserves : Prop where
  asks : ∀ call, updateCall prev state all options = some call →
    Respects now loaded prev state all call
  stores : ∀ (env : Env) userID stop (s : Storage), env.now = now → s.toDatabase.Keys →
    let s' := (saveExistingMemo (WriteMemos.updateMemo env userID) prev state all options).leaves
      stop s
    (¬Touched loaded state all .attachments → s'.attachments = s.attachments) ∧
    (¬Touched loaded state all .relations → s'.relations = s.relations) ∧
    ∀ row ∈ s.memos, ∃ row' ∈ s'.memos, row'.uid = row.uid ∧ Kept loaded state all row row' ∧
      (¬Touched loaded state all .updateTime → ∀ message,
        getMemo env.toServices s.toDatabase userID (memoName row.uid) = .ok message →
        received message = prev → row.updatedTs ≤ row'.updatedTs)

/-- A retry that finds on the server what it would send. -/
def Confirmed : Prop :=
  options.retrying ∧ matchesPersistedEditorState prev state all options.baseUpdateTime

/-- The update time that was loaded may be sent again, or the clock of the server taken. -/
def UpdateTimeStands : Prop :=
  if dateDiffers (loaded.updateTime.map timestampDate) prev.updateTime then
    updatedTs prev = resentTs loaded ∨ Rewrites prev state all ∧ updatedTs prev ≤ resentTs loaded
  else Rewrites prev state all → updatedTs prev ≤ now

/-- The memo on the server has what was loaded, in every field that the user has left. -/
structure Undisturbed : Prop where
  fields : ∀ path, ¬Touched loaded state all path → Stands loaded prev path
  updateTime : ¬Touched loaded state all .updateTime → UpdateTimeStands now loaded prev state all

end

variable {now : Int} {loaded prev : Memo} {state : EditorState} {all : List Api.Attachment}
  {options : SaveOptions}

theorem differs_iff (path : Path) (hpath : path ≠ .updateTime)
    (hleft : ¬Touched loaded state all path) :
    Differs prev state all path ↔ ¬Stands loaded prev path := by
  unfold Touched fromMemo at hleft
  cases path with
  | updateTime => exact absurd rfl hpath
  | createTime => simp_all [Differs, Stands]
  | pinned | state | displayTime | other => simp [Differs, Stands]
  | content | visibility | attachments | relations | location =>
    have hsame := not_not.mp hleft
    unfold Differs Stands
    rw [hsame]
    exact not_congr eq_comm

theorem Respects.spares {call : UpdateCall} (h : Respects now loaded prev state all call)
    {row row' : MemoRecord} (hrow : WriteMemos.Spared call now row row')
    (hmask : .pinned ∉ call.memo.paths ∧ .state ∉ call.memo.paths) :
    Kept loaded state all row row' where
  content := fun hleft => hrow.content fun hnamed => hleft (h.fields _ hnamed (by decide))
  visibility := fun hleft => hrow.visibility fun hnamed => hleft (h.fields _ hnamed (by decide))
  location := fun hleft => hrow.location fun hnamed => hleft (h.fields _ hnamed (by decide))
  createTime := fun hleft => hrow.createTime fun hnamed => hleft (h.fields _ hnamed (by decide))
  pinned := hrow.pinned hmask.1
  state := hrow.state hmask.2

theorem updatedTs_fetched {services : Services} {db : Database} {userID : Nat} {row : MemoRecord}
    {message : Api.Memo} (hkeys : db.Keys) (hrow : row ∈ db.memos)
    (hget : getMemo services db userID (memoName row.uid) = .ok message) :
    updatedTs (received message) = row.updatedTs := by
  obtain ⟨uid, memo, _, hname, hmemo, -, -, hconverted⟩ := getMemo_ok hget
  obtain rfl := memoName_inj (extractMemoUID_ok hname)
  rw [convertMemoFromStore] at hconverted
  obtain ⟨_, _, -, -, hmessage⟩ := convertMemo_ok hconverted
  obtain ⟨row', hrow', huid', parent, -, rfl⟩ := Database.getMemo_uid hmemo
  obtain rfl := hkeys.row_eq_of_uid hrow' hrow huid'
  rw [hmessage]
  exact Int.add_zero _

theorem Respects.updatedTs_le {call : UpdateCall} (h : Respects now loaded prev state all call)
    (hleft : ¬Touched loaded state all .updateTime) {row row' : MemoRecord}
    (hrow : WriteMemos.Spared call now row row') (hprev : updatedTs prev = row.updatedTs) :
    row.updatedTs ≤ row'.updatedTs := by
  rcases hrow.updateTime with hsame | ⟨hnamed, hset⟩
  · exact le_of_eq hsame.symm
  · have hle := (h.updateTime hleft).1
    rw [hprev, updatedTsAfter, if_pos hnamed] at hle
    rw [hset]
    exact hle

theorem Respects.stores {call : UpdateCall} (h : Respects now loaded prev state all call)
    (hmask : .pinned ∉ call.memo.paths ∧ .state ∉ call.memo.paths) {services : Services}
    {userID : Nat} {s s' : Storage} (hkeys : s.toDatabase.Keys) (hspares : Spares call now s s') :
    (¬Touched loaded state all .attachments → s'.attachments = s.attachments) ∧
    (¬Touched loaded state all .relations → s'.relations = s.relations) ∧
    ∀ row ∈ s.memos, ∃ row' ∈ s'.memos, row'.uid = row.uid ∧ Kept loaded state all row row' ∧
      (¬Touched loaded state all .updateTime → ∀ message,
        getMemo services s.toDatabase userID (memoName row.uid) = .ok message →
        received message = prev → row.updatedTs ≤ row'.updatedTs) := by
  refine ⟨fun hleft => hspares.attachments fun hnamed => ?_,
    fun hleft => hspares.relations fun hnamed => ?_, fun row hrow => ?_⟩
  · exact hleft (h.fields _ hnamed (by decide))
  · exact hleft (h.fields _ hnamed (by decide))
  · obtain ⟨row', hrow', hspared⟩ := hspares.rows row hrow
    refine ⟨row', hrow', hspared.uid, h.spares hspared hmask, fun hleft message hget hprev => ?_⟩
    refine h.updatedTs_le hleft hspared ?_
    rw [← hprev]
    exact updatedTs_fetched hkeys hrow hget

section saved

variable [DecidableEq MemoPayload.Location]

theorem updateCall_eq : updateCall prev state all options =
    if options.retrying &&
        matchesPersistedEditorState prev state all options.baseUpdateTime then none
    else if (buildUpdateMask prev state all).mask = [] then none
    else some (buildUpdateMask prev state all).call := by
  unfold updateCall saveExistingMemo
  dsimp only
  split_ifs with hconfirmed hmask
  · rfl
  · rfl
  · rfl

theorem rewrites_iff : (∃ path ∈ contentPaths, path ∈ (buildUpdateMask prev state all).mask) ↔
    Rewrites prev state all := by
  simp [contentPaths, mem_buildUpdateMask, Differs, Rewrites]

theorem updatedTsAfter_eq [Decidable (Rewrites prev state all)] :
    updatedTsAfter now prev (buildUpdateMask prev state all).call =
      if dateDiffers state.updateTime prev.updateTime then
        Api.Timestamp.unix (state.updateTime.map timestampFromDate)
      else if Rewrites prev state all then now else updatedTs prev := by
  have hmem : .updateTime ∈ (buildUpdateMask prev state all).call.memo.paths ↔
      Rewrites prev state all ∨ dateDiffers state.updateTime prev.updateTime =
        true := mem_buildUpdateMask .updateTime
  have htime : (buildUpdateMask prev state all).call.memo.updateTime = _ :=
    buildUpdateMask_updateTime
  unfold updatedTsAfter requestedUpdateTime
  rw [htime]
  cases hdate : dateDiffers state.updateTime prev.updateTime with
  | true =>
    rw [if_pos (hmem.mpr (.inr hdate)), if_pos rfl, if_pos rfl]
    cases hstate : state.updateTime with
    | none =>
      rw [hstate] at hdate
      cases hdate
    | some date => rfl
  | false =>
    rw [if_neg Bool.false_ne_true, if_neg Bool.false_ne_true]
    by_cases hrewrites : Rewrites prev state all
    · rw [if_pos (hmem.mpr (.inl hrewrites)), if_pos hrewrites]
    · rw [if_neg hrewrites, if_neg]
      intro h
      rcases hmem.mp h with h | h
      · exact hrewrites h
      · rw [hdate] at h
        cases h

theorem updateTime_iff (hleft : ¬Touched loaded state all .updateTime) :
    (updatedTs prev ≤ updatedTsAfter now prev (buildUpdateMask prev state all).call ∧
      (¬Rewrites prev state all →
        updatedTsAfter now prev (buildUpdateMask prev state all).call = updatedTs prev)) ↔
      UpdateTimeStands now loaded prev state all := by
  classical
  have hsame : state.updateTime = loaded.updateTime.map timestampDate := not_not.mp hleft
  rw [updatedTsAfter_eq, hsame]
  unfold UpdateTimeStands resentTs
  cases dateDiffers (loaded.updateTime.map timestampDate) prev.updateTime with
  | true =>
    simp only [if_true]
    by_cases hrewrites : Rewrites prev state all
    · simp only [hrewrites, not_true, false_implies, and_true, true_and]
      constructor
      · exact .inr
      · exact Or.rec le_of_eq id
    · simp only [hrewrites, not_false_eq_true, true_implies, false_and, or_false]
      constructor
      · exact fun h => h.2.symm
      · exact fun h => ⟨le_of_eq h, h.symm⟩
  | false =>
    simp only [Bool.false_eq_true, if_false]
    by_cases hrewrites : Rewrites prev state all
    · simp [hrewrites]
    · simp [hrewrites]

theorem respects_iff : Respects now loaded prev state all (buildUpdateMask prev state all).call ↔
    Undisturbed now loaded prev state all := by
  have hmem : ∀ path, path ∈ (buildUpdateMask prev state all).call.memo.paths ↔
      Differs prev state all path := fun path => mem_buildUpdateMask path
  have hnone : (∀ path ∈ contentPaths, path ∉ (buildUpdateMask prev state all).call.memo.paths) ↔
      ¬Rewrites prev state all := by
    rw [← rewrites_iff]
    push Not
    rfl
  constructor
  · intro h
    constructor
    · intro path hleft
      by_cases hpath : path = .updateTime
      · rw [hpath]
        trivial
      · by_contra hmoved
        have hdiffers := (differs_iff path hpath hleft).mpr hmoved
        exact hleft (h.fields path ((hmem path).mpr hdiffers) hpath)
    · intro hleft
      obtain ⟨hle, hkept⟩ := h.updateTime hleft
      exact (updateTime_iff hleft).mp ⟨hle, fun hrewrites => hkept (hnone.mpr hrewrites)⟩
  · intro h
    constructor
    · intro path hnamed hpath
      by_contra hleft
      have hmoved := (differs_iff path hpath hleft).mp ((hmem path).mp hnamed)
      exact hmoved (h.fields path hleft)
    · intro hleft
      obtain ⟨hle, hkept⟩ := (updateTime_iff hleft).mpr (h.updateTime hleft)
      exact ⟨hle, fun hnot => hkept (hnone.mp hnot)⟩

theorem saveExistingMemo_cases {m : Type → Type} [Monad m] (updateMemo : UpdateCall → m Api.Memo) :
    (updateCall prev state all options = none ∧
      ∃ result, saveExistingMemo updateMemo prev state all options = pure result) ∨
    (updateCall prev state all options = some (buildUpdateMask prev state all).call ∧
      saveExistingMemo updateMemo prev state all options =
        updateMemo (buildUpdateMask prev state all).call >>=
          fun memo => pure ⟨memo.name, true, false⟩) := by
  rw [updateCall_eq]
  unfold saveExistingMemo
  dsimp only
  split_ifs with hconfirmed hmask
  · exact .inl ⟨rfl, _, rfl⟩
  · exact .inl ⟨rfl, _, rfl⟩
  · exact .inr ⟨rfl, rfl⟩

theorem respects_of_empty (hmask : (buildUpdateMask prev state all).mask = []) :
    Respects now loaded prev state all (buildUpdateMask prev state all).call := by
  have hnone : ∀ path, path ∉ (buildUpdateMask prev state all).call.memo.paths := by
    intro path hnamed
    change path ∈ (buildUpdateMask prev state all).mask at hnamed
    rw [hmask] at hnamed
    cases hnamed
  constructor
  · exact fun path hnamed => absurd hnamed (hnone path)
  · intro _
    rw [updatedTsAfter, if_neg (hnone .updateTime)]
    exact ⟨le_refl _, fun _ => rfl⟩

/-- Exactly when a save keeps what the user has left: it is a retry that finds its state on the
server, or the server still has what was loaded in every field that was left, and its update time
is not ahead of the one that the save sets. -/
theorem save_preserves_iff : Preserves now loaded prev state all options ↔
    Confirmed prev state all options ∨ Undisturbed now loaded prev state all := by
  have hcall := @updateCall_eq prev state all options
  constructor
  · intro h
    by_cases hconfirmed : Confirmed prev state all options
    · exact .inl hconfirmed
    · refine .inr (respects_iff.mp ?_)
      by_cases hmask : (buildUpdateMask prev state all).mask = []
      · exact respects_of_empty hmask
      · refine h.asks _ ?_
        rw [hcall, if_neg (by simpa [Confirmed] using hconfirmed), if_neg hmask]
  · intro h
    have hasks : ∀ call, updateCall prev state all options = some call →
        Respects now loaded prev state all call := by
      intro call hsome
      rw [hcall] at hsome
      split_ifs at hsome with hconfirmed hmask
      obtain rfl := Option.some.inj hsome
      rcases h with hconfirmed' | h
      · exact absurd (by simpa [Confirmed] using hconfirmed') hconfirmed
      · exact respects_iff.mpr h
    refine ⟨hasks, fun env userID stop s hnow hkeys => ?_⟩
    have hcases := @saveExistingMemo_cases prev state all options
    rcases hcases (WriteMemos.updateMemo env userID) with ⟨-, result, heq⟩ | ⟨hsome, heq⟩
    · rw [heq]
      exact ⟨fun _ => rfl, fun _ => rfl, fun row hrow => ⟨row, hrow, rfl,
        ⟨fun _ => rfl, fun _ => rfl, fun _ => rfl, fun _ => rfl, rfl, rfl⟩, fun _ _ _ _ => le_refl _⟩⟩
    · rw [heq]
      have hrun := (WriteMemos.updateMemo_spares hkeys.memoIds env userID
        (buildUpdateMask prev state all).call).bind (R := fun _ t =>
          Spares (buildUpdateMask prev state all).call env.now s t)
        fun memo => .pure (a := (⟨memo.name, true, false⟩ : SaveResult)) fun _ ht => ht
      have hspares := hrun.leaves rfl (WriteMemos.spares_of_tables rfl env.now) stop
      rw [hnow] at hspares
      refine (hasks _ hsome).stores ⟨fun hnamed => ?_, fun hnamed => ?_⟩ hkeys hspares
      · exact (mem_buildUpdateMask .pinned).mp hnamed
      · exact (mem_buildUpdateMask .state).mp hnamed

end saved

section shared

def privateMemo : Memo :=
  ⟨"memos/diary", "first", .Private, [], [], none, some ⟨50, 0⟩, some ⟨100, 0⟩⟩

def sharedMemo : Memo := { privateMemo with visibility := .Protected, updateTime := some ⟨200, 0⟩ }

def secondContent : EditorState := { fromMemo privateMemo with content := "second" }

def sharedRow : MemoRecord :=
  ⟨1, "diary", 1, 50, 200, .normal, "first", .Protected, false, ⟨none, none, []⟩⟩

def sharedDiary : Storage := { WriteMemos.diary with memos := [sharedRow] }

theorem getMemo_sharedDiary :
    sharedDiary.getMemo { uid := some "diary" } = some (sharedRow.withParent none) := by
  have hrow : sharedRow ∈ sharedDiary.toDatabase.memos := List.mem_singleton_self _
  exact Database.getMemo_of_parents sharedRow (by decide) hrow rfl

/-- The content is saved; the memo is private again, and its update time goes back. -/
theorem sharing_lost : ∃ (_ : DecidableEq MemoPayload.Location) (call : UpdateCall),
    updateCall sharedMemo secondContent [] ⟨false, none⟩ = some call ∧
    call.memo.paths = [.content, .visibility, .updateTime] ∧
    ¬Touched privateMemo secondContent [] .visibility ∧
    ¬Touched privateMemo secondContent [] .updateTime ∧
    ((saveExistingMemo (WriteMemos.updateMemo (WriteMemos.lenientEnv "") 1) sharedMemo secondContent
      [] ⟨false, none⟩).run sharedDiary).2.memos =
        [{ sharedRow with content := "second", visibility := .Private, updatedTs := 100 }] := by
  refine ⟨Classical.decEq _, (@buildUpdateMask (Classical.decEq _) sharedMemo secondContent []).call,
    ?_, ?_, ?_, ?_, ?_⟩
  · rfl
  · rfl
  · exact fun h => h rfl
  · exact fun h => h rfl
  · have hcheck : WriteMemos.checkUpdate sharedDiary.toDatabase 1
        (@buildUpdateMask (Classical.decEq _) sharedMemo secondContent []).call =
          .ok (WriteMemos.ada, sharedRow.withParent none) := by
      have hname : extractMemoUIDFromName "memos/diary" = .ok "diary" := by decide
      unfold WriteMemos.checkUpdate
      change (do let memoUID ← (extractMemoUIDFromName "memos/diary").mapError _; _) = _
      rw [hname]
      dsimp only [Except.mapError, bind, Except.bind]
      rw [getMemo_sharedDiary]
      rfl
    have hsave : (@saveExistingMemo (Classical.decEq _) _ _ (WriteMemos.updateMemo
        (WriteMemos.lenientEnv "") 1) sharedMemo secondContent [] ⟨false, none⟩) =
          WriteMemos.updateMemo (WriteMemos.lenientEnv "") 1
            (@buildUpdateMask (Classical.decEq _) sharedMemo secondContent []).call >>=
              fun memo => pure ⟨memo.name, true, false⟩ := rfl
    rw [hsave, Program.Durable.run_bind_pure, WriteMemos.updateMemo_store hcheck rfl]
    rfl

end shared

end Memoark.Editor.MemoService
