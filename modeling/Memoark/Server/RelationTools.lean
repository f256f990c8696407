import Memoark.Server.SetRelations
import Memoark.Store.MemoOrder

/-! The relation tools of the MCP server (`tools_relation.go`): one reference of a memo is added or
removed by setting all of them anew. -/
namespace Memoark.Server.RelationTools
open Store WriteMemos
open Program (Durable)

structure RelationJSON where
  memo : String
  relatedMemo : String
  type : String

abbrev Tool (α : Type) := Durable Storage Table String α

section checks

def extractUserID (userID : Nat) : Except String Nat :=
  if userID = 0 then .error "unauthenticated: a personal access token is required" else .ok userID

def parseMemoUID (name : String) : Except String String :=
  let uid := String.ofList (name.toList.drop 6)
  if ¬"memos/".toList.isPrefixOf name.toList ∨ uid = "" then
    .error ("memo name must be in the format \"memos/<uid>\", got " ++ Go.quoted name)
  else .ok uid

def hasMemoOwnership (memo : Memo) (userID : Nat) : Bool := memo.creatorId = userID

def checkMemoAccess (memo : Memo) (userID : Nat) : Except String Unit :=
  if memo.rowStatus = .archived ∧ memo.creatorId ≠ userID then .error "permission denied"
  else
    match memo.visibility with
    | .Protected => if userID = 0 then .error "permission denied" else .ok ()
    | .Private => if memo.creatorId ≠ userID then .error "permission denied" else .ok ()
    | .Public => .ok ()

end checks

def errorText (err : Status) : String :=
  let code := match err.code with
    | .Canceled => "Canceled"
    | .Unknown => "Unknown"
    | .InvalidArgument => "InvalidArgument"
    | .DeadlineExceeded => "DeadlineExceeded"
    | .NotFound => "NotFound"
    | .AlreadyExists => "AlreadyExists"
    | .PermissionDenied => "PermissionDenied"
    | .Internal => "Internal"
    | .Unavailable => "Unavailable"
    | .Unauthenticated => "Unauthenticated"
  "rpc error: code = " ++ code ++ " desc = " ++ err.message

section relations

variable (db : Database)

def newReferenceRelation (relatedUID : String) : RelationInput where
  relatedMemo := some (memoName relatedUID)
  type := some .REFERENCE

def referencesOf (id : Nat) : List MemoRelation :=
  (db.relations.filter fun r => r.type = .REFERENCE ∧ (r.memoId = id ∨ r.relatedMemoId = id)).mergeSort
    fun r r' => r'.memoId ≤ r.memoId

def memosByID (ids : List Nat) : Nat → Option Memo :=
  if ids = [] then fun _ => none
  else fun id => (db.listMemos { idList := ids, excludeContent := true }).reverse.find? (·.id = id)

/-- The memos that the references lead to, in their order; the source itself where a memo refers
to it, and none where there is no such memo. -/
def relatedMemos (source : Memo) : List Memo :=
  let relations := referencesOf db source.id
  let byID := memosByID db (relations.map (·.relatedMemoId)).dedup
  relations.filterMap fun relation => byID relation.relatedMemoId

def buildReferenceRelationSet (source : Memo) (includeUID excludeUID : Option String) :
    List RelationInput × Bool :=
  let related := relatedMemos db source
  let excluded := related.filter fun memo => some memo.uid = excludeUID
  let kept := related.filter fun memo => some memo.uid ≠ excludeUID
  let result := kept.map fun memo => newReferenceRelation memo.uid
  match includeUID with
  | none => (result, excluded ≠ [])
  | some uid =>
    if uid ∉ kept.map (·.uid) ∧ source.uid ≠ uid then (result ++ [newReferenceRelation uid], true)
    else (result, excluded ≠ [])

end relations

section tools

def toolMemo (db : Database) (uid missing : String) : Except String Memo :=
  match db.getMemo { uid := some uid } with
  | none => .error missing
  | some memo => .ok memo

structure Ends where
  srcUID : String
  dstUID : String
  srcMemo : Memo
  dstMemo : Memo

def checkEnds (db : Database) (userID : Nat) (name related : String) (reflexive : Bool) :
    Except String Ends := do
  let userID ← extractUserID userID
  let srcUID ← parseMemoUID name
  let dstUID ← parseMemoUID related
  if ¬reflexive ∧ srcUID = dstUID then
    throw "cannot create a relation from a memo to itself"
  let srcMemo ← toolMemo db srcUID "source memo not found"
  if ¬hasMemoOwnership srcMemo userID then
    throw "permission denied: must own the source memo"
  let dstMemo ← toolMemo db dstUID "related memo not found"
  checkMemoAccess dstMemo userID
  return ⟨srcUID, dstUID, srcMemo, dstMemo⟩

variable (env : Env) (userID : Nat)

def setIfChanged (srcUID failure : String) (built : List RelationInput × Bool) : Tool Unit :=
  if built.2 then
    (setMemoRelations env userID (memoName srcUID) built.1).mapFailure fun err =>
      failure ++ errorText err
  else return

def handleCreateMemoRelation (name related : String) : Tool RelationJSON := do
  let s ← Durable.get
  let ends ← Durable.ofExcept (checkEnds s.toDatabase userID name related false)
  setIfChanged env userID ends.srcUID "failed to create relation: "
    (buildReferenceRelationSet s.toDatabase ends.srcMemo (some ends.dstMemo.uid) none)
  return ⟨memoName ends.srcUID, memoName ends.dstUID, "REFERENCE"⟩

def handleDeleteMemoRelation (name related : String) : Tool Unit := do
  let s ← Durable.get
  let ends ← Durable.ofExcept (checkEnds s.toDatabase userID name related true)
  setIfChanged env userID ends.srcUID "failed to delete relation: "
    (buildReferenceRelationSet s.toDatabase ends.srcMemo none (some ends.dstMemo.uid))

end tools

section specification

def edge (src dst : MemoRecord) : MemoRelation := ⟨src.id, dst.id, .REFERENCE⟩

def Unsettable (s : Storage) (src : MemoRecord) (r : MemoRelation) : Prop :=
  r.memoId = src.id ∧ r.type = .REFERENCE ∧
    (r.relatedMemoId = src.id ∨ ¬∃ row ∈ s.memos, row.id = r.relatedMemoId)

/-- The relations are the old ones and one more. References that cannot be set are gone if the
new one was not there. -/
structure Created (s : Storage) (src dst : MemoRecord) (s' : Storage) : Prop where
  nodup : s'.relations.Nodup
  mem_iff : ∀ r, r ∈ s'.relations ↔
    r = edge src dst ∨ r ∈ s.relations ∧ (edge src dst ∈ s.relations ∨ ¬Unsettable s src r)

/-- The relations are the old ones without one. References that cannot be set are gone if it was
there; so they are if the memo is removed from itself and any memo refers to it. -/
structure Deleted (s : Storage) (src dst : MemoRecord) (s' : Storage) : Prop where
  nodup : s'.relations.Nodup
  mem_iff : ∀ r, r ∈ s'.relations ↔ r ∈ s.relations ∧ r ≠ edge src dst ∧
    (¬(∃ r ∈ s.relations, r.type = .REFERENCE ∧ r.relatedMemoId = dst.id ∧
        (r.memoId = src.id ∨ dst.id = src.id)) ∨ ¬Unsettable s src r)

end specification

section built

variable {db : Database} {source : Memo} {uid : String} {id : Nat} {relation : RelationInput}

theorem mem_referencesOf {r : MemoRelation} : r ∈ referencesOf db id ↔
    r ∈ db.relations ∧ r.type = .REFERENCE ∧ (r.memoId = id ∨ r.relatedMemoId = id) := by
  rw [referencesOf, List.mem_mergeSort, List.mem_filter, decide_eq_true_eq]

theorem memosByID_some {ids : List Nat} {memo : Memo} (h : memosByID db ids id = some memo) :
    ∃ row ∈ db.memos, row.id = id ∧ row.uid = memo.uid := by
  unfold memosByID at h
  split at h
  · cases h
  · have hmem := List.mem_of_find?_eq_some h
    have hid : memo.id = id := by simpa using List.find?_some h
    obtain ⟨row, hrow, -, parent, -, -, rfl⟩ :=
      Database.exists_of_mem_listMemos (List.mem_reverse.mp hmem)
    rw [Database.selected_id] at hid
    exact ⟨row, hrow, hid, (Database.selected_uid row parent).symm⟩

theorem exists_memosByID {ids : List Nat} {row : MemoRecord} (hrow : row ∈ db.memos)
    (hid : row.id ∈ ids) : ∃ memo, memosByID db ids row.id = some memo := by
  obtain ⟨parent, hparent⟩ := List.exists_mem_of_ne_nil _ (Database.parents_ne_nil db row)
  have hids : ids ≠ [] := List.ne_nil_of_mem hid
  have hmem : FindMemo.selected { idList := ids, excludeContent := true } (row.withParent parent) ∈
      db.listMemos { idList := ids, excludeContent := true } :=
    Database.mem_listMemos_of_row rfl hrow (by simp [FindMemo.matchesRow, asked, askedIn, hid])
      hparent rfl
  unfold memosByID
  rw [if_neg hids]
  apply Option.isSome_iff_exists.mp
  rw [List.find?_isSome]
  refine ⟨_, List.mem_reverse.mpr hmem, ?_⟩
  rw [Database.selected_id]
  exact decide_eq_true rfl

def relatedUIDs (db : Database) (source : Memo) : List String :=
  (relatedMemos db source).map (·.uid)

theorem mem_relatedUIDs (hkeys : db.Keys) : uid ∈ relatedUIDs db source ↔
    ∃ row ∈ db.memos, row.uid = uid ∧ ∃ r ∈ referencesOf db source.id, r.relatedMemoId = row.id := by
  unfold relatedUIDs
  rw [List.mem_map]
  constructor
  · rintro ⟨memo, hmemo, rfl⟩
    obtain ⟨r, hr, hfound⟩ := List.mem_filterMap.mp hmemo
    obtain ⟨row, hrow, hid, huid⟩ := memosByID_some hfound
    exact ⟨row, hrow, huid, r, hr, hid.symm⟩
  · rintro ⟨row, hrow, rfl, r, hr, hid⟩
    have hids : row.id ∈ ((referencesOf db source.id).map (·.relatedMemoId)).dedup :=
      List.mem_dedup.mpr (List.mem_map.mpr ⟨r, hr, hid⟩)
    obtain ⟨memo, hmemo⟩ := exists_memosByID hrow hids
    obtain ⟨row', hrow', hid', huid'⟩ := memosByID_some hmemo
    have hsame : row' = row := hkeys.row_eq hrow' hrow hid'
    refine ⟨memo, List.mem_filterMap.mpr ⟨r, hr, ?_⟩, ?_⟩
    · rw [hid]
      exact hmemo
    · rw [← huid', hsame]

theorem built_include (included : String) :
    buildReferenceRelationSet db source (some included) none =
      if included ∉ relatedUIDs db source ∧ source.uid ≠ included then
        ((relatedUIDs db source).map newReferenceRelation ++ [newReferenceRelation included], true)
      else ((relatedUIDs db source).map newReferenceRelation, false) := by
  have hkept : (relatedMemos db source).filter (fun memo => some memo.uid ≠ none) =
      relatedMemos db source := List.filter_eq_self.mpr fun memo _ => by simp
  have hexcluded : (relatedMemos db source).filter (fun memo => some memo.uid = none) = [] :=
    List.filter_eq_nil_iff.mpr fun memo _ => by simp
  unfold buildReferenceRelationSet relatedUIDs
  dsimp only
  rw [hkept, hexcluded, List.map_map]
  rfl

theorem built_include_changed {included : String} :
    (buildReferenceRelationSet db source (some included) none).2 = true ↔
      included ∉ relatedUIDs db source ∧ source.uid ≠ included := by
  rw [built_include]
  by_cases hnew : included ∉ relatedUIDs db source ∧ source.uid ≠ included
  · rw [if_pos hnew]
    exact iff_of_true rfl hnew
  · rw [if_neg hnew]
    exact iff_of_false Bool.false_ne_true hnew

theorem mem_built_include {included : String} :
    relation ∈ (buildReferenceRelationSet db source (some included) none).1 ↔
      ∃ uid, relation = newReferenceRelation uid ∧
        (uid ∈ relatedUIDs db source ∨ uid = included ∧ source.uid ≠ included) := by
  rw [built_include]
  by_cases hnew : included ∉ relatedUIDs db source ∧ source.uid ≠ included
  · rw [if_pos hnew]
    simp only [List.mem_append, List.mem_map, List.mem_singleton]
    constructor
    · rintro (⟨uid, huid, rfl⟩ | rfl)
      · exact ⟨uid, rfl, Or.inl huid⟩
      · exact ⟨included, rfl, Or.inr ⟨rfl, hnew.2⟩⟩
    · rintro ⟨uid, rfl, huid | ⟨rfl, -⟩⟩
      · exact Or.inl ⟨uid, huid, rfl⟩
      · exact Or.inr rfl
  · rw [if_neg hnew]
    simp only [List.mem_map]
    constructor
    · rintro ⟨uid, huid, rfl⟩
      exact ⟨uid, rfl, Or.inl huid⟩
    · rintro ⟨uid, rfl, huid | ⟨rfl, hother⟩⟩
      · exact ⟨uid, huid, rfl⟩
      · have hthere : uid ∈ relatedUIDs db source := by
          by_contra hmissing
          exact hnew ⟨hmissing, hother⟩
        exact ⟨uid, hthere, rfl⟩

theorem mem_built_exclude {excluded : String} :
    relation ∈ (buildReferenceRelationSet db source none (some excluded)).1 ↔
      ∃ uid, relation = newReferenceRelation uid ∧ uid ∈ relatedUIDs db source ∧
        uid ≠ excluded := by
  unfold buildReferenceRelationSet relatedUIDs
  simp only [List.mem_map, List.mem_filter, decide_eq_true_eq]
  constructor
  · rintro ⟨memo, ⟨hmemo, hne⟩, rfl⟩
    exact ⟨memo.uid, rfl, ⟨memo, hmemo, rfl⟩, fun heq => hne (congrArg some heq)⟩
  · rintro ⟨uid, rfl, ⟨memo, hmemo, rfl⟩, hne⟩
    exact ⟨memo, ⟨hmemo, fun heq => hne (Option.some.inj heq)⟩, rfl⟩

theorem built_exclude_changed {excluded : String} :
    (buildReferenceRelationSet db source none (some excluded)).2 = true ↔
      excluded ∈ relatedUIDs db source := by
  unfold buildReferenceRelationSet relatedUIDs
  rw [decide_eq_true_eq, List.mem_map]
  constructor
  · intro hsome
    obtain ⟨memo, hmemo⟩ := List.exists_mem_of_ne_nil _ hsome
    obtain ⟨hrelated, huid⟩ := List.mem_filter.mp hmemo
    exact ⟨memo, hrelated, Option.some.inj (of_decide_eq_true huid)⟩
  · rintro ⟨memo, hmemo, rfl⟩
    exact List.ne_nil_of_mem (List.mem_filter.mpr ⟨hmemo, decide_eq_true rfl⟩)

end built

section tools

variable {env : Env} {userID : Nat} {name related : String} {s s' : Storage}

theorem parseMemoUID_ok {uid : String} (h : parseMemoUID name = .ok uid) : name = memoName uid := by
  unfold parseMemoUID at h
  dsimp only at h
  split at h
  · cases h
  · rename_i hnot
    have hprefix : "memos/".toList <+: name.toList := by
      by_contra hno
      exact hnot (Or.inl (by simpa using hno))
    obtain ⟨rest, hrest⟩ := hprefix
    rw [← Except.ok.inj h, memoName]
    apply String.toList_inj.mp
    rw [String.toList_append, String.toList_ofList, ← hrest]
    simp

theorem toolMemo_ok {db : Database} {uid missing : String} {memo : Memo}
    (h : toolMemo db uid missing = .ok memo) : db.getMemo { uid := some uid } = some memo := by
  unfold toolMemo at h
  cases hget : db.getMemo { uid := some uid } with
  | none =>
    rw [hget] at h
    cases h
  | some found =>
    rw [hget] at h
    exact congrArg some (Except.ok.inj h)

theorem checkEnds_ok {db : Database} {reflexive : Bool} {ends : Ends}
    (h : checkEnds db userID name related reflexive = .ok ends) :
    name = memoName ends.srcUID ∧ related = memoName ends.dstUID ∧
      (reflexive = false → ends.srcUID ≠ ends.dstUID) ∧
      db.getMemo { uid := some ends.srcUID } = some ends.srcMemo ∧
      db.getMemo { uid := some ends.dstUID } = some ends.dstMemo := by
  unfold checkEnds at h
  obtain ⟨_, -, h⟩ := Program.bind_ok h
  obtain ⟨srcUID, hsrc, h⟩ := Program.bind_ok h
  obtain ⟨dstUID, hdst, h⟩ := Program.bind_ok h
  obtain ⟨hself, h⟩ := Program.check_ok h
  obtain ⟨srcMemo, hsrcMemo, h⟩ := Program.bind_ok h
  obtain ⟨-, h⟩ := Program.check_ok h
  obtain ⟨dstMemo, hdstMemo, h⟩ := Program.bind_ok h
  obtain ⟨_, -, h⟩ := Program.bind_ok h
  cases h
  refine ⟨parseMemoUID_ok hsrc, parseMemoUID_ok hdst, ?_, toolMemo_ok hsrcMemo,
    toolMemo_ok hdstMemo⟩
  rintro rfl hsame
  exact hself ⟨Bool.false_ne_true, hsame⟩

theorem setMemoRelations_ok (hkeys : s.Keys) {relations : List RelationInput}
    (hrun : (setMemoRelations env userID name relations).run s = (.ok (), s')) :
    ∃ memo, checkSetMemoRelations s.toDatabase userID name = .ok memo ∧
      (∀ relation ∈ relations, RelationExists s.memos memo.uid relation) ∧
      Replaced memo relations s s' ∧ s'.relations.Nodup := by
  unfold setMemoRelations at hrun
  obtain ⟨_, _, hget, hchecked⟩ := Durable.run_bind_ok.mp hrun
  cases hget
  obtain ⟨memo, t, hcheck, hset⟩ := Durable.run_bind_ok.mp hchecked
  obtain ⟨hcheck, ht⟩ := Durable.run_ofExcept.mp hcheck
  rw [ht] at hset
  obtain ⟨_, t₁, hset, htouch⟩ := Durable.run_bind_ok.mp hset
  obtain ⟨rows, hwritten, hnodup, hrows⟩ :=
    setMemoRelations_run memo hkeys.memoUids hkeys.relations relations
  rw [hwritten] at hset
  obtain ⟨hresult, ht₁⟩ := Prod.mk.inj hset
  rw [← ht₁] at htouch
  obtain ⟨_, t₂, htouch, hbuild⟩ := Durable.run_bind_ok.mp htouch
  obtain ⟨t₃, _, hwrite, -, hrelations, -, -⟩ := storeUpdateMemo_run
    { s with relations := rows } memo.id ⟨none, some env.now, none, none, none, none, none⟩
  have htouched := Durable.run_mapFailure.mp htouch
  rw [hwrite] at htouched
  obtain ⟨-, ht₂⟩ := Prod.mk.inj htouched
  rw [← ht₂] at hbuild
  obtain ⟨_, _, hget, hbuild⟩ := Durable.run_bind_ok.mp hbuild
  cases hget
  obtain ⟨_, t₄, hbuild, hreturn⟩ := Durable.run_bind_ok.mp hbuild
  obtain ⟨-, ht₄⟩ := Durable.run_ofExcept.mp hbuild
  cases hreturn
  subst ht₄
  refine ⟨memo, hcheck, relationsResult_ok_iff.mp hresult, ?_, ?_⟩
  · intro r
    rw [hrelations]
    exact hrows r
  · rw [hrelations]
    exact hnodup

theorem setIfChanged_ok (hkeys : s.Keys) {srcUID failure : String} {srcMemo : Memo}
    (hsrc : s.getMemo { uid := some srcUID } = some srcMemo) {built : List RelationInput × Bool}
    (hrun : (setIfChanged env userID srcUID failure built).run s = (.ok (), s')) :
    (built.2 = false ∧ s' = s) ∨ (built.2 = true ∧ s'.relations.Nodup ∧
      ∀ r, r ∈ s'.relations ↔ (r ∈ s.relations ∧ ¬(r.memoId = srcMemo.id ∧ r.type = .REFERENCE)) ∨
        Requests s.memos srcMemo built.1 r) := by
  unfold setIfChanged at hrun
  cases hchanged : built.2 with
  | false =>
    rw [hchanged] at hrun
    cases hrun
    exact Or.inl ⟨rfl, rfl⟩
  | true =>
    rw [hchanged, if_pos rfl] at hrun
    obtain ⟨memo, hcheck, hexist, hreplaced, hnodup⟩ :=
      setMemoRelations_ok hkeys (Durable.run_mapFailure.mp hrun)
    obtain ⟨uid, user, hname, hmemo, -, -⟩ := checkSetMemoRelations_ok hcheck
    have huid : srcUID = uid := memoName_inj (extractMemoUID_ok hname)
    rw [← huid] at hmemo
    have hsame : srcMemo = memo := Option.some.inj (hsrc.symm.trans hmemo)
    subst hsame
    refine Or.inr ⟨rfl, hnodup, ?_⟩
    intro r
    rw [hreplaced r, written_iff_requests hkeys.memoUids hexist]

variable {src dst row : MemoRecord} {srcMemo : Memo}

theorem requests_iff (hkeys : s.Keys) (hsrc : src ∈ s.memos) (hid : srcMemo.id = src.id)
    (huid : srcMemo.uid = src.uid) {relations : List RelationInput} {U : String → Prop}
    (hset : ∀ relation, relation ∈ relations ↔
      ∃ uid, relation = newReferenceRelation uid ∧ U uid) (r : MemoRelation) :
    Requests s.memos srcMemo relations r ↔ r.memoId = src.id ∧ r.type = .REFERENCE ∧
      r.relatedMemoId ≠ src.id ∧ ∃ row ∈ s.memos, row.id = r.relatedMemoId ∧ U row.uid := by
  unfold Requests
  rw [hid, huid]
  refine and_congr_right fun _ => and_congr_right fun _ => ?_
  constructor
  · rintro ⟨relation, hmem, -, hother, row, hrow, hrowId, hname⟩
    obtain ⟨uid, rfl, hU⟩ := (hset relation).mp hmem
    have hrowUid : uid = row.uid := memoName_inj (Option.some.inj hname)
    subst hrowUid
    refine ⟨?_, row, hrow, hrowId, hU⟩
    intro hself
    have hsame : row = src := hkeys.row_eq hrow hsrc (hrowId.trans hself)
    apply hother
    rw [hsame]
    rfl
  · rintro ⟨hother, row, hrow, hrowId, hU⟩
    refine ⟨newReferenceRelation row.uid, (hset _).mpr ⟨row.uid, rfl, hU⟩, ?_, ?_, row, hrow,
      hrowId, rfl⟩
    · intro htype
      cases htype
    · intro hname
      have hsame : row = src :=
        hkeys.row_eq_of_uid hrow hsrc (memoName_inj (Option.some.inj hname))
      apply hother
      rw [← hrowId, hsame]

theorem uid_mem_relatedUIDs (hkeys : s.Keys) (hid : srcMemo.id = src.id) (hrow : row ∈ s.memos)
    (hother : row.id ≠ src.id) :
    row.uid ∈ relatedUIDs s.toDatabase srcMemo ↔ edge src row ∈ s.relations := by
  rw [mem_relatedUIDs hkeys]
  constructor
  · rintro ⟨row', hrow', huid, r, hr, hrelated⟩
    have hsame : row' = row := hkeys.row_eq_of_uid hrow' hrow huid
    subst hsame
    obtain ⟨hmem, htype, hend⟩ := mem_referencesOf.mp hr
    rw [hid] at hend
    have hmemo : r.memoId = src.id := by
      rcases hend with hmemo | hself
      · exact hmemo
      · exact absurd (hrelated.symm.trans hself) hother
    have hedge : r = edge src row' := by
      cases r
      simp_all [edge]
    rw [← hedge]
    exact hmem
  · intro hmem
    exact ⟨row, hrow, rfl, edge src row, mem_referencesOf.mpr ⟨hmem, rfl, Or.inl hid.symm⟩, rfl⟩

theorem eq_edge_iff {r : MemoRelation} : r = edge src dst ↔
    r.memoId = src.id ∧ r.type = .REFERENCE ∧ r.relatedMemoId = dst.id := by
  cases r
  simp [edge, and_comm]

theorem not_unsettable_iff {r : MemoRelation} (hmemo : r.memoId = src.id) (htype : r.type = .REFERENCE) :
    ¬Unsettable s src r ↔ r.relatedMemoId ≠ src.id ∧
      ∃ row ∈ s.memos, row.id = r.relatedMemoId ∧ r = edge src row := by
  have hedge : ∀ row : MemoRecord, row.id = r.relatedMemoId → r = edge src row := fun row hid =>
    eq_edge_iff.mpr ⟨hmemo, htype, hid.symm⟩
  unfold Unsettable
  constructor
  · intro hsettable
    refine ⟨fun hself => hsettable ⟨hmemo, htype, .inl hself⟩, ?_⟩
    by_contra hmissing
    apply hsettable
    refine ⟨hmemo, htype, .inr fun hfound => ?_⟩
    obtain ⟨row, hrow, hid⟩ := hfound
    exact hmissing ⟨row, hrow, hid, hedge row hid⟩
  · intro hset hunsettable
    obtain ⟨hother, row, hrow, hid, -⟩ := hset
    rcases hunsettable.2.2 with hself | hmissing
    · exact hother hself
    · exact hmissing ⟨row, hrow, hid⟩

theorem created_of_set (hdst : dst ∈ s.memos) (hne : dst.id ≠ src.id)
    (hnew : edge src dst ∉ s.relations) (hnodup : s'.relations.Nodup)
    (hset : ∀ r, r ∈ s'.relations ↔ (r ∈ s.relations ∧ ¬(r.memoId = src.id ∧ r.type = .REFERENCE)) ∨
      (r.memoId = src.id ∧ r.type = .REFERENCE ∧ r.relatedMemoId ≠ src.id ∧
        ∃ row ∈ s.memos, row.id = r.relatedMemoId ∧
          (edge src row ∈ s.relations ∨ row = dst))) : Created s src dst s' := by
  refine ⟨hnodup, ?_⟩
  intro r
  rw [hset r]
  constructor
  · rintro (⟨hmem, hkept⟩ | ⟨hmemo, htype, hother, row, hrow, hid, hold | rfl⟩)
    · exact Or.inr ⟨hmem, Or.inr fun hunsettable => hkept ⟨hunsettable.1, hunsettable.2.1⟩⟩
    · have hedge : r = edge src row := eq_edge_iff.mpr ⟨hmemo, htype, hid.symm⟩
      have hsettable := (not_unsettable_iff hmemo htype).mpr ⟨hother, row, hrow, hid, hedge⟩
      exact Or.inr ⟨hedge ▸ hold, Or.inr hsettable⟩
    · exact Or.inl (eq_edge_iff.mpr ⟨hmemo, htype, hid.symm⟩)
  · rintro (rfl | ⟨hmem, hthere | hsettable⟩)
    · exact Or.inr ⟨rfl, rfl, hne, dst, hdst, rfl, Or.inr rfl⟩
    · exact absurd hthere hnew
    · by_cases hreference : r.memoId = src.id ∧ r.type = .REFERENCE
      · obtain ⟨hmemo, htype⟩ := hreference
        obtain ⟨hother, row, hrow, hid, hedge⟩ := (not_unsettable_iff hmemo htype).mp hsettable
        exact Or.inr ⟨hmemo, htype, hother, row, hrow, hid, Or.inl (hedge ▸ hmem)⟩
      · exact Or.inl ⟨hmem, hreference⟩

theorem deleted_of_set (hkeys : s.Keys) (hdst : dst ∈ s.memos) (hnodup : s'.relations.Nodup)
    (hset : ∀ r, r ∈ s'.relations ↔ (r ∈ s.relations ∧ ¬(r.memoId = src.id ∧ r.type = .REFERENCE)) ∨
      (r.memoId = src.id ∧ r.type = .REFERENCE ∧ r.relatedMemoId ≠ src.id ∧
        ∃ row ∈ s.memos, row.id = r.relatedMemoId ∧
          edge src row ∈ s.relations ∧ row ≠ dst))
    (hchanged : ∃ r ∈ s.relations, r.type = .REFERENCE ∧ r.relatedMemoId = dst.id ∧
      (r.memoId = src.id ∨ dst.id = src.id)) : Deleted s src dst s' := by
  refine ⟨hnodup, ?_⟩
  intro r
  rw [hset r]
  constructor
  · rintro (⟨hmem, hkept⟩ | ⟨hmemo, htype, hother, row, hrow, hid, hold, hne⟩)
    · refine ⟨hmem, ?_, Or.inr fun hunsettable => hkept ⟨hunsettable.1, hunsettable.2.1⟩⟩
      rintro rfl
      exact hkept ⟨rfl, rfl⟩
    · have hedge : r = edge src row := eq_edge_iff.mpr ⟨hmemo, htype, hid.symm⟩
      have hsettable := (not_unsettable_iff hmemo htype).mpr ⟨hother, row, hrow, hid, hedge⟩
      refine ⟨hedge ▸ hold, ?_, Or.inr hsettable⟩
      intro heq
      have hdstId : r.relatedMemoId = dst.id := (eq_edge_iff.mp heq).2.2
      exact hne (hkeys.row_eq hrow hdst (hid.trans hdstId))
  · rintro ⟨hmem, hne, hquiet | hsettable⟩
    · exact absurd hchanged hquiet
    · by_cases hreference : r.memoId = src.id ∧ r.type = .REFERENCE
      · obtain ⟨hmemo, htype⟩ := hreference
        obtain ⟨hother, row, hrow, hid, hedge⟩ := (not_unsettable_iff hmemo htype).mp hsettable
        refine Or.inr ⟨hmemo, htype, hother, row, hrow, hid, hedge ▸ hmem, ?_⟩
        rintro rfl
        exact hne hedge
      · exact Or.inl ⟨hmem, hreference⟩

theorem exists_ends (h : s.getMemo { uid := some uid } = some srcMemo) :
    ∃ src ∈ s.memos, src.uid = uid ∧ srcMemo.id = src.id ∧ srcMemo.uid = src.uid := by
  obtain ⟨src, hsrc, huid, parent, -, rfl⟩ := Database.getMemo_uid h
  exact ⟨src, hsrc, huid, rfl, rfl⟩

theorem created_of_run (hkeys : s.Keys) {result : RelationJSON}
    (hrun : (handleCreateMemoRelation env userID name related).run s = (.ok result, s')) :
    ∃ src ∈ s.memos, ∃ dst ∈ s.memos, name = memoName src.uid ∧ related = memoName dst.uid ∧
      Created s src dst s' := by
  unfold handleCreateMemoRelation at hrun
  obtain ⟨_, _, hget, hrun⟩ := Durable.run_bind_ok.mp hrun
  cases hget
  obtain ⟨ends, t, hcheck, hrun⟩ := Durable.run_bind_ok.mp hrun
  obtain ⟨hcheck, ht⟩ := Durable.run_ofExcept.mp hcheck
  rw [ht] at hrun
  obtain ⟨hname, hrelated, hdiffer, hsrcMemo, hdstMemo⟩ := checkEnds_ok hcheck
  obtain ⟨_, t₁, hset, hreturn⟩ := Durable.run_bind_ok.mp hrun
  cases hreturn
  obtain ⟨src, hsrc, hsrcUid, hid, huid⟩ := exists_ends hsrcMemo
  obtain ⟨dst, hdst, hdstUid, hdstId, hdstUid'⟩ := exists_ends hdstMemo
  have huids : src.uid ≠ dst.uid := by
    rw [hsrcUid, hdstUid]
    exact hdiffer rfl
  have hne : dst.id ≠ src.id := by
    intro hsame
    exact huids (congrArg MemoRecord.uid (hkeys.row_eq hsrc hdst hsame.symm))
  have hedge := uid_mem_relatedUIDs hkeys hid hdst hne
  refine ⟨src, hsrc, dst, hdst, hsrcUid ▸ hname, hdstUid ▸ hrelated, ?_⟩
  have hchanged : (buildReferenceRelationSet s.toDatabase ends.srcMemo (some ends.dstMemo.uid)
      none).2 = true ↔ edge src dst ∉ s.relations := by
    rw [built_include_changed, hdstUid', huid, hedge]
    exact and_iff_left huids
  rcases setIfChanged_ok hkeys hsrcMemo hset with ⟨hsame, rfl⟩ | ⟨hdone, hnodup, hmem⟩
  · have hthere : edge src dst ∈ s'.relations := by
      by_contra hmissing
      rw [hchanged.mpr hmissing] at hsame
      cases hsame
    refine ⟨hkeys.relations, ?_⟩
    intro r
    constructor
    · intro hr
      exact Or.inr ⟨hr, Or.inl hthere⟩
    · rintro (rfl | ⟨hr, -⟩)
      · exact hthere
      · exact hr
  · apply created_of_set hdst hne (hchanged.mp hdone) hnodup
    intro r
    rw [hmem r, requests_iff hkeys hsrc hid huid (fun relation => mem_built_include) r, hid]
    refine or_congr_right (and_congr_right fun _ => and_congr_right fun _ =>
      and_congr_right fun hother => exists_congr fun row => and_congr_right fun hrow =>
        and_congr_right fun hrowId => ?_)
    have hrowNe : row.id ≠ src.id := by
      rw [hrowId]
      exact hother
    rw [uid_mem_relatedUIDs hkeys hid hrow hrowNe, hdstUid', huid]
    refine or_congr_right ?_
    constructor
    · rintro ⟨hsame, -⟩
      exact hkeys.row_eq_of_uid hrow hdst hsame
    · rintro rfl
      exact ⟨rfl, huids⟩

theorem deleted_of_run (hkeys : s.Keys) {result : Unit}
    (hrun : (handleDeleteMemoRelation env userID name related).run s = (.ok result, s')) :
    ∃ src ∈ s.memos, ∃ dst ∈ s.memos, name = memoName src.uid ∧ related = memoName dst.uid ∧
      Deleted s src dst s' := by
  unfold handleDeleteMemoRelation at hrun
  obtain ⟨_, _, hget, hrun⟩ := Durable.run_bind_ok.mp hrun
  cases hget
  obtain ⟨ends, t, hcheck, hset⟩ := Durable.run_bind_ok.mp hrun
  obtain ⟨hcheck, ht⟩ := Durable.run_ofExcept.mp hcheck
  rw [ht] at hset
  obtain ⟨hname, hrelated, -, hsrcMemo, hdstMemo⟩ := checkEnds_ok hcheck
  obtain ⟨src, hsrc, hsrcUid, hid, huid⟩ := exists_ends hsrcMemo
  obtain ⟨dst, hdst, hdstUid, hdstId, hdstUid'⟩ := exists_ends hdstMemo
  refine ⟨src, hsrc, dst, hdst, hsrcUid ▸ hname, hdstUid ▸ hrelated, ?_⟩
  have hchanged : (buildReferenceRelationSet s.toDatabase ends.srcMemo none
      (some ends.dstMemo.uid)).2 = true ↔ ∃ r ∈ s.relations, r.type = .REFERENCE ∧
        r.relatedMemoId = dst.id ∧ (r.memoId = src.id ∨ dst.id = src.id) := by
    rw [built_exclude_changed, hdstUid', mem_relatedUIDs hkeys]
    constructor
    · rintro ⟨row, hrow, hrowUid, r, hr, hrelatedId⟩
      obtain ⟨hmem, htype, hend⟩ := mem_referencesOf.mp hr
      have hsame : row = dst := hkeys.row_eq_of_uid hrow hdst hrowUid
      subst hsame
      rw [hid, hrelatedId] at hend
      exact ⟨r, hmem, htype, hrelatedId, hend⟩
    · rintro ⟨r, hmem, htype, hrelatedId, hend⟩
      refine ⟨dst, hdst, rfl, r, mem_referencesOf.mpr ⟨hmem, htype, ?_⟩, hrelatedId⟩
      rw [hid, hrelatedId]
      exact hend
  rcases setIfChanged_ok hkeys hsrcMemo hset with ⟨hsame, rfl⟩ | ⟨hdone, hnodup, hmem⟩
  · have hquiet : ¬∃ r ∈ s'.relations, r.type = .REFERENCE ∧ r.relatedMemoId = dst.id ∧
        (r.memoId = src.id ∨ dst.id = src.id) := by
      intro hthere
      rw [hchanged.mpr hthere] at hsame
      cases hsame
    refine ⟨hkeys.relations, ?_⟩
    intro r
    constructor
    · intro hr
      refine ⟨hr, ?_, Or.inl hquiet⟩
      rintro rfl
      exact hquiet ⟨edge src dst, hr, rfl, rfl, Or.inl rfl⟩
    · exact fun h => h.1
  · apply deleted_of_set hkeys hdst hnodup _ (hchanged.mp hdone)
    intro r
    rw [hmem r, requests_iff hkeys hsrc hid huid (fun relation => mem_built_exclude) r, hid]
    refine or_congr_right (and_congr_right fun _ => and_congr_right fun _ =>
      and_congr_right fun hother => exists_congr fun row => and_congr_right fun hrow =>
        and_congr_right fun hrowId => ?_)
    have hrowNe : row.id ≠ src.id := by
      rw [hrowId]
      exact hother
    rw [uid_mem_relatedUIDs hkeys hid hrow hrowNe, hdstUid']
    refine and_congr_right fun _ => not_congr ?_
    constructor
    · exact hkeys.row_eq_of_uid hrow hdst
    · rintro rfl
      rfl

theorem exists_handleDelete (h : Intact s) (hsnippets : env.Snippets) {ends : Ends}
    (hcheck : checkEnds s.toDatabase userID name related true = .ok ends)
    (hallowed : checkSetMemoRelations s.toDatabase userID (memoName ends.srcUID) = .ok ends.srcMemo)
    (hexist : ∀ relation ∈ (buildReferenceRelationSet s.toDatabase ends.srcMemo none
      (some ends.dstMemo.uid)).1, RelationExists s.memos ends.srcMemo.uid relation)
    (hcreator : (s.getUser ends.srcMemo.creatorId).isSome) :
    ∃ s', (handleDeleteMemoRelation env userID name related).run s = (.ok (), s') := by
  have hends : (Durable.ofExcept (checkEnds s.toDatabase userID name related true) :
      Tool Ends).run s = (.ok ends, s) := by
    rw [Durable.run_ofExcept_eq, hcheck]
  obtain ⟨s', hrun, -, -⟩ := setMemoRelations_checked _ h hsnippets hallowed
  rw [relationsResult_ok_iff.mpr hexist, Except.bind, builtAnswer, if_pos hcreator] at hrun
  unfold handleDeleteMemoRelation
  rw [Durable.run_bind_of_ok (show Durable.get.run s = (.ok s, s) from rfl),
    Durable.run_bind_of_ok hends, setIfChanged]
  by_cases hchanged : (buildReferenceRelationSet s.toDatabase ends.srcMemo none
      (some ends.dstMemo.uid)).2 = true
  · rw [if_pos hchanged]
    exact ⟨s', Durable.run_mapFailure.mpr hrun⟩
  · rw [if_neg hchanged]
    exact ⟨s, rfl⟩

end tools

/-- A successful call of a tool adds or removes the one reference. Other relations stay, but for
references of the source that cannot be set. -/
theorem relationTools_exact (env : Env) (userID : Nat) (name related : String) {s : Storage}
    (hkeys : s.Keys) :
    (∀ result s', (handleCreateMemoRelation env userID name related).run s = (.ok result, s') →
      ∃ src ∈ s.memos, ∃ dst ∈ s.memos, name = memoName src.uid ∧ related = memoName dst.uid ∧
        Created s src dst s') ∧
    ∀ result s', (handleDeleteMemoRelation env userID name related).run s = (.ok result, s') →
      ∃ src ∈ s.memos, ∃ dst ∈ s.memos, name = memoName src.uid ∧ related = memoName dst.uid ∧
        Deleted s src dst s' :=
  ⟨fun _ _ => created_of_run hkeys, fun _ _ => deleted_of_run hkeys⟩

section diary

def tornDiary : Storage :=
  { linkedDiary with relations := [⟨1, 2, .REFERENCE⟩, ⟨1, 9, .REFERENCE⟩] }

theorem tornDiary_intact : Intact tornDiary where
  keys := ⟨by decide, by decide, by decide, by decide⟩
  attachmentIds := linkedDiary_intact.attachmentIds
  fresh := linkedDiary_intact.fresh

theorem getMemo_tornDiary {row : MemoRecord} (hrow : row ∈ tornDiary.memos) :
    tornDiary.getMemo { uid := some row.uid } = some (row.withParent none) := by
  refine Database.getMemo_of_parents row tornDiary_intact.keys.memoUids hrow ?_
  rcases List.mem_cons.mp hrow with rfl | hrow
  · rfl
  · rw [List.mem_singleton.mp hrow]
    rfl

theorem exists_delete_tornDiary : ∃ s', (handleDeleteMemoRelation (lenientEnv "") 1 "memos/diary"
    "memos/note").run tornDiary = (.ok (), s') := by
  have hdiary : tornDiary.getMemo { uid := some "diary" } = some (diaryMemo.withParent none) :=
    getMemo_tornDiary List.mem_cons_self
  have hnote : tornDiary.getMemo { uid := some "note" } = some (noteMemo.withParent none) :=
    getMemo_tornDiary (List.mem_cons_of_mem _ List.mem_cons_self)
  have hcheck : checkEnds tornDiary.toDatabase 1 "memos/diary" "memos/note" true =
      .ok ⟨"diary", "note", diaryMemo.withParent none, noteMemo.withParent none⟩ := by
    have hsrc : parseMemoUID "memos/diary" = .ok "diary" := by decide
    have hdst : parseMemoUID "memos/note" = .ok "note" := by decide
    unfold checkEnds
    rw [hsrc, hdst]
    change (toolMemo tornDiary.toDatabase "diary" _ >>= fun memo => _) = _
    rw [toolMemo, hdiary]
    change (toolMemo tornDiary.toDatabase "note" _ >>= fun memo => _) = _
    rw [toolMemo, hnote]
    rfl
  have hallowed : checkSetMemoRelations tornDiary.toDatabase 1 (memoName "diary") =
      .ok (diaryMemo.withParent none) := by
    have hname : extractMemoUIDFromName (memoName "diary") = .ok "diary" := by decide
    unfold checkSetMemoRelations
    rw [hname]
    change (foundMemo (tornDiary.getMemo { uid := some "diary" }) >>= fun memo => _) = _
    rw [hdiary]
    rfl
  refine exists_handleDelete tornDiary_intact (lenientEnv_snippets "") hcheck hallowed ?_ rfl
  intro relation hrelation
  obtain ⟨uid, -, huid, hother⟩ := mem_built_exclude.mp hrelation
  obtain ⟨row, hrow, rfl, r, hr, hid⟩ := (mem_relatedUIDs tornDiary_intact.keys).mp huid
  -- The only memo that is left out of the set is the note, and the diary refers to no other.
  rcases List.mem_cons.mp hrow with rfl | hrow
  · obtain ⟨hmem, -, -⟩ := mem_referencesOf.mp hr
    rcases List.mem_cons.mp hmem with rfl | hmem
    · exact absurd hid (by decide)
    · rw [List.mem_singleton.mp hmem] at hid
      exact absurd hid (by decide)
  · rw [List.mem_singleton.mp hrow] at hother
    exact absurd rfl hother

/-- The note is removed. -/
theorem relationTools_tornDiary : ∃ s', (handleDeleteMemoRelation (lenientEnv "") 1 "memos/diary"
    "memos/note").run tornDiary = (.ok (), s') ∧ ∃ src dst, memoName src.uid = "memos/diary" ∧
      memoName dst.uid = "memos/note" ∧ Deleted tornDiary src dst s' := by
  obtain ⟨s', hrun⟩ := exists_delete_tornDiary
  obtain ⟨src, -, dst, -, hname, hrelated, hdeleted⟩ :=
    (relationTools_exact (lenientEnv "") 1 "memos/diary" "memos/note" tornDiary_intact.keys).2 _ _ hrun
  exact ⟨s', hrun, src, dst, hname.symm, hrelated.symm, hdeleted⟩

/-- With the note goes the reference to the memo that is gone. -/
theorem other_reference_lost : ∃ s', (handleDeleteMemoRelation (lenientEnv "") 1 "memos/diary"
    "memos/note").run tornDiary = (.ok (), s') ∧
      ⟨1, 9, .REFERENCE⟩ ∈ tornDiary.relations ∧ ⟨1, 9, .REFERENCE⟩ ∉ s'.relations := by
  obtain ⟨s', hrun⟩ := exists_delete_tornDiary
  obtain ⟨src, hsrc, dst, hdst, hname, hrelated, hdeleted⟩ :=
    deleted_of_run tornDiary_intact.keys hrun
  have hdiary : src = diaryMemo := tornDiary_intact.keys.row_eq_of_uid hsrc List.mem_cons_self
    (memoName_inj hname.symm)
  have hnote : dst = noteMemo := tornDiary_intact.keys.row_eq_of_uid hdst
    (List.mem_cons_of_mem _ List.mem_cons_self) (memoName_inj hrelated.symm)
  subst hdiary hnote
  refine ⟨s', hrun, List.mem_cons_of_mem _ List.mem_cons_self, ?_⟩
  intro hmem
  obtain ⟨-, -, hquiet | hsettable⟩ := (hdeleted.mem_iff _).mp hmem
  · exact hquiet ⟨⟨1, 2, .REFERENCE⟩, List.mem_cons_self, rfl, rfl, Or.inl rfl⟩
  · apply hsettable
    refine ⟨rfl, rfl, Or.inr ?_⟩
    decide

end diary

end Memoark.Server.RelationTools
