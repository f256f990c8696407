import Mathlib.Data.List.ReduceOption
import Memoark.Order.Selection
import Memoark.Program.Returns
import Memoark.Server.ReadMemos

/-! A memo read alone and the same memo in a listing: the loaders of reactions, relations and
attachments for one memo and for many. -/
namespace Memoark.Server
open Store

namespace Api

def MemoRelation.withoutSnippets (r : MemoRelation) : MemoRelation :=
  ⟨⟨r.memo.name, ""⟩, ⟨r.relatedMemo.name, ""⟩, r.type⟩

/-- Two messages agree: all scalar fields are equal, and the children are the same as multisets,
relation snippets aside. -/
structure Memo.Agrees (a b : Memo) : Prop where
  name : a.name = b.name
  state : a.state = b.state
  creator : a.creator = b.creator
  createTime : a.createTime = b.createTime
  updateTime : a.updateTime = b.updateTime
  content : a.content = b.content
  visibility : a.visibility = b.visibility
  pinned : a.pinned = b.pinned
  tags : a.tags = b.tags
  property : a.property = b.property
  location : a.location = b.location
  parent : a.parent = b.parent
  snippet : a.snippet = b.snippet
  reactions : a.reactions.Perm b.reactions
  relations : (a.relations.map (·.withoutSnippets)).Perm (b.relations.map (·.withoutSnippets))
  attachments : a.attachments.Perm b.attachments

end Api

section users

variable {db : Database}

def UsersByID.Sound (db : Database) (users : UsersByID) : Prop :=
  ∀ id user, users id = some user → db.getUser id = some user

theorem listUsersByID_of_mem {ids : List Nat} {id : Nat} (h : id ∈ ids) :
    listUsersByID db ids id = db.getUser id := by
  have hne : ids ≠ [] := List.ne_nil_of_mem h
  rw [listUsersByID, if_neg hne]
  show (db.users.filter _).find? _ = db.users.find? _
  rw [List.find?_filter]
  congr 1
  funext user
  by_cases huser : user.id = id
  · simp [huser, askedIn, h]
  · simp [huser]

theorem listUsersByID_sound (ids : List Nat) : UsersByID.Sound db (listUsersByID db ids) := by
  intro id user h
  by_cases hid : id ∈ ids
  · rw [← listUsersByID_of_mem hid]
    exact h
  · rw [listUsersByID] at h
    split at h
    · cases h
    · rename_i hne
      have hmem := List.mem_of_find?_eq_some h
      have huser : user.id = id := by simpa using List.find?_some h
      have hasked : askedIn ids.dedup user.id = true := (List.mem_filter.mp hmem).2
      rw [huser] at hasked
      simp [askedIn, hne, hid] at hasked

theorem listUsersByIDWithExisting_of_mem {existing : UsersByID} (hsound : existing.Sound db)
    {ids : List Nat} {id : Nat} (h : id ∈ ids) :
    listUsersByIDWithExisting db ids existing id = db.getUser id := by
  rw [listUsersByIDWithExisting]
  cases hexisting : existing id with
  | some user =>
    rw [hsound id user hexisting]
    split
    · exact hexisting
    · simp [hexisting]
  | none =>
    have hmissing : id ∈ (ids.filter fun id => (existing id).isNone).dedup :=
      List.mem_dedup.mpr (List.mem_filter.mpr ⟨h, by rw [hexisting]; rfl⟩)
    rw [if_neg (List.ne_nil_of_mem hmissing), hexisting, Option.none_or]
    exact listUsersByID_of_mem hmissing

theorem convertReactions_eq {creatorMap : UsersByID} (hsound : creatorMap.Sound db)
    (reactions : List ReactionRecord) :
    convertReactionsFromStoreWithCreators db reactions creatorMap =
      reactions.filterMap fun r => (db.getUser r.creatorId).map (convertReaction r) := by
  rw [convertReactionsFromStoreWithCreators]
  split
  · rename_i hnil
    rw [hnil]
    rfl
  · refine List.filterMap_congr fun r hr => ?_
    rw [listUsersByIDWithExisting_of_mem hsound (List.mem_map_of_mem hr)]

end users

section relations

variable {db : Database}

theorem mem_mergeMemoRelations {groups : List (List MemoRelation)} {r : MemoRelation} :
    r ∈ mergeMemoRelations groups ↔ ∃ group ∈ groups, r ∈ group := by
  have hmem := (Order.foldl_distinct groups.flatten List.nodup_nil).2 r
  rw [mergeMemoRelations, hmem]
  simp

theorem nodup_mergeMemoRelations (groups : List (List MemoRelation)) :
    (mergeMemoRelations groups).Nodup :=
  (Order.foldl_distinct groups.flatten List.nodup_nil).1

def Joined (db : Database) (user : Option UserRecord) (r : MemoRelation) : Prop :=
  r.memoId ∈ db.idsWhere (relationFilter user) ∧ r.relatedMemoId ∈ db.idsWhere (relationFilter user)

instance (user : Option UserRecord) (r : MemoRelation) : Decidable (Joined db user r) :=
  inferInstanceAs (Decidable (_ ∧ _))

theorem mem_loadedRelations (db : Database) (user : Option UserRecord) {ids : List Nat}
    (hids : ids ≠ []) (r : MemoRelation) :
    r ∈ mergeMemoRelations
        [db.listMemoRelations { sourceMemoIdList := ids, memoFilter := some (relationFilter user) },
          db.listMemoRelations
            { relatedMemoIdList := ids, memoFilter := some (relationFilter user) }] ↔
      r ∈ db.relations ∧ Joined db user r ∧ (r.memoId ∈ ids ∨ r.relatedMemoId ∈ ids) := by
  rw [mem_mergeMemoRelations]
  simp only [List.mem_cons, List.not_mem_nil, or_false, exists_eq_or_imp, exists_eq_left,
    Database.listMemoRelations, List.mem_mergeSort, List.mem_filter]
  simp [asked, askedIn, hids, Joined]
  tauto

theorem mem_idsWhere_exists {user : Option UserRecord} {id : Nat}
    (h : id ∈ db.idsWhere (relationFilter user)) : ∃ row ∈ db.memos, row.id = id := by
  obtain ⟨row, hrow, -, hid⟩ := Database.mem_idsWhere.mp h
  exact ⟨row, hrow, hid⟩

def FromRows (db : Database) (memos : List Memo) : Prop :=
  ∀ m ∈ memos, ∃ row ∈ db.memos, row.id = m.id ∧ row.uid = m.uid

theorem fromRows_listMemos (find : FindMemo) : FromRows db (db.listMemos find) := by
  intro m hm
  obtain ⟨row, hrow, -, parent, -, -, rfl⟩ := Database.exists_of_mem_listMemos hm
  refine ⟨row, hrow, ?_⟩
  unfold FindMemo.selected
  split <;> exact ⟨rfl, rfl⟩

theorem FromRows.append {memos memos' : List Memo} (h : FromRows db memos)
    (h' : FromRows db memos') : FromRows db (memos ++ memos') := by
  intro m hm
  rcases List.mem_append.mp hm with hm | hm
  · exact h m hm
  · exact h' m hm

theorem fromRows_extraMemos (memos : List Memo) (relations : List MemoRelation) (snippets : Bool) :
    FromRows db (extraMemos db memos relations snippets) := by
  rw [extraMemos]
  split
  · exact fun m hm => absurd hm List.not_mem_nil
  · exact fromRows_listMemos _

theorem uidIn_eq (hkeys : db.Keys) {memos : List Memo} (hrows : FromRows db memos) {id : Nat}
    (hid : ∃ m ∈ memos, m.id = id) : uidIn memos id = db.uidOf id := by
  rw [uidIn]
  cases hfind : memos.find? (·.id = id) with
  | none =>
    obtain ⟨m, hm, rfl⟩ := hid
    have hne := List.find?_eq_none.mp hfind m hm
    simp at hne
  | some m =>
    obtain ⟨row, hrow, hrowid, hrowuid⟩ := hrows m (List.mem_of_find?_eq_some hfind)
    have hm : m.id = id := by simpa using List.find?_some hfind
    rw [← hm, ← hrowid, hkeys.uidOf_eq hrow, hrowuid]
    rfl

theorem exists_known {memos : List Memo} {relations : List MemoRelation} {snippets : Bool}
    {id : Nat} (hneeded : ∃ r ∈ relations, r.memoId = id ∨ r.relatedMemoId = id)
    (hrow : ∃ row ∈ db.memos, row.id = id) :
    ∃ m ∈ memos ++ extraMemos db memos relations snippets, m.id = id := by
  by_cases hhand : ∃ m ∈ memos, m.id = id
  · obtain ⟨m, hm, hid⟩ := hhand
    exact ⟨m, List.mem_append_left _ hm, hid⟩
  · have hmem : id ∈ ((relations.flatMap fun r => [r.memoId, r.relatedMemoId]).filter
        fun id => memos.all (·.id ≠ id)).dedup := by
      rw [List.mem_dedup, List.mem_filter, List.mem_flatMap]
      constructor
      · obtain ⟨r, hr, hid⟩ := hneeded
        refine ⟨r, hr, ?_⟩
        rcases hid with rfl | rfl
        · simp
        · simp
      · simpa using fun m hm hid => hhand ⟨m, hm, hid⟩
    obtain ⟨row, hrow, rfl⟩ := hrow
    obtain ⟨parent, hparent⟩ := List.exists_mem_of_ne_nil _ (Database.parents_ne_nil db row)
    let find : FindMemo := {
      idList := ((relations.flatMap fun r => [r.memoId, r.relatedMemoId]).filter
        fun id => memos.all (·.id ≠ id)).dedup
      excludeContent := !snippets }
    have hlisted : find.selected (row.withParent parent) ∈ db.listMemos find := by
      refine Database.mem_listMemos_of_row rfl hrow ?_ hparent rfl
      simp only [find, FindMemo.matchesRow, asked, askedIn, hmem]
      simp
    refine ⟨find.selected (row.withParent parent), List.mem_append_right _ ?_, ?_⟩
    · rw [extraMemos, if_neg (List.ne_nil_of_mem hmem)]
      exact hlisted
    · unfold FindMemo.selected
      split <;> rfl

theorem relationsOf_withoutSnippets (uidOf : Nat → Option String) (snippetOf : Nat → String)
    (relations : List MemoRelation) (id : Nat) :
    (relationsOf uidOf snippetOf relations id).map (·.withoutSnippets) =
      relationsOf uidOf (fun _ => "") relations id := by
  rw [relationsOf, relationsOf, List.map_flatMap]
  congr 1
  funext r
  cases uidOf r.memoId with
  | none => rfl
  | some memoUid =>
    cases uidOf r.relatedMemoId with
    | none => rfl
    | some relatedUid =>
      dsimp only
      rw [List.map_append]
      congr 1
      · split <;> rfl
      · split <;> rfl

theorem relationsOf_congr {uidOf uidOf' : Nat → Option String} (snippetOf : Nat → String)
    {relations : List MemoRelation} (id : Nat)
    (h : ∀ r ∈ relations, uidOf r.memoId = uidOf' r.memoId ∧
      uidOf r.relatedMemoId = uidOf' r.relatedMemoId) :
    relationsOf uidOf snippetOf relations id = relationsOf uidOf' snippetOf relations id := by
  rw [relationsOf, relationsOf]
  refine List.flatMap_congr fun r hr => ?_
  rw [(h r hr).1, (h r hr).2]

theorem relationsOf_filter (uidOf : Nat → Option String) (snippetOf : Nat → String)
    (relations : List MemoRelation) (id : Nat) :
    relationsOf uidOf snippetOf relations id =
      relationsOf uidOf snippetOf
        (relations.filter fun r => r.memoId = id ∨ r.relatedMemoId = id) id := by
  induction relations with
  | nil => rfl
  | cons r relations ih =>
    have hcons : ∀ rest, relationsOf uidOf snippetOf (r :: rest) id =
        relationsOf uidOf snippetOf [r] id ++ relationsOf uidOf snippetOf rest id := by
      intro rest
      simp [relationsOf]
    by_cases hr : r.memoId = id ∨ r.relatedMemoId = id
    · rw [List.filter_cons_of_pos (by simpa using hr), hcons, ih, ← hcons]
    · have hempty : relationsOf uidOf snippetOf [r] id = [] := by
        obtain ⟨hleft, hright⟩ := not_or.mp hr
        simp only [relationsOf, List.flatMap_singleton]
        cases uidOf r.memoId with
        | none => rfl
        | some memoUid =>
          cases uidOf r.relatedMemoId with
          | none => rfl
          | some relatedUid => simp [hleft, hright]
      rw [List.filter_cons_of_neg (by simpa using hr), hcons, hempty, ih]
      rfl

def visibleRelations (db : Database) (user : Option UserRecord) (id : Nat) :
    List Api.MemoRelation :=
  relationsOf db.uidOf (fun _ => "")
    (db.relations.filter fun r => Joined db user r ∧ (r.memoId = id ∨ r.relatedMemoId = id)) id

theorem batchConvertMemoRelations_spec (hkeys : db.Keys) {generateSnippet : GenerateSnippet}
    {userID : Nat} {memos : List Memo} (hrows : FromRows db memos) {includeSnippets : Bool}
    {relationMap : Nat → List Api.MemoRelation}
    (h : batchConvertMemoRelations db generateSnippet userID memos includeSnippets =
      .ok relationMap) {user : Option UserRecord} (huser : fetchCurrentUser db userID = .ok user)
    {memo : Memo} (hmemo : memo ∈ memos) :
    ((relationMap memo.id).map (·.withoutSnippets)).Perm (visibleRelations db user memo.id) := by
  have hne : memos ≠ [] := List.ne_nil_of_mem hmemo
  have hids : memos.map (·.id) ≠ [] := by simpa using hne
  have hid : memo.id ∈ memos.map (·.id) := List.mem_map_of_mem hmemo
  rw [batchConvertMemoRelations, if_neg hne, huser] at h
  obtain ⟨_, ⟨⟩, h⟩ := Program.bind_ok h
  obtain ⟨snippets, -, h⟩ := Program.bind_ok h
  obtain ⟨extraSnippets, -, h⟩ := Program.bind_ok h
  obtain rfl := Except.ok.inj h
  dsimp only
  rw [if_pos hid, relationsOf_withoutSnippets]
  have hloaded := mem_loadedRelations db user hids
  have hnodup := nodup_mergeMemoRelations
    [db.listMemoRelations
        { sourceMemoIdList := memos.map (·.id), memoFilter := some (relationFilter user) },
      db.listMemoRelations
        { relatedMemoIdList := memos.map (·.id), memoFilter := some (relationFilter user) }]
  generalize mergeMemoRelations _ = relations at hloaded hnodup ⊢
  have huids : ∀ r ∈ relations,
      uidIn (memos ++ extraMemos db memos relations includeSnippets) r.memoId =
          db.uidOf r.memoId ∧
        uidIn (memos ++ extraMemos db memos relations includeSnippets) r.relatedMemoId =
          db.uidOf r.relatedMemoId := by
    intro r hr
    have hknown := hrows.append (fromRows_extraMemos memos relations includeSnippets)
    obtain ⟨-, ⟨hleft, hright⟩, -⟩ := (hloaded r).mp hr
    constructor
    · exact uidIn_eq hkeys hknown (exists_known ⟨r, hr, .inl rfl⟩ (mem_idsWhere_exists hleft))
    · exact uidIn_eq hkeys hknown (exists_known ⟨r, hr, .inr rfl⟩ (mem_idsWhere_exists hright))
  rw [relationsOf_congr _ _ huids, relationsOf_filter]
  refine List.Perm.flatMap_right _ ?_
  rw [List.perm_ext_iff_of_nodup (hnodup.filter _) (hkeys.relations.filter _)]
  intro r
  rw [List.mem_filter, hloaded r, List.mem_filter]
  simp only [decide_eq_true_eq]
  constructor
  · rintro ⟨⟨hr, hjoined, -⟩, htouch⟩
    exact ⟨hr, hjoined, htouch⟩
  · rintro ⟨hr, hjoined, htouch⟩
    refine ⟨⟨hr, hjoined, ?_⟩, htouch⟩
    rcases htouch with heq | heq
    · exact .inl (heq ▸ hid)
    · exact .inr (heq ▸ hid)

end relations

section children

variable {db : Database}

theorem attachments_listing (db : Database) {ids : List Nat} {id : Nat} (hid : id ∈ ids) :
    ((db.listAttachments { memoIdList := ids }).filter (·.memoId = some id)).Perm
      (db.attachments.filter (·.memoId = some id)) := by
  have hne : ids ≠ [] := List.ne_nil_of_mem hid
  rw [Database.listAttachments, if_neg (by simp [hne]), Database.listAttachmentRows]
  have hsort := (List.mergeSort_perm (db.attachments.filter fun a =>
    (none : Option Nat).all (fun id => a.memoId = some id) &&
      (ids = [] ∨ ∃ id ∈ ids, a.memoId = some id)) fun a b => b.updatedTs ≤ a.updatedTs).filter
    (·.memoId = some id)
  refine hsort.trans (List.Perm.of_eq ?_)
  rw [List.filter_filter]
  refine List.filter_congr fun a _ => ?_
  by_cases ha : a.memoId = some id
  · simp [ha, hid]
  · simp [ha]

theorem attachments_single (id : Nat) :
    db.listAttachments { memoId := some id } =
      ((db.attachments.filter (·.memoId = some id)).mergeSort
        fun a b => b.updatedTs ≤ a.updatedTs).take 100 := by
  rw [Database.listAttachments, if_pos ⟨rfl, rfl⟩, Database.listAttachmentRows, page]
  simp [asked]

/-- The limit of a hundred is the only difference between the two readings. -/
theorem attachments_perm_iff {ids : List Nat} {id : Nat} (hid : id ∈ ids) :
    ((db.listAttachments { memoId := some id }).map (convertAttachmentFromStore db)).Perm
        (((db.listAttachments { memoIdList := ids }).filter (·.memoId = some id)).map
          (convertAttachmentFromStore db)) ↔
      (db.attachments.filter (·.memoId = some id)).length ≤ 100 := by
  have hlisting := attachments_listing db hid
  have hsort := List.mergeSort_perm (db.attachments.filter (·.memoId = some id))
    fun a b => b.updatedTs ≤ a.updatedTs
  rw [attachments_single]
  constructor
  · intro hperm
    have hlength := hperm.length_eq
    rw [List.length_map, List.length_map, List.length_take, hsort.length_eq, hlisting.length_eq]
      at hlength
    omega
  · intro hle
    rw [List.take_of_length_le (by rw [hsort.length_eq]; exact hle)]
    exact (hsort.trans hlisting.symm).map _

theorem reactions_perm {names : List String} {name : String} (hname : name ∈ names) :
    (db.listReactions { contentId := some name }).Perm
      ((db.listReactions { contentIdList := names }).filter (·.contentId = name)) := by
  have hne : names ≠ [] := List.ne_nil_of_mem hname
  refine (List.mergeSort_perm _ _).trans (.trans (.of_eq ?_)
    ((List.mergeSort_perm _ _).filter _).symm)
  rw [List.filter_filter]
  refine List.filter_congr fun r _ => ?_
  by_cases hr : r.contentId = name
  · simp [asked, askedIn, hr, hname]
  · have hr' : ¬name = r.contentId := fun heq => hr heq.symm
    simpa [asked, askedIn, hr] using hr'

end children

section requests

variable {services : Services} {db : Database} {userID : Nat}

theorem getNameParentToken_ok {name tokenPrefix token : String}
    (h : getNameParentToken name tokenPrefix = .ok token) : name = tokenPrefix ++ token := by
  rw [getNameParentToken] at h
  split at h
  · rename_i head token' hsplit
    split at h
    · cases h
    · rename_i hhead
      split at h
      · cases h
      · obtain rfl := Except.ok.inj h
        have hjoin : ['/'].intercalate (name.toList.splitOn '/') = name.toList :=
          List.intercalate_splitOn '/'
        rw [hsplit] at hjoin
        have hprefix : String.ofList head ++ "/" = tokenPrefix := not_not.mp hhead
        rw [← hprefix]
        apply String.toList_inj.mp
        rw [← hjoin]
        simp [List.intercalate, String.toList_append]
  · cases h

theorem extractMemoUID_ok {name uid : String} (h : extractMemoUIDFromName name = .ok uid) :
    name = memoName uid := getNameParentToken_ok h

theorem memoName_inj {uid uid' : String} (h : memoName uid = memoName uid') : uid = uid' := by
  have hlist := congrArg String.toList h
  simp only [memoName, String.toList_append, List.append_cancel_left_eq] at hlist
  exact String.toList_inj.mp hlist

def SameShape (find find' : FindMemo) : Prop :=
  find'.excludeComments = find.excludeComments ∧ find'.excludeContent = find.excludeContent

def Reordered (find find' : FindMemo) : Prop :=
  ∃ orderByPinned orderByUpdatedTs orderByTimeAsc,
    find' = { find with orderByPinned, orderByUpdatedTs, orderByTimeAsc }

theorem Reordered.trans {find find' find'' : FindMemo} (h : Reordered find find')
    (h' : Reordered find' find'') : Reordered find find'' := by
  obtain ⟨_, _, _, rfl⟩ := h
  obtain ⟨_, _, _, rfl⟩ := h'
  exact ⟨_, _, _, rfl⟩

theorem Reordered.shape {find find' : FindMemo} (h : Reordered find find') :
    SameShape find find' := by
  obtain ⟨_, _, _, rfl⟩ := h
  exact ⟨rfl, rfl⟩

theorem orderField_reordered {field : List Char} {find find' : FindMemo} {flags flags' : OrderFlags}
    (h : orderField field find flags = .ok (find', flags')) : Reordered find find' := by
  rw [orderField] at h
  split at h
  · cases h
    exact ⟨_, _, _, rfl⟩
  · obtain ⟨fieldDirection, -, h⟩ := Program.bind_ok h
    split at h
    · cases h
      exact ⟨_, _, _, rfl⟩
    · split at h
      · cases h
        cases flags.hasExplicitTimeField <;> exact ⟨_, _, _, rfl⟩
      · split at h
        · cases h
          cases flags.hasExplicitTimeField <;> exact ⟨_, _, _, rfl⟩
        · cases h

theorem orderFields_reordered {fields : List (List Char)} {find find' : FindMemo}
    {flags flags' : OrderFlags} (h : orderFields fields find flags = .ok (find', flags')) :
    Reordered find find' := by
  induction fields generalizing find flags with
  | nil =>
    cases h
    exact ⟨_, _, _, rfl⟩
  | cons field fields ih =>
    rw [orderFields] at h
    obtain ⟨⟨next, flags⟩, hfield, h⟩ := Program.bind_ok h
    exact (orderField_reordered hfield).trans (ih h)

theorem parseMemoOrderBy_reordered {orderBy : String} {find find' : FindMemo}
    (h : parseMemoOrderBy orderBy find = .ok find') : Reordered find find' := by
  rw [parseMemoOrderBy] at h
  split at h
  · cases h
  · obtain ⟨⟨next, flags⟩, hfields, h⟩ := Program.bind_ok h
    have hnext := orderFields_reordered hfields
    dsimp only at h
    split at h
    · cases h
      exact hnext.trans ⟨_, _, _, rfl⟩
    · cases h
      exact hnext

theorem visibilityStep_shape (user : Option UserRecord) (find : FindMemo) :
    SameShape find (visibilityStep user find) := by
  cases user with
  | none => exact ⟨rfl, rfl⟩
  | some user =>
    unfold visibilityStep
    dsimp only
    split
    · exact ⟨rfl, rfl⟩
    · split <;> exact ⟨rfl, rfl⟩

theorem orderStep_reordered {request : ListMemosRequest} {find find' : FindMemo}
    (h : orderStep request find = .ok find') : Reordered find find' := by
  rw [orderStep] at h
  split at h
  · exact parseMemoOrderBy_reordered (Program.mapError_ok h)
  · cases h
    exact ⟨_, _, _, rfl⟩

theorem findMemos_shape {request : ListMemosRequest} {find : FindMemo}
    (h : findMemos services db userID request = .ok (some find)) :
    find.excludeComments = true ∧ find.excludeContent = false := by
  rw [findMemos] at h
  obtain ⟨user, -, h⟩ := Program.bind_ok h
  dsimp only at h
  split at h
  · cases h
  · obtain ⟨ordered, hordered, h⟩ := Program.bind_ok h
    obtain ⟨filters, -, h⟩ := Program.bind_ok h
    cases h
    have hvisibility := visibilityStep_shape user { ordered with filters }
    have horder := (orderStep_reordered hordered).shape
    exact ⟨hvisibility.1.trans horder.1, hvisibility.2.trans horder.2⟩

theorem convertMemo_ok {memo : Memo} {reactions : List ReactionRecord}
    {attachments : List AttachmentRecord} {relations : List Api.MemoRelation} {users : UsersByID}
    {message : Api.Memo}
    (h : convertMemoFromStoreWithCreators db services.generateSnippet memo reactions attachments
      relations users = .ok message) :
    ∃ creator snippet, users memo.creatorId = some creator ∧
      getMemoContentSnippet services.generateSnippet memo.content = .ok snippet ∧
      message = {
        name := memoName memo.uid
        state := convertStateFromStore memo.rowStatus
        creator := buildUserName creator.username
        createTime := timestamp memo.createdTs
        updateTime := timestamp memo.updatedTs
        content := memo.content
        visibility := convertVisibilityFromStore memo.visibility
        pinned := memo.pinned
        tags := memo.payload.tags
        property := memo.payload.property
        location := memo.payload.location
        parent := memo.parentUid.map memoName
        reactions := convertReactionsFromStoreWithCreators db reactions users
        relations := relations
        attachments := attachments.map (convertAttachmentFromStore db)
        snippet := snippet } := by
  rw [convertMemoFromStoreWithCreators] at h
  cases hcreator : users memo.creatorId with
  | none =>
    rw [hcreator] at h
    cases h
  | some creator =>
    rw [hcreator] at h
    cases hsnippet : getMemoContentSnippet services.generateSnippet memo.content with
    | error err =>
      rw [hsnippet] at h
      cases h
    | ok snippet =>
      rw [hsnippet] at h
      cases h
      exact ⟨creator, snippet, rfl, rfl, rfl⟩

theorem convertMemo_agrees_iff {memo : Memo} {reactions reactions' : List ReactionRecord}
    {attachments attachments' : List AttachmentRecord} {relations relations' : List Api.MemoRelation}
    {users users' : UsersByID} {message message' : Api.Memo}
    (h : convertMemoFromStoreWithCreators db services.generateSnippet memo reactions attachments
      relations users = .ok message)
    (h' : convertMemoFromStoreWithCreators db services.generateSnippet memo reactions' attachments'
      relations' users' = .ok message')
    (husers : users.Sound db) (husers' : users'.Sound db) (hreactions : reactions.Perm reactions')
    (hrelations : (relations.map (·.withoutSnippets)).Perm (relations'.map (·.withoutSnippets))) :
    message.Agrees message' ↔
      (attachments.map (convertAttachmentFromStore db)).Perm
        (attachments'.map (convertAttachmentFromStore db)) := by
  obtain ⟨creator, snippet, hcreator, hsnippet, rfl⟩ := convertMemo_ok h
  obtain ⟨creator', snippet', hcreator', hsnippet', rfl⟩ := convertMemo_ok h'
  have hsame : creator = creator' :=
    Option.some.inj ((husers _ _ hcreator).symm.trans (husers' _ _ hcreator'))
  have hsnippets : snippet = snippet' := Except.ok.inj (hsnippet.symm.trans hsnippet')
  subst hsame hsnippets
  constructor
  · intro hagrees
    exact hagrees.attachments
  · intro hattachments
    constructor <;> first | rfl | skip
    · rw [convertReactions_eq husers, convertReactions_eq husers']
      exact hreactions.filterMap _
    · exact hrelations
    · exact hattachments

def TopLevel (db : Database) (row : MemoRecord) : Prop := ∀ parent ∈ db.parents row, parent = none

theorem convertListed_some {converted : Except ConvertError Api.Memo} {message : Api.Memo}
    (h : convertListed converted = .ok (some message)) : converted = .ok message := by
  cases converted with
  | error err => cases err <;> cases h
  | ok message' =>
    cases h
    rfl

theorem answerConverted_ok {converted : Except ConvertError Api.Memo} {message : Api.Memo}
    (h : answerConverted converted = .ok message) : converted = .ok message := by
  cases converted with
  | error err => cases err <;> cases h
  | ok message' =>
    cases h
    rfl

theorem fetchCurrentUser_of_batch {generateSnippet : GenerateSnippet} {memos : List Memo}
    {snippets : Bool} {relationMap : Nat → List Api.MemoRelation} (hne : memos ≠ [])
    (h : batchConvertMemoRelations db generateSnippet userID memos snippets = .ok relationMap) :
    ∃ user, fetchCurrentUser db userID = .ok user := by
  rw [batchConvertMemoRelations, if_neg hne] at h
  obtain ⟨user, huser, -⟩ := Program.bind_ok h
  exact ⟨user, Program.mapError_ok huser⟩

theorem listMemos_entry (hkeys : db.Keys) {request : ListMemosRequest}
    {response : ListMemosResponse} (hlist : listMemos services db userID request = .ok response)
    {row : MemoRecord} (hrow : row ∈ db.memos) {entry : Api.Memo} (hentry : entry ∈ response.memos)
    (hname : entry.name = memoName row.uid) :
    ∃ (memos : List Memo) (users : UsersByID) (relationMap : Nat → List Api.MemoRelation),
      FromRows db memos ∧ row.withParent none ∈ memos ∧ users.Sound db ∧
      batchConvertMemoRelations db services.generateSnippet userID memos false = .ok relationMap ∧
      convertMemoFromStoreWithCreators db services.generateSnippet (row.withParent none)
        ((db.listReactions { contentIdList := memos.map fun m => memoName m.uid }).filter
          (·.contentId = memoName row.uid))
        ((db.listAttachments { memoIdList := memos.map (·.id) }).filter (·.memoId = some row.id))
        (relationMap row.id) users = .ok entry := by
  rw [listMemos] at hlist
  obtain ⟨found, hfound, hlist⟩ := Program.bind_ok hlist
  cases found with
  | none =>
    cases hlist
    exact absurd hentry List.not_mem_nil
  | some find =>
    obtain ⟨⟨limit, offset⟩, -, hpage⟩ := Program.bind_ok hlist
    dsimp only [listPage] at hpage
    generalize hlisted : db.listMemos { find with limit := some (limit + 1), offset := some offset } =
      listed at hpage
    have hrows : FromRows db listed := hlisted ▸ fromRows_listMemos _
    split at hpage
    · cases hpage
      exact absurd hentry List.not_mem_nil
    · obtain ⟨messages, hconvert, rfl⟩ := Program.map_ok hpage
      rw [convertMemos] at hconvert
      obtain ⟨relationMap, hrelations, hconvert⟩ := Program.bind_ok hconvert
      obtain ⟨converted, hconverted, hconvert⟩ := Program.bind_ok hconvert
      cases hconvert
      obtain ⟨memo, hmemo, hmessage⟩ := Program.mem_of_mapM_ok hconverted _
        (List.reduceOption_mem_iff.mp hentry)
      have hmessage := convertListed_some hmessage
      -- The entry's name leads back to the row, and comments are excluded.
      have hmemo_eq : memo = row.withParent none := by
        have hmem := List.mem_of_mem_take hmemo
        rw [← hlisted] at hmem
        have hshape := findMemos_shape hfound
        obtain ⟨row', hrow', -, parent, -, hparent, rfl⟩ := Database.exists_of_mem_listMemos hmem
        have hselected : ∀ m : Memo, FindMemo.selected
            { find with limit := some (limit + 1), offset := some offset } m = m := by
          intro m
          unfold FindMemo.selected
          rw [if_neg (by simp [hshape.2])]
        rw [hselected] at hmessage ⊢
        obtain ⟨_, _, -, -, rfl⟩ := convertMemo_ok hmessage
        rw [hkeys.row_eq_of_uid hrow' hrow (memoName_inj hname)]
        simp only [FindMemo.matchesParent, hshape.1, Bool.not_true, Bool.false_or,
          Option.isNone_iff_eq_none] at hparent
        rw [hparent]
      rw [hmemo_eq] at hmemo hmessage
      exact ⟨listed.take limit, _, relationMap, fun m hm => hrows m (List.mem_of_mem_take hm),
        hmemo, listUsersByID_sound _, Program.mapError_ok hrelations, hmessage⟩

theorem getMemo_ok {name : String} {message : Api.Memo}
    (hget : getMemo services db userID name = .ok message) :
    ∃ (uid : String) (memo : Memo) (relationMap : Nat → List Api.MemoRelation),
      extractMemoUIDFromName name = .ok uid ∧ db.getMemo { uid := some uid } = some memo ∧
      checkMemoReadAccess db userID (some memo) = .ok () ∧
      batchConvertMemoRelations db services.generateSnippet userID [memo] true =
        .ok relationMap ∧
      convertMemoFromStore db services.generateSnippet memo
        (db.listReactions { contentId := some name })
        (db.listAttachments { memoId := some memo.id }) (relationMap memo.id) = .ok message := by
  rw [getMemo] at hget
  obtain ⟨uid, huid, hget⟩ := Program.bind_ok hget
  cases hmemo : db.getMemo { uid := some uid } with
  | none =>
    rw [hmemo] at hget
    cases hget
  | some memo =>
    rw [hmemo] at hget
    obtain ⟨_, haccess, hget⟩ := Program.bind_ok hget
    obtain ⟨-, -, hget⟩ := Program.bind_ok hget
    obtain ⟨relations, hrelations, hget⟩ := Program.bind_ok hget
    have hrelations := Program.mapError_ok hrelations
    rw [loadMemoRelations] at hrelations
    obtain ⟨relationMap, hmap, hrelations⟩ := Program.bind_ok hrelations
    obtain rfl := Except.ok.inj hrelations
    exact ⟨uid, memo, relationMap, Program.mapError_ok huid, hmemo, haccess, hmap,
      answerConverted_ok hget⟩

theorem getMemo_message (hkeys : db.Keys) {row : MemoRecord} (hrow : row ∈ db.memos)
    (htop : TopLevel db row) {message : Api.Memo}
    (hget : getMemo services db userID (memoName row.uid) = .ok message) :
    ∃ relationMap : Nat → List Api.MemoRelation,
      batchConvertMemoRelations db services.generateSnippet userID [row.withParent none] true =
        .ok relationMap ∧
      convertMemoFromStoreWithCreators db services.generateSnippet (row.withParent none)
        (db.listReactions { contentId := some (memoName row.uid) })
        (db.listAttachments { memoId := some row.id }) (relationMap row.id)
        (listUsersByID db [row.creatorId]) = .ok message := by
  obtain ⟨uid, memo, relationMap, hname, hmemo, -, hmap, hmessage⟩ := getMemo_ok hget
  obtain rfl := memoName_inj (extractMemoUID_ok hname)
  obtain ⟨row', hrow', huid, parent, hparent, rfl⟩ := Database.getMemo_uid hmemo
  obtain rfl := hkeys.row_eq_of_uid hrow' hrow huid
  obtain rfl := htop parent hparent
  exact ⟨relationMap, hmap, hmessage⟩

/-- The message of a memo read alone agrees with its entry in a listing exactly if the memo has no
more attachments than a single read lists. -/
theorem getMemo_agrees_iff (hkeys : db.Keys) {request : ListMemosRequest}
    {response : ListMemosResponse} (hlist : listMemos services db userID request = .ok response)
    {row : MemoRecord} (hrow : row ∈ db.memos) (htop : TopLevel db row) {entry : Api.Memo}
    (hentry : entry ∈ response.memos) (hname : entry.name = memoName row.uid)
    {message : Api.Memo} (hget : getMemo services db userID (memoName row.uid) = .ok message) :
    message.Agrees entry ↔ (db.attachments.filter (·.memoId = some row.id)).length ≤ 100 := by
  obtain ⟨memos, users, relationMap, hrows, hmemo, husers, hrelations, hentry⟩ :=
    listMemos_entry hkeys hlist hrow hentry hname
  obtain ⟨relationMap', hrelations', hmessage⟩ := getMemo_message hkeys hrow htop hget
  have hnames : memoName row.uid ∈ memos.map fun m => memoName m.uid :=
    List.mem_map.mpr ⟨_, hmemo, rfl⟩
  have hids : row.id ∈ memos.map (·.id) := List.mem_map.mpr ⟨_, hmemo, rfl⟩
  have hsingle : FromRows db [row.withParent none] := by
    intro m hm
    rw [List.mem_singleton.mp hm]
    exact ⟨row, hrow, rfl, rfl⟩
  obtain ⟨user, huser⟩ := fetchCurrentUser_of_batch (List.ne_nil_of_mem hmemo) hrelations
  have hperm := batchConvertMemoRelations_spec hkeys hrows hrelations huser hmemo
  have hperm' := batchConvertMemoRelations_spec hkeys hsingle hrelations' huser
    (List.mem_singleton_self _)
  rw [convertMemo_agrees_iff hmessage hentry (listUsersByID_sound _) husers
    (reactions_perm hnames) (hperm'.trans hperm.symm)]
  exact attachments_perm_iff hids

section album

def albumMemo : MemoRecord :=
  ⟨1, "album", 1, 0, 0, .normal, "", .Public, false, ⟨none, none, []⟩⟩

def album (n : Nat) : Database where
  users := [⟨1, .normal, "ada", .USER⟩]
  memos := [albumMemo]
  relations := []
  attachments := (List.range n).map fun i =>
    ⟨i + 1, "a" ++ toString i, 1, "photo.jpg", "image/jpeg", 0, i, i, some 1, .LOCAL, "", none⟩
  reactions := []

def albumServices : Services where
  compileFilter := fun _ => .ok fun _ => true
  generateSnippet := fun content => .ok content

def albumRequest : ListMemosRequest := ⟨10, none, .normal, "", ""⟩

theorem album_keys (n : Nat) : (album n).Keys where
  userIds := List.nodup_singleton _
  memoIds := List.nodup_singleton _
  memoUids := List.nodup_singleton _
  relations := List.nodup_nil

theorem album_topLevel (n : Nat) : TopLevel (album n) albumMemo := by
  intro parent hparent
  exact List.mem_singleton.mp hparent

theorem album_count (n : Nat) : ((album n).attachments.filter (·.memoId = some 1)).length = n := by
  simp [album, List.filter_map, Function.comp_def]

theorem album_memos (n : Nat) (find : FindMemo) (h : find.matchesRow albumMemo = true) :
    (album n).listMemos find =
      (page find.limit find.offset [albumMemo.withParent none]).map find.selected := by
  have hparent : find.matchesParent none = true := by simp [FindMemo.matchesParent]
  simp [Database.listMemos, album, Database.parents, h, hparent]

theorem album_reactions (n : Nat) (find : FindReaction) : (album n).listReactions find = [] := by
  simp [Database.listReactions, album]

theorem album_relations (n : Nat) (snippets : Bool) :
    ∃ relationMap, batchConvertMemoRelations (album n) albumServices.generateSnippet 0
      [albumMemo.withParent none] snippets = .ok relationMap := by
  cases snippets with
  | false => exact ⟨_, rfl⟩
  | true =>
    have hmerged : mergeMemoRelations
        [(album n).listMemoRelations
            { sourceMemoIdList := [1], memoFilter := some (relationFilter none) },
          (album n).listMemoRelations
            { relatedMemoIdList := [1], memoFilter := some (relationFilter none) }] = [] := by
      simp [Database.listMemoRelations, album, mergeMemoRelations]
    have hextra : extraMemos (album n) [albumMemo.withParent none] [] true = [] := rfl
    have hids : [albumMemo.withParent none].map (·.id) = [1] := rfl
    rw [batchConvertMemoRelations, if_neg (List.cons_ne_nil _ _)]
    simp only [fetchCurrentUser, if_true, Except.mapError, hids, hmerged, hextra, bind, Except.bind]
    exact ⟨_, rfl⟩

theorem album_getMemo (n : Nat) : ∃ message : Api.Memo,
    getMemo albumServices (album n) 0 (memoName "album") = .ok message := by
  have huid : extractMemoUIDFromName (memoName "album") = .ok "album" := by decide
  have hmemo : (album n).getMemo { uid := some "album" } = some (albumMemo.withParent none) := by
    rw [Database.getMemo, album_memos n _ (by decide)]
    rfl
  obtain ⟨relationMap, hrelations⟩ := album_relations n true
  rw [getMemo, huid]
  simp only [Except.mapError, bind, Except.bind, hmemo, loadMemoRelations, hrelations]
  exact ⟨_, rfl⟩

theorem album_listMemos (n : Nat) : ∃ (response : ListMemosResponse) (entry : Api.Memo),
    listMemos albumServices (album n) 0 albumRequest = .ok response ∧ entry ∈ response.memos ∧
      entry.name = memoName "album" := by
  obtain ⟨relationMap, hrelations⟩ := album_relations n false
  have hconvert : ∃ entry : Api.Memo, convertMemos albumServices (album n) 0
      [albumMemo.withParent none] = .ok [entry] ∧ entry.name = memoName "album" := by
    simp only [convertMemos, hrelations, album_reactions, Except.mapError, bind, Except.bind]
    exact ⟨_, rfl, rfl⟩
  obtain ⟨entry, hentry, hname⟩ := hconvert
  refine ⟨⟨[entry], none⟩, entry, ?_, List.mem_singleton_self _, hname⟩
  show listPage albumServices (album n) 0 _ 10 0 = _
  rw [listPage, album_memos n _ (by decide)]
  show (convertMemos albumServices (album n) 0 [albumMemo.withParent none]).map _ = _
  rw [hentry]
  rfl

/-- With three attachments the two readings agree. -/
theorem getMemo_agrees_three : ∃ (response : ListMemosResponse) (entry message : Api.Memo),
    listMemos albumServices (album 3) 0 albumRequest = .ok response ∧ entry ∈ response.memos ∧
      getMemo albumServices (album 3) 0 (memoName "album") = .ok message ∧
      message.Agrees entry := by
  obtain ⟨response, entry, hlist, hentry, hname⟩ := album_listMemos 3
  obtain ⟨message, hget⟩ := album_getMemo 3
  refine ⟨response, entry, message, hlist, hentry, hget, ?_⟩
  have hiff := getMemo_agrees_iff (album_keys 3) hlist (List.mem_singleton_self albumMemo)
    (album_topLevel 3) hentry hname hget
  exact hiff.mpr (by decide)

/-- Of a hundred and one attachments a single read lists a hundred. -/
theorem getMemo_differs : ∃ (response : ListMemosResponse) (entry message : Api.Memo),
    (album 101).Keys ∧ TopLevel (album 101) albumMemo ∧
      listMemos albumServices (album 101) 0 albumRequest = .ok response ∧
      entry ∈ response.memos ∧ entry.name = memoName albumMemo.uid ∧
      getMemo albumServices (album 101) 0 (memoName albumMemo.uid) = .ok message ∧
      message.attachments.length = 100 ∧ entry.attachments.length = 101 ∧
      ¬message.Agrees entry := by
  obtain ⟨response, entry, hlist, hentry, hname⟩ := album_listMemos 101
  obtain ⟨message, hget⟩ := album_getMemo 101
  have hsingle : message.attachments.length = 100 := by
    obtain ⟨_, -, hmessage⟩ := getMemo_message (album_keys 101)
      (List.mem_singleton_self albumMemo) (album_topLevel 101) hget
    obtain ⟨_, _, -, -, rfl⟩ := convertMemo_ok hmessage
    show (((album 101).listAttachments { memoId := some 1 }).map _).length = 100
    rw [List.length_map, attachments_single, List.length_take,
      (List.mergeSort_perm _ _).length_eq, album_count]
    rfl
  have hlisting : entry.attachments.length = 101 := by
    obtain ⟨memos, _, _, -, hmemo, -, -, hmessage⟩ := listMemos_entry (album_keys 101) hlist
      (List.mem_singleton_self albumMemo) hentry hname
    obtain ⟨_, _, -, -, rfl⟩ := convertMemo_ok hmessage
    have hid : albumMemo.id ∈ memos.map (·.id) := List.mem_map.mpr ⟨_, hmemo, rfl⟩
    rw [List.length_map, (attachments_listing _ hid).length_eq]
    exact album_count 101
  refine ⟨response, entry, message, album_keys 101, album_topLevel 101, hlist, hentry, hname, hget,
    hsingle, hlisting, ?_⟩
  intro hagrees
  have hlength := hagrees.attachments.length_eq
  omega

end album

end requests

end Memoark.Server
