import Memoark.Server.ListPages

/-! The order of the memos that `ListMemos` returns, by the fields that its request names. -/
namespace Memoark.Server
open Store

section orders

inductive OrderKey where
  | pinned | create_time | update_time | name
  deriving DecidableEq

structure OrderField where
  key : OrderKey
  asc : Bool
  deriving DecidableEq

def OrderKey.ofText (text : List Char) : Option OrderKey :=
  if text = "pinned".toList then some .pinned
  else if text = "create_time".toList then some .create_time
  else if text = "name".toList then some .name
  else if text = "update_time".toList then some .update_time
  else none

def writtenField (field : List Char) : Option OrderField :=
  match goFields field with
  | [] => none
  | fieldName :: rest =>
    (OrderKey.ofText fieldName).map fun key => ⟨key, (orderDirection rest).toOption = some "asc"⟩

/-- The fields of an order in the order written, each in the direction written; without one, the
greatest comes first. -/
def writtenFields (orderBy : String) : List OrderField :=
  (orderBy.toList.splitOn ',').filterMap writtenField

structure Sortable where
  name : String
  pinned : Bool
  createTime : Int
  updateTime : Int

def sortable (message : Api.Memo) : Sortable :=
  ⟨message.name, message.pinned, message.createTime.seconds, message.updateTime.seconds⟩

def OrderKey.compare (a b : Sortable) : OrderKey → Ordering
  | .pinned => Ord.compare a.pinned b.pinned
  | .create_time => Ord.compare a.createTime b.createTime
  | .update_time => Ord.compare a.updateTime b.updateTime
  | .name => Ord.compare a.name b.name

def OrderField.compare (field : OrderField) (a b : Sortable) : Ordering :=
  if field.asc then field.key.compare a b else (field.key.compare a b).swap

/-- One may stand before the other: the first field in which they differ says so. -/
def Lexicographic : List OrderField → Sortable → Sortable → Prop
  | [], _, _ => True
  | field :: fields, a, b =>
    field.compare a b = .lt ∨ field.compare a b = .eq ∧ Lexicographic fields a b

def SortedBy (fields : List OrderField) (memos : List Api.Memo) : Prop :=
  memos.Pairwise fun a b => Lexicographic fields (sortable a) (sortable b)

def timeField (fields : List OrderField) : Option OrderField := fields.find? (·.key ≠ .pinned)

def OrderField.time (field : OrderField) : OrderField :=
  { field with key := if field.key = .update_time then .update_time else .create_time }

/-- The fields that a listing is sorted by: pinned memos first if they are named at all, then the
first time that is named. -/
def effectiveFields (fields : List OrderField) : List OrderField :=
  (if fields.any (·.key = .pinned) then [⟨.pinned, false⟩] else []) ++
    [((timeField fields).map OrderField.time).getD ⟨.create_time, false⟩]

end orders

section parsing

variable {find find' : FindMemo} {flags flags' : OrderFlags} {field : List Char}
  {fields : List (List Char)} {written : List OrderField}

structure Follows (written : List OrderField) (find : FindMemo) (flags : OrderFlags) : Prop where
  hasPinned : flags.hasPinned = written.any (·.key = .pinned)
  hasTime : flags.hasExplicitTimeField = (timeField written).isSome
  pinned : find.orderByPinned = written.any (·.key = .pinned)
  updated : find.orderByUpdatedTs = (timeField written).any (·.key = .update_time)
  asc : find.orderByTimeAsc = (timeField written).any (·.asc)

theorem timeField_append (written : List OrderField) (field : OrderField) :
    timeField (written ++ [field]) =
      (timeField written).or (if field.key ≠ .pinned then some field else none) := by
  unfold timeField
  rw [List.find?_append, List.find?_singleton]
  simp only [decide_eq_true_eq]

theorem orderDirection_asc {rest : List (List Char)} {direction : String}
    (h : orderDirection rest = .ok direction) :
    decide ((orderDirection rest).toOption = some "asc") = decide (direction = "asc") := by
  rw [h]
  simp [Except.toOption]

theorem Follows.pin (h : Follows written find flags) (asc : Bool) :
    Follows (written ++ [⟨.pinned, asc⟩]) { find with orderByPinned := true }
      { flags with hasPinned := true } := by
  have htime : timeField (written ++ [⟨.pinned, asc⟩]) = timeField written := by
    rw [timeField_append]
    simp
  constructor
  · simp
  · rw [htime]
    exact h.hasTime
  · simp
  · rw [htime]
    exact h.updated
  · rw [htime]
    exact h.asc

theorem Follows.skip (h : Follows written find flags) (hseen : flags.hasExplicitTimeField = true)
    {next : OrderField} (hkey : next.key ≠ .pinned) :
    Follows (written ++ [next]) find { flags with hasExplicitTimeField := true } := by
  have hsome : (timeField written).isSome = true := h.hasTime.symm.trans hseen
  have htime : timeField (written ++ [next]) = timeField written := by
    rw [timeField_append]
    cases hfirst : timeField written with
    | none =>
      rw [hfirst] at hsome
      cases hsome
    | some first => rfl
  have hpinned : (written ++ [next]).any (·.key = .pinned) = written.any (·.key = .pinned) := by
    simp [hkey]
  constructor
  · rw [hpinned]
    exact h.hasPinned
  · rw [htime]
    exact hsome.symm
  · rw [hpinned]
    exact h.pinned
  · rw [htime]
    exact h.updated
  · rw [htime]
    exact h.asc

theorem Follows.set (h : Follows written find flags) (hnew : flags.hasExplicitTimeField = false)
    {next : OrderField} (hkey : next.key ≠ .pinned)
    (hupdated : find'.orderByUpdatedTs = decide (next.key = .update_time))
    (hasc : find'.orderByTimeAsc = next.asc) (hpinned : find'.orderByPinned = find.orderByPinned) :
    Follows (written ++ [next]) find' { flags with hasExplicitTimeField := true } := by
  have hnone : timeField written = none := by
    rw [← Option.isNone_iff_eq_none, ← Option.not_isSome, ← h.hasTime, hnew]
    rfl
  have htime : timeField (written ++ [next]) = some next := by
    rw [timeField_append, hnone, if_pos hkey]
    rfl
  have hany : (written ++ [next]).any (·.key = .pinned) = written.any (·.key = .pinned) := by
    simp [hkey]
  constructor
  · rw [hany]
    exact h.hasPinned
  · rw [htime]
    rfl
  · rw [hany, hpinned]
    exact h.pinned
  · rw [htime]
    exact hupdated
  · rw [htime]
    exact hasc

theorem Follows.unset (h : Follows written find flags) (hnew : flags.hasExplicitTimeField = false) :
    find.orderByUpdatedTs = false := by
  have hnone : timeField written = none := by
    rw [← Option.isNone_iff_eq_none, ← Option.not_isSome, ← h.hasTime, hnew]
    rfl
  rw [h.updated, hnone]
  rfl

theorem Follows.orderField (h : Follows written find flags)
    (hfield : orderField field find flags = .ok (find', flags')) :
    Follows (written ++ (writtenField field).toList) find' flags' := by
  unfold Server.orderField at hfield
  unfold writtenField
  cases hwords : goFields field with
  | nil =>
    rw [hwords] at hfield
    obtain ⟨rfl, rfl⟩ := Prod.mk.inj (Except.ok.inj hfield)
    simpa using h
  | cons fieldName rest =>
    rw [hwords] at hfield
    obtain ⟨direction, hdirection, hfield⟩ := Program.bind_ok hfield
    simp only [orderDirection_asc hdirection]
    unfold OrderKey.ofText
    by_cases hpinned : fieldName = "pinned".toList
    · rw [if_pos hpinned] at hfield ⊢
      obtain ⟨rfl, rfl⟩ := Prod.mk.inj (Except.ok.inj hfield)
      exact h.pin _
    rw [if_neg hpinned] at hfield ⊢
    by_cases hcreate : fieldName = "create_time".toList ∨ fieldName = "name".toList
    · rw [if_pos hcreate] at hfield
      obtain ⟨rfl, rfl⟩ := Prod.mk.inj (Except.ok.inj hfield)
      have hkey : ∃ key, (if fieldName = "create_time".toList then some OrderKey.create_time
          else if fieldName = "name".toList then some .name
          else if fieldName = "update_time".toList then some .update_time else none) = some key ∧
            key ≠ .pinned ∧ key ≠ .update_time := by
        by_cases hfirst : fieldName = "create_time".toList
        · exact ⟨.create_time, if_pos hfirst, by decide, by decide⟩
        · rw [if_neg hfirst, if_pos (hcreate.resolve_left hfirst)]
          exact ⟨.name, rfl, by decide, by decide⟩
      obtain ⟨key, hsome, hne, hnotUpdate⟩ := hkey
      rw [hsome]
      cases hseen : flags.hasExplicitTimeField with
      | true => exact h.skip hseen hne
      | false =>
        refine h.set hseen hne ?_ rfl rfl
        rw [decide_eq_false hnotUpdate]
        exact h.unset hseen
    obtain ⟨hcreateTime, hname⟩ := not_or.mp hcreate
    rw [if_neg hcreate] at hfield
    rw [if_neg hcreateTime, if_neg hname]
    by_cases hupdate : fieldName = "update_time".toList
    · rw [if_pos hupdate] at hfield ⊢
      obtain ⟨rfl, rfl⟩ := Prod.mk.inj (Except.ok.inj hfield)
      have hne : OrderKey.update_time ≠ .pinned := by decide
      cases hseen : flags.hasExplicitTimeField with
      | true => exact h.skip hseen hne
      | false => exact h.set hseen hne rfl rfl rfl
    · rw [if_neg hupdate] at hfield
      cases hfield

theorem Follows.orderFields (h : Follows written find flags)
    (hfields : orderFields fields find flags = .ok (find', flags')) :
    Follows (written ++ fields.filterMap writtenField) find' flags' := by
  induction fields generalizing written find flags with
  | nil =>
    obtain ⟨rfl, rfl⟩ := Prod.mk.inj (Except.ok.inj hfields)
    rw [List.filterMap_nil, List.append_nil]
    exact h
  | cons field fields ih =>
    obtain ⟨⟨find₁, flags₁⟩, hfield, hrest⟩ := Program.bind_ok hfields
    have hdone := ih (h.orderField hfield) hrest
    rw [List.append_assoc] at hdone
    cases hwritten : writtenField field with
    | none =>
      rw [hwritten] at hdone
      rw [List.filterMap_cons_none hwritten]
      exact hdone
    | some next =>
      rw [hwritten] at hdone
      rw [List.filterMap_cons_some hwritten]
      exact hdone

theorem Follows.start (hpinned : find.orderByPinned = false) (hupdated : find.orderByUpdatedTs = false)
    (hasc : find.orderByTimeAsc = false) : Follows [] find ⟨false, false⟩ :=
  ⟨rfl, rfl, hpinned, hupdated, hasc⟩

theorem parseMemoOrderBy_follows {orderBy : String} (hstart : Follows [] find ⟨false, false⟩)
    (h : parseMemoOrderBy orderBy find = .ok find') :
    ∃ flags, Follows (writtenFields orderBy) find' flags := by
  unfold parseMemoOrderBy at h
  split at h
  · cases h
  · obtain ⟨⟨read, flags⟩, hfields, h⟩ := Program.bind_ok h
    have hread : Follows (writtenFields orderBy) read flags := hstart.orderFields hfields
    dsimp only at h
    split at h
    · -- A single `pinned` names no time, so the direction is not changed here.
      rename_i honly
      obtain ⟨hpinned, -, hlength⟩ := honly
      obtain rfl := Except.ok.inj h
      have hnone : timeField (writtenFields orderBy) = none := by
        obtain ⟨field, hfield⟩ := List.length_eq_one_iff.mp hlength
        have hany := hread.hasPinned
        rw [hpinned] at hany
        unfold writtenFields at hany ⊢
        rw [hfield] at hany ⊢
        cases hwritten : writtenField field with
        | none =>
          rw [List.filterMap_cons_none hwritten] at hany
          cases hany
        | some next =>
          rw [List.filterMap_cons_some hwritten, List.filterMap_nil] at hany ⊢
          have hkey : next.key = .pinned := by simpa using hany.symm
          unfold timeField
          rw [List.find?_singleton, if_neg (by simpa using hkey)]
      have hasc := hread.asc
      rw [hnone] at hasc
      refine ⟨flags, hread.hasPinned, hread.hasTime, hread.pinned, hread.updated, ?_⟩
      rw [hnone]
      rfl
    · obtain rfl := Except.ok.inj h
      exact ⟨flags, hread⟩

theorem orderStep_follows {request : ListMemosRequest} (hstart : Follows [] find ⟨false, false⟩)
    (h : orderStep request find = .ok find') :
    ∃ flags, Follows (writtenFields request.orderBy) find' flags := by
  unfold orderStep at h
  split at h
  · exact parseMemoOrderBy_follows hstart (Program.mapError_ok h)
  · rename_i hempty
    obtain rfl := Except.ok.inj h
    rw [not_not.mp hempty]
    exact ⟨_, hstart.hasPinned, hstart.hasTime, hstart.pinned, hstart.updated, rfl⟩

end parsing

section sorting

variable {services : Services} {db : Database} {userID : Nat} {find : FindMemo} {flags : OrderFlags}
  {written : List OrderField} {a b : Memo}

def listedSortable (memo : Memo) : Sortable :=
  ⟨memoName memo.uid, memo.pinned, memo.createdTs, memo.updatedTs⟩

theorem shows_sortable (services : Services) (db : Database) :
    Shows services db sortable listedSortable := by
  intro memo reactions attachments relations users message h
  rcases convertMemo_cases services db memo reactions attachments relations users with
    ⟨-, herror⟩ | ⟨-, ⟨err, herror⟩ | ⟨message', hok, hname, hpinned, hcreate, hupdate⟩⟩
  · rw [h] at herror
    cases herror
  · rw [h] at herror
    cases herror
  · rw [h] at hok
    obtain rfl := Except.ok.inj hok
    unfold sortable listedSortable
    rw [hname, hpinned, hcreate, hupdate]
    rfl

theorem compare_times {asc : Bool} {x y : Int} (h : x ≠ y → if asc then x < y else y < x) :
    (if asc then compare x y else (compare x y).swap) = .lt ∨
      (if asc then compare x y else (compare x y).swap) = .eq := by
  have hcompare : compare x y = if x < y then .lt else if x = y then .eq else .gt := rfl
  rw [hcompare]
  by_cases heq : x = y
  · have hnot : ¬x < y := by omega
    right
    rw [if_neg hnot, if_pos heq]
    split
    · rfl
    · rfl
  · left
    have hlt := h heq
    cases asc with
    | true =>
      rw [if_pos rfl] at hlt
      rw [if_pos rfl, if_pos hlt]
    | false =>
      have hgt : y < x := hlt
      have hnot : ¬x < y := by omega
      rw [if_neg Bool.false_ne_true, if_neg hnot, if_neg heq]
      rfl

theorem Follows.lexicographic (h : Follows written find flags) (hle : find.le a b = true) :
    Lexicographic (effectiveFields written) (listedSortable a) (listedSortable b) := by
  have htime : (find.orderByPinned = true → a.pinned = b.pinned) →
      Lexicographic [((timeField written).map OrderField.time).getD ⟨.create_time, false⟩]
        (listedSortable a) (listedSortable b) := by
    intro hsame
    have hstep : ¬(find.orderByPinned = true ∧ a.pinned ≠ b.pinned) := by
      intro hboth
      exact hboth.2 (hsame hboth.1)
    unfold FindMemo.le at hle
    rw [if_neg hstep, h.updated, h.asc] at hle
    have hlast : ∀ (asc : Bool) (x y : Int),
        (if x ≠ y then if asc then decide (x < y) else decide (y < x)
          else decide (b.id ≤ a.id)) = true →
        x ≠ y → if asc then x < y else y < x := by
      intro asc x y hxy hne
      rw [if_pos hne] at hxy
      cases asc with
      | true => exact of_decide_eq_true hxy
      | false => exact of_decide_eq_true hxy
    cases hfirst : timeField written with
    | none =>
      rw [hfirst] at hle
      have hcompare := compare_times (hlast false a.createdTs b.createdTs hle)
      exact hcompare.imp id fun heq => ⟨heq, trivial⟩
    | some first =>
      rw [hfirst] at hle
      rw [Option.map_some, Option.getD_some]
      simp only [Option.any_some] at hle
      by_cases hkey : first.key = .update_time
      · have hfield : first.time = ⟨.update_time, first.asc⟩ := by
          unfold OrderField.time
          rw [if_pos hkey]
        simp only [decide_eq_true hkey, if_true] at hle
        have hcompare := compare_times (hlast first.asc a.updatedTs b.updatedTs hle)
        rw [hfield]
        exact hcompare.imp id fun heq => ⟨heq, trivial⟩
      · have hfield : first.time = ⟨.create_time, first.asc⟩ := by
          unfold OrderField.time
          rw [if_neg hkey]
        simp only [decide_eq_false hkey, Bool.false_eq_true, if_false] at hle
        have hcompare := compare_times (hlast first.asc a.createdTs b.createdTs hle)
        rw [hfield]
        exact hcompare.imp id fun heq => ⟨heq, trivial⟩
  unfold effectiveFields
  rw [← h.pinned]
  cases hpinned : find.orderByPinned with
  | false => exact htime fun hfalse => absurd (hpinned.symm.trans hfalse) Bool.false_ne_true
  | true =>
    by_cases hsame : a.pinned = b.pinned
    · right
      refine ⟨?_, htime fun _ => hsame⟩
      show (Ord.compare a.pinned b.pinned).swap = .eq
      rw [hsame]
      cases b.pinned with
      | false => rfl
      | true => rfl
    · left
      unfold FindMemo.le at hle
      rw [if_pos ⟨hpinned, hsame⟩] at hle
      show (Ord.compare a.pinned b.pinned).swap = .lt
      have hlast : b.pinned = false := by
        cases hb : b.pinned with
        | false => rfl
        | true => exact absurd (hle.trans hb.symm) hsame
      rw [hle, hlast]
      rfl

theorem visibilityStep_follows (h : Follows written find flags) (user : Option UserRecord) :
    Follows written (visibilityStep user find) flags := by
  unfold visibilityStep
  cases user with
  | none => exact ⟨h.hasPinned, h.hasTime, h.pinned, h.updated, h.asc⟩
  | some user =>
    dsimp only
    split
    · exact ⟨h.hasPinned, h.hasTime, h.pinned, h.updated, h.asc⟩
    · split
      · exact ⟨h.hasPinned, h.hasTime, h.pinned, h.updated, h.asc⟩
      · exact h

theorem findMemos_follows {request : ListMemosRequest}
    (h : findMemos services db userID request = .ok (some find)) :
    ∃ flags, Follows (writtenFields request.orderBy) find flags := by
  unfold findMemos at h
  obtain ⟨user, -, h⟩ := Program.bind_ok h
  dsimp only at h
  split at h
  · cases h
  · obtain ⟨ordered, hordered, h⟩ := Program.bind_ok h
    obtain ⟨filters, -, h⟩ := Program.bind_ok h
    obtain rfl := Option.some.inj (Except.ok.inj h)
    obtain ⟨flags, hfollows⟩ := orderStep_follows (.start rfl rfl rfl) hordered
    have hfiltered : Follows (writtenFields request.orderBy) { ordered with filters } flags :=
      ⟨hfollows.hasPinned, hfollows.hasTime, hfollows.pinned, hfollows.updated, hfollows.asc⟩
    exact ⟨flags, visibilityStep_follows hfiltered user⟩

theorem Follows.listPage_sorted (h : Follows written find flags) {limit offset : Nat}
    {response : ListMemosResponse}
    (hpage : listPage services db userID find limit offset = .ok response) :
    SortedBy (effectiveFields written) response.memos := by
  obtain ⟨hshown, -⟩ := listPage_map (shows_sortable services db) hpage
  have hsorted := (Database.answers_listMemos db find).sorted
  have hpart : ((((db.listMemos find.unlimited).drop offset).take limit).filter
      (hasCreator db)).Pairwise (find.le · ·) :=
    hsorted.sublist (List.filter_sublist.trans ((List.take_sublist _ _).trans (List.drop_sublist _ _)))
  have hlisted : ((((db.listMemos find.unlimited).drop offset).take limit).filter
      (hasCreator db)).map listedSortable |>.Pairwise (Lexicographic (effectiveFields written)) :=
    List.pairwise_map.mpr (hpart.imp fun hle => h.lexicographic hle)
  rw [← hshown] at hlisted
  exact List.pairwise_map.mp hlisted

/-- The memos that a request lists are sorted by the fields that it names: pinned memos first if
they are named at all, and then by the first time. -/
theorem listMemos_sorted {request : ListMemosRequest} {response : ListMemosResponse}
    (h : listMemos services db userID request = .ok response) :
    SortedBy (effectiveFields (writtenFields request.orderBy)) response.memos := by
  unfold listMemos at h
  obtain ⟨found, hfound, h⟩ := Program.bind_ok h
  cases found with
  | none =>
    obtain rfl := Except.ok.inj h
    exact List.Pairwise.nil
  | some find =>
    obtain ⟨⟨limit, offset⟩, -, h⟩ := Program.bind_ok h
    obtain ⟨flags, hfollows⟩ := findMemos_follows hfound
    exact hfollows.listPage_sorted h

example : effectiveFields (writtenFields "pinned desc, create_time desc") =
    writtenFields "pinned desc, create_time desc" := by decide +kernel

end sorting

section board

def board : Database := { album 0 with
  memos := [{ albumMemo with pinned := true },
    { albumMemo with id := 2, uid := "note", createdTs := 1 }] }

def unpinnedFirst : ListMemosRequest := ⟨10, none, .normal, "pinned asc", ""⟩

def boardFind : FindMemo where
  excludeComments := true
  rowStatus := some .normal
  visibilityList := [.Public]
  orderByPinned := true

theorem findMemos_board : findMemos albumServices board 0 unpinnedFirst = .ok (some boardFind) := rfl

theorem listMemos_board :
    board.listMemos boardFind.unlimited = board.memos.map (·.withParent none) := by
  have hanswers : board.Answers boardFind (board.memos.map (·.withParent none)) :=
    ⟨List.Perm.refl _, by decide⟩
  have hids : (board.memos.map (·.id)).Nodup := by decide
  have hparents : ((board.relations.filter (·.type = .COMMENT)).map (·.memoId)).Nodup :=
    List.nodup_nil
  exact (Database.answers_listMemos board boardFind).eq hids hparents hanswers

theorem exists_board : ∃ response, listMemos albumServices board 0 unpinnedFirst = .ok response ∧
    response.memos.map sortable = board.memos.map fun row => listedSortable (row.withParent none) := by
  have hsnippet : ∀ content, ∃ snippet, albumServices.generateSnippet content = .ok snippet :=
    fun content => ⟨content, rfl⟩
  obtain ⟨response, hpage⟩ := exists_listPage hsnippet
    (show fetchCurrentUser board 0 = .ok none from rfl) boardFind 10 0
  have hrun : listMemos albumServices board 0 unpinnedFirst = .ok response := by
    unfold listMemos
    rw [findMemos_board]
    exact hpage
  obtain ⟨hshown, -⟩ := listPage_map (shows_sortable albumServices board) hpage
  rw [listMemos_board] at hshown
  exact ⟨response, hrun, hshown⟩

theorem listMemos_sorted_board : ∃ response,
    listMemos albumServices board 0 unpinnedFirst = .ok response ∧
      SortedBy (effectiveFields (writtenFields "pinned asc")) response.memos := by
  obtain ⟨response, hrun, -⟩ := exists_board
  have hsorted := listMemos_sorted hrun
  have horder : unpinnedFirst.orderBy = "pinned asc" := rfl
  rw [horder] at hsorted
  exact ⟨response, hrun, hsorted⟩

/-- The pinned memo comes first although the other direction is written. -/
theorem pinned_first : ∃ response, listMemos albumServices board 0 unpinnedFirst = .ok response ∧
    ¬SortedBy (writtenFields "pinned asc") response.memos := by
  obtain ⟨response, hrun, hshown⟩ := exists_board
  refine ⟨response, hrun, fun hsorted => ?_⟩
  have hwritten : writtenFields "pinned asc" = [⟨.pinned, true⟩] := by decide
  have hpairs : (response.memos.map sortable).Pairwise (Lexicographic [⟨.pinned, true⟩]) :=
    List.pairwise_map.mpr (hwritten ▸ hsorted)
  rw [hshown] at hpairs
  have hpair := (List.pairwise_cons.mp hpairs).1 _ List.mem_cons_self
  rcases hpair with hlt | ⟨heq, -⟩
  · exact absurd hlt (by decide)
  · exact absurd heq (by decide)

end board

end Memoark.Server
