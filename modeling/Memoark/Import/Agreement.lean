import Memoark.Import.Accounting
import Memoark.Import.Service

/-! Preview and commit of an import agree unless a record stands in the Unix second 0, which the
parser reads and the store takes for a missing time. -/
namespace Memoark.Import
open Store Server

structure Restored (userId : Nat) (record : Record) (memo : Memo) : Prop where
  creator : memo.creatorId = userId
  state : memo.rowStatus = if record.state = "NORMAL" then .normal else .archived
  content : memo.content = record.content
  visibility : memo.visibility = memoImportVisibility record.visibility
  pinned : memo.pinned = record.pinned
  createTime : memo.createdTs = record.createTime.unix
  updateTime : memo.updatedTs = record.updateTime.unix

inductive RestoredAll (userId : Nat) : List Record → List Memo → Prop
  | nil : RestoredAll userId [] []
  | cons {record : Record} {memo : Memo} {records : List Record} {memos : List Memo} :
    Restored userId record memo → RestoredAll userId records memos →
      RestoredAll userId (record :: records) (memo :: memos)

/-- What follows a preview when nothing changes before the import. -/
def Agrees (extractAll : ExtractAll) (uids : Nat → String) (db : Database)
    (session : Option Nat) (data : ByteArray) : Prop :=
  match previewMemoImport db session data with
  | .error _ => True
  | .ok preview =>
    if preview.canImport then
      ∃ userId result db' restored,
        session = some userId ∧
        importMemoExport extractAll uids db session data = (.ok result, db') ∧
        db'.memos = db.memos ++ restored ∧
        RestoredAll userId (parse data db.contentLengthLimit).records restored ∧
        (restored.countP (fun memo => memo.rowStatus = .normal) : Int) = preview.normal ∧
        (restored.countP (fun memo => memo.rowStatus = .archived) : Int) = preview.archived
    else ∃ e, importMemoExport extractAll uids db session data = (.error e, db)

/-- A time in the second that the store takes for a missing time. -/
def AtEpoch (record : Record) : Prop := record.createTime.unix = 0 ∨ record.updateTime.unix = 0

/-- The first `n` ids that `shortuuid.New` generates are valid, new and different. -/
structure Fresh (uids : Nat → String) (db : Database) (n : Nat) : Prop where
  valid : ∀ i < n, uidMatches (uids i).toList
  new : ∀ i < n, ∀ memo ∈ db.memos, memo.uid ≠ uids i
  different : ∀ i < n, ∀ j < n, uids i = uids j → i = j

theorem createMemos_ok {extractAll : ExtractAll} (hx : ∀ content, (extractAll content).isSome)
    (userId : Nat) (uids : Nat → String) (i : Nat) (records : List Record) :
    ∃ memos, createMemos extractAll userId uids i records = .ok memos := by
  induction records generalizing i with
  | nil => exact ⟨[], rfl⟩
  | cons record records ih =>
    obtain ⟨memos, hmemos⟩ := ih (i + 1)
    obtain ⟨data, hdata⟩ := Option.isSome_iff_exists.mp
      (hx (recordMemo userId (uids i) record).content)
    simp only [createMemos, rebuildMemoPayload, hdata, Option.map_some, hmemos]
    exact ⟨_, rfl⟩

inductive Created (userId : Nat) (uids : Nat → String) : Nat → List Record → List Memo → Prop
  | nil {i : Nat} : Created userId uids i [] []
  | cons {i : Nat} {record : Record} {payload : MemoPayload} {records : List Record}
    {memos : List Memo} : Created userId uids (i + 1) records memos →
      Created userId uids i (record :: records)
        ({ recordMemo userId (uids i) record with payload } :: memos)

theorem createMemos_created {extractAll : ExtractAll} {userId : Nat} {uids : Nat → String}
    {i : Nat} {records : List Record} {memos : List Memo}
    (h : createMemos extractAll userId uids i records = .ok memos) :
    Created userId uids i records memos := by
  induction records generalizing i memos with
  | nil =>
    cases h
    exact .nil
  | cons record records ih =>
    simp only [createMemos] at h
    split at h
    · cases h
    · rename_i memo hmemo
      obtain ⟨data, _, rfl⟩ := Option.map_eq_some_iff.mp hmemo
      cases hrest : createMemos extractAll userId uids (i + 1) records with
      | error e =>
        rw [hrest] at h
        cases h
      | ok rest =>
        rw [hrest] at h
        cases h
        exact .cons (ih hrest)

theorem checkAllImported_created {userId i n : Nat} {uids : Nat → String} {records : List Record}
    {memos : List Memo} (h : Created userId uids i records memos)
    (hvalid : ∀ i < n, uidMatches (uids i).toList) (hn : i + records.length ≤ n) (index : Nat) :
    checkAllImported userId index memos = .ok () ↔ ∀ record ∈ records, ¬AtEpoch record := by
  induction h generalizing index with
  | nil => simp [checkAllImported]
  | @cons i record payload records memos _ ih =>
    rw [List.length_cons] at hn
    have hcheck : checkImported userId index { recordMemo userId (uids i) record with payload } =
        if record.createTime.unix = 0 || record.updateTime.unix = 0 then
          .error (.other s!"memo {index} has invalid timestamps") else .ok () := by
      have hcreator : ¬userId ≠ userId := fun hne => hne rfl
      have huid : ¬(!uidMatches (uids i).toList) = true := by
        rw [hvalid i (by omega)]
        exact nofun
      exact (if_neg hcreator).trans (if_neg huid)
    by_cases hepoch : record.createTime.unix = 0 || record.updateTime.unix = 0
    · have hat : AtEpoch record := by simpa [AtEpoch] using hepoch
      rw [if_pos hepoch] at hcheck
      simp only [checkAllImported, hcheck]
      constructor
      · exact nofun
      · intro hall
        exact absurd hat (hall record (.head _))
    · have hnot : ¬AtEpoch record := by simpa [AtEpoch] using hepoch
      rw [if_neg hepoch] at hcheck
      simp only [checkAllImported, hcheck, ih (by omega) (index + 1), List.forall_mem_cons]
      exact ⟨fun hrest => ⟨hnot, hrest⟩, fun hall => hall.2⟩

theorem restored_recordMemo (userId : Nat) (uid : String) {record : Record} (h : record.Allowed)
    (payload : MemoPayload) (id : Nat) :
    Restored userId record { recordMemo userId uid record with payload, id } where
  creator := rfl
  state := by
    simp only [recordMemo, memoImportRowStatus]
    rcases h.state with heq | heq <;> rw [heq] <;> decide
  content := rfl
  visibility := rfl
  pinned := rfl
  createTime := rfl
  updateTime := rfl

theorem insertMemos_created {userId i n : Nat} {uids : Nat → String} {records : List Record}
    {memos : List Memo} (h : Created userId uids i records memos)
    (hallowed : ∀ record ∈ records, record.Allowed)
    (hdifferent : ∀ i < n, ∀ j < n, uids i = uids j → i = j) (hn : i + records.length ≤ n)
    {db : Database} (hnew : ∀ j, i ≤ j → j < n → ∀ memo ∈ db.memos, memo.uid ≠ uids j) (k : Nat) :
    ∃ db' restored, insertMemos 0 k db memos = .ok db' ∧ db'.memos = db.memos ++ restored ∧
      RestoredAll userId records restored := by
  induction h generalizing db k with
  | nil => exact ⟨db, [], rfl, (List.append_nil _).symm, .nil⟩
  | @cons i record payload records memos _ ih =>
    rw [List.length_cons] at hn
    have hinsert : insertMemo db { recordMemo userId (uids i) record with payload } =
        some (db.add { recordMemo userId (uids i) record with payload }) := by
      have hnone : ¬(db.memos.any fun m => m.uid = uids i) = true := by
        rw [List.any_eq_true]
        rintro ⟨m, hm, heq⟩
        exact hnew i (Nat.le_refl i) (by omega) m hm (of_decide_eq_true heq)
      exact if_neg hnone
    have hadded : ∀ j, i + 1 ≤ j → j < n →
        ∀ memo ∈ (db.add { recordMemo userId (uids i) record with payload }).memos,
          memo.uid ≠ uids j := by
      intro j hj hjn memo hmemo
      rcases List.mem_append.mp hmemo with hold | hlast
      · exact hnew j (by omega) hjn memo hold
      · rw [List.mem_singleton.mp hlast]
        intro heq
        have hij := hdifferent i (by omega) j hjn heq
        omega
    obtain ⟨db', restored, hok, hmemos, hall⟩ :=
      ih (fun r hr => hallowed r (.tail _ hr)) (by omega) hadded (k + 1)
    have hrecord := restored_recordMemo userId (uids i) (hallowed record (.head _)) payload
      db.nextMemoId
    simp only [insertMemos, hinsert, Nat.lt_irrefl, false_and, if_false]
    refine ⟨db', _, hok, ?_, .cons hrecord hall⟩
    rw [hmemos]
    exact List.append_assoc _ _ _

theorem RestoredAll.countP_normal {userId : Nat} {records : List Record} {memos : List Memo}
    (h : RestoredAll userId records memos) :
    memos.countP (fun memo => memo.rowStatus = .normal) = records.countP isNormal := by
  induction h with
  | nil => rfl
  | cons hrecord _ ih =>
    rw [List.countP_cons, List.countP_cons, ih, hrecord.state]
    simp only [isNormal]
    split <;> simp_all

theorem RestoredAll.countP_archived {userId : Nat} {records : List Record} {memos : List Memo}
    (h : RestoredAll userId records memos) :
    memos.countP (fun memo => memo.rowStatus = .archived) =
      records.countP fun record => !isNormal record := by
  induction h with
  | nil => rfl
  | cons hrecord _ ih =>
    rw [List.countP_cons, List.countP_cons, ih, hrecord.state]
    simp only [isNormal]
    split <;> simp_all

theorem toInt32_of_lt {n : Nat} (h : n < 2147483648) : toInt32 n = n := by
  unfold toInt32
  rw [Int.bmod_eq_of_le] <;> omega

/-- The document can be imported into the account of the session, which is empty, and the data
is not too long. -/
structure Importable (db : Database) (userId : Nat) (session : Option Nat) (data : ByteArray) :
    Prop where
  session : session = some userId
  user : userId ∈ db.userIds
  size : data.size ≤ maxMemoImportDataBytes
  document : (parse data db.contentLengthLimit).canImport
  target : accountNonempty db userId = false

theorem readMemoImport_ok {db : Database} {session : Option Nat} {data : ByteArray} {userId : Nat}
    {parsed : Document} (h : readMemoImport db session data = .ok (userId, parsed)) :
    session = some userId ∧ userId ∈ db.userIds ∧ data.size ≤ maxMemoImportDataBytes ∧
      parsed = parse data db.contentLengthLimit := by
  unfold readMemoImport at h
  split at h
  · cases h
  · rename_i id huser
    obtain ⟨hsession, hid⟩ := Option.filter_eq_some_iff.mp huser
    split at h
    · cases h
    · cases h
      exact ⟨hsession, by simpa using hid, by omega, rfl⟩

theorem Importable.read {db : Database} {userId : Nat} {session : Option Nat} {data : ByteArray}
    (h : Importable db userId session data) :
    readMemoImport db session data = .ok (userId, parse data db.contentLengthLimit) := by
  have huser : fetchCurrentUser db session = some userId := by
    simp [fetchCurrentUser, h.session, h.user]
  have hsize : ¬maxMemoImportDataBytes < data.size := Nat.not_lt.mpr h.size
  simp only [readMemoImport, huser, if_neg hsize]

theorem importMemoExport_error {extractAll : ExtractAll} {uids : Nat → String} {db : Database}
    {userId : Nat} {session : Option Nat} {data : ByteArray} {parsed : Document}
    (hread : readMemoImport db session data = .ok (userId, parsed)) (hcan : parsed.canImport)
    {memos : List Memo} (hcreate : createMemos extractAll userId uids 0 parsed.records = .ok memos)
    {e : ImportError} (h : importMemosAtomically 0 db userId memos = .error e) :
    importMemoExport extractAll uids db session data = (.error (importErrorText e), db) := by
  have hno : ¬(!parsed.canImport) = true := by
    rw [hcan]
    exact nofun
  simp only [importMemoExport, hread, if_neg hno, hcreate, h]

theorem importMemoExport_ok {extractAll : ExtractAll} {uids : Nat → String} {db : Database}
    {userId : Nat} {session : Option Nat} {data : ByteArray} {parsed : Document}
    (hread : readMemoImport db session data = .ok (userId, parsed)) (hcan : parsed.canImport)
    {memos : List Memo} (hcreate : createMemos extractAll userId uids 0 parsed.records = .ok memos)
    {db' : Database} (h : importMemosAtomically 0 db userId memos = .ok db') :
    ∃ result, importMemoExport extractAll uids db session data = (.ok result, db') := by
  have hno : ¬(!parsed.canImport) = true := by
    rw [hcan]
    exact nofun
  simp only [importMemoExport, hread, if_neg hno, hcreate, h]
  exact ⟨_, rfl⟩

theorem importMemosAtomically_refuses {uids : Nat → String} {db : Database} {userId : Nat}
    {records : List Record} {memos : List Memo} (hf : Fresh uids db records.length)
    (hc : Created userId uids 0 records memos)
    (h : accountNonempty db userId ∨ ∃ record ∈ records, AtEpoch record) :
    ∃ e, importMemosAtomically 0 db userId memos = .error e := by
  unfold importMemosAtomically
  split
  · exact ⟨_, rfl⟩
  · split
    · exact ⟨_, rfl⟩
    · rename_i hcheck
      have hall := (checkAllImported_created hc hf.valid (by omega) 1).mp hcheck
      rcases h with hnonempty | ⟨record, hmem, hat⟩
      · unfold Driver.importMemosAtomically
        split
        · exact ⟨_, rfl⟩
        · exact ⟨_, rfl⟩
      · exact absurd hat (hall record hmem)

theorem importMemosAtomically_restores {uids : Nat → String} {db : Database} {userId : Nat}
    {records : List Record} {memos : List Memo} (hf : Fresh uids db records.length)
    (huser : userId ∈ db.userIds) (hempty : accountNonempty db userId = false)
    (hc : Created userId uids 0 records memos)
    (hallowed : ∀ record ∈ records, record.Allowed)
    (hepoch : ∀ record ∈ records, ¬AtEpoch record) :
    ∃ db' restored, importMemosAtomically 0 db userId memos = .ok db' ∧
      db'.memos = db.memos ++ restored ∧ RestoredAll userId records restored := by
  obtain ⟨db', restored, hok, hmemos, hall⟩ :=
    insertMemos_created hc hallowed hf.different (by omega) (fun j _ => hf.new j) 0
  have hcreator : userId ≠ 0 := Nat.pos_iff_ne_zero.mp (db.userIds_pos userId huser)
  have hcheck := (checkAllImported_created hc hf.valid (by omega) 1).mpr hepoch
  refine ⟨db', restored, ?_, hmemos, hall⟩
  simp only [importMemosAtomically, if_neg hcreator, hcheck, Driver.importMemosAtomically,
    if_neg (not_not_intro huser), hempty, Bool.false_eq_true, if_false]
  exact hok

theorem preview_counts {data : ByteArray} {limit : Nat} (hsize : data.size ≤ maxMemoImportDataBytes)
    {userId : Nat} {restored : List Memo}
    (h : RestoredAll userId (parse data limit).records restored) :
    (restored.countP (fun memo => memo.rowStatus = .normal) : Int) =
        (memoImportPreviewToProto (parse data limit)).normal ∧
      (restored.countP (fun memo => memo.rowStatus = .archived) : Int) =
        (memoImportPreviewToProto (parse data limit)).archived := by
  have hfits := parse_fits data limit
  have hlen := hfits.length
  have hmax : maxMemoImportDataBytes < 2147483648 := by decide
  have hbound (p : Record → Bool) : (parse data limit).records.countP p < 2147483648 := by
    have hle := List.countP_le_length (p := p) (l := (parse data limit).records)
    omega
  constructor
  · rw [h.countP_normal]
    simp only [memoImportPreviewToProto, hfits.accounted.normal]
    rw [toInt32_of_lt (hbound _)]
  · rw [h.countP_archived]
    simp only [memoImportPreviewToProto, hfits.accounted.archived]
    rw [toInt32_of_lt (hbound _)]

theorem Importable.preview {db : Database} {userId : Nat} {session : Option Nat}
    {data : ByteArray} (h : Importable db userId session data) :
    previewMemoImport db session data =
      .ok (memoImportPreviewToProto (parse data db.contentLengthLimit)) := by
  simp only [previewMemoImport, h.read, h.target, Bool.false_eq_true, if_false, ite_self]

theorem Importable.refused_of_atEpoch {extractAll : ExtractAll}
    (hx : ∀ content, (extractAll content).isSome) {uids : Nat → String} {db : Database}
    {userId : Nat} {session : Option Nat} {data : ByteArray}
    (hf : Fresh uids db (parse data db.contentLengthLimit).records.length)
    (h : Importable db userId session data) {record : Record}
    (hmem : record ∈ (parse data db.contentLengthLimit).records) (hat : AtEpoch record) :
    ∃ e, importMemoExport extractAll uids db session data = (.error e, db) := by
  obtain ⟨memos, hcreate⟩ := createMemos_ok hx userId uids 0 (parse data db.contentLengthLimit).records
  have hcreated := createMemos_created hcreate
  obtain ⟨e, he⟩ := importMemosAtomically_refuses hf hcreated (.inr ⟨record, hmem, hat⟩)
  exact ⟨_, importMemoExport_error h.read h.document hcreate he⟩

theorem Importable.not_agrees {extractAll : ExtractAll} {uids : Nat → String} {db : Database}
    {userId : Nat} {session : Option Nat} {data : ByteArray}
    (h : Importable db userId session data) {e : String}
    (he : importMemoExport extractAll uids db session data = (.error e, db)) :
    ¬Agrees extractAll uids db session data := by
  intro hagrees
  have hcan : (memoImportPreviewToProto (parse data db.contentLengthLimit)).canImport := h.document
  simp only [Agrees, h.preview, hcan, if_true] at hagrees
  obtain ⟨_, result, db', _, _, hok, _⟩ := hagrees
  rw [he] at hok
  cases hok

/-- Preview and import agree exactly when an importable document has no record at the epoch. -/
theorem agrees_iff (extractAll : ExtractAll) (hx : ∀ content, (extractAll content).isSome)
    (uids : Nat → String) (db : Database) (session : Option Nat) (data : ByteArray)
    (hf : Fresh uids db (parse data db.contentLengthLimit).records.length) :
    Agrees extractAll uids db session data ↔
      ∀ userId, Importable db userId session data →
        ∀ record ∈ (parse data db.contentLengthLimit).records, ¬AtEpoch record := by
  cases hread : readMemoImport db session data with
  | error e =>
    have hagrees : Agrees extractAll uids db session data := by
      simp only [Agrees, previewMemoImport, hread]
    refine iff_of_true hagrees fun userId h => ?_
    rw [h.read] at hread
    cases hread
  | ok read =>
    obtain ⟨userId, parsed⟩ := read
    obtain ⟨hsession, huser, hsize, hparsed⟩ := readMemoImport_ok hread
    obtain ⟨memos, hcreate⟩ := createMemos_ok hx userId uids 0 parsed.records
    have hcreated := createMemos_created hcreate
    subst hparsed
    cases hcan : (parse data db.contentLengthLimit).canImport with
    | false =>
      have hagrees : Agrees extractAll uids db session data := by
        simp only [Agrees, previewMemoImport, importMemoExport, hread, hcan,
          memoImportPreviewToProto, Bool.not_false, Bool.false_eq_true, if_true, if_false]
        exact ⟨_, rfl⟩
      refine iff_of_true hagrees fun userId h => ?_
      have hdocument := h.document
      rw [hcan] at hdocument
      cases hdocument
    | true =>
      cases htarget : accountNonempty db userId with
      | true =>
        obtain ⟨e, he⟩ := importMemosAtomically_refuses hf hcreated (.inl htarget)
        have hrefused := importMemoExport_error hread hcan hcreate he
        have hagrees : Agrees extractAll uids db session data := by
          simp only [Agrees, previewMemoImport, hread, hcan, htarget,
            memoImportPreviewToProto, Bool.not_true, Bool.false_eq_true, if_true, if_false]
          exact ⟨_, hrefused⟩
        refine iff_of_true hagrees fun id h => ?_
        obtain rfl : userId = id := Option.some.inj (hsession.symm.trans h.session)
        rw [h.target] at htarget
        cases htarget
      | false =>
        have himportable : Importable db userId session data :=
          ⟨hsession, huser, hsize, hcan, htarget⟩
        constructor
        · intro hagrees id h record hmem hat
          obtain ⟨e, he⟩ := h.refused_of_atEpoch hx hf hmem hat
          exact h.not_agrees he hagrees
        · intro hepoch
          have hallowed := (parse_fits data db.contentLengthLimit).accounted.allowed
          obtain ⟨db', restored, hok, hmemos, hall⟩ :=
            importMemosAtomically_restores hf huser htarget hcreated hallowed
              (hepoch userId himportable)
          obtain ⟨result, hresult⟩ := importMemoExport_ok hread hcan hcreate hok
          obtain ⟨hnormal, harchived⟩ := preview_counts hsize hall
          have hpcan : (memoImportPreviewToProto (parse data db.contentLengthLimit)).canImport :=
            hcan
          simp only [Agrees, himportable.preview, hpcan, if_true]
          exact ⟨userId, result, db', restored, hsession, hresult, hmemos, hall, hnormal, harchived⟩

instance (record : Record) : Decidable (AtEpoch record) :=
  inferInstanceAs (Decidable (record.createTime.unix = 0 ∨ record.updateTime.unix = 0))

def exportText (createTime : String) : List Char :=
  "\x7b\"format\": \"memoark.memo-export\", \"formatVersion\": 1, ".toList ++
    "\"exportedAt\": \"2026-01-01T00:00:00.000Z\", ".toList ++
    "\"user\": \x7b\"name\": \"users/ann\", \"username\": \"ann\"\x7d, ".toList ++
    "\"counts\": \x7b\"total\": 1, \"normal\": 1, \"archived\": 0\x7d, ".toList ++
    "\"includedContent\": \x7b\"memoData\": true, \"attachmentMetadata\": true\x7d, ".toList ++
    "\"memos\": [\x7b\"name\": \"memos/a\", \"state\": \"NORMAL\", ".toList ++
    "\"createTime\": \"".toList ++ createTime.toList ++ "\", \"content\": \"hello\", ".toList ++
    "\"visibility\": \"PRIVATE\", \"pinned\": false\x7d]\x7d".toList

def exportData (createTime : String) : ByteArray :=
  (String.ofList (exportText createTime)).toByteArray

theorem parse_exportData (createTime : String) (limit : Nat) :
    parse (exportData createTime) limit = parseText (exportText createTime) limit :=
  parse_ofList (exportText createTime) limit

theorem size_exportData_le (createTime : String) :
    (exportData createTime).size ≤ 4 * (exportText createTime).length :=
  utf8ByteSize_ofList_le _

attribute [irreducible] exportData

def exportRecord (unix : Int) : Record :=
  ⟨"memos/a", "NORMAL", ⟨unix, 0⟩, ⟨unix, 0⟩, "hello", "PRIVATE", false⟩

def emptyAccount : Database := ⟨[1], by decide, [], 1, 8192⟩

def extractNothing (_ : String) : Option Metadata :=
  some ⟨[], some ⟨false, false, false, false, ""⟩⟩

theorem fresh_b : Fresh (fun _ => "b") emptyAccount 1 where
  valid := by decide +kernel
  new := fun _ _ _ hmemo => absurd hmemo List.not_mem_nil
  different := by
    intro i hi j hj _
    omega

theorem parse_exportData_2026 :
    (parse (exportData "2026-01-01T00:00:00Z") emptyAccount.contentLengthLimit).records =
      [exportRecord 1767225600] := by
  rw [parse_exportData]
  decide +kernel

theorem agrees_2026 :
    Agrees extractNothing (fun _ => "b") emptyAccount (some 1)
      (exportData "2026-01-01T00:00:00Z") := by
  refine (agrees_iff extractNothing (fun _ => rfl) _ emptyAccount (some 1) _ ?_).mpr ?_
  · rw [parse_exportData_2026]
    exact fresh_b
  · intro _ _
    rw [parse_exportData_2026]
    decide

theorem parse_exportData_1970 :
    (parse (exportData "1970-01-01T00:00:00Z") emptyAccount.contentLengthLimit).records =
        [exportRecord 0] ∧
      (parse (exportData "1970-01-01T00:00:00Z") emptyAccount.contentLengthLimit).canImport ∧
        (exportText "1970-01-01T00:00:00Z").length ≤ 500 := by
  rw [parse_exportData]
  decide +kernel

theorem importable_1970 : Importable emptyAccount 1 (some 1) (exportData "1970-01-01T00:00:00Z") where
  session := rfl
  user := by decide
  size := by
    obtain ⟨_, _, hlen⟩ := parse_exportData_1970
    have hsize := size_exportData_le "1970-01-01T00:00:00Z"
    have hmax : 2000 ≤ maxMemoImportDataBytes := by decide
    omega
  document := parse_exportData_1970.2.1
  target := rfl

/-- A memo of the first second of 1970 passes the preview of an empty account; its import is
refused. -/
theorem preview_1970_import_refused :
    (∃ preview, previewMemoImport emptyAccount (some 1) (exportData "1970-01-01T00:00:00Z") =
        .ok preview ∧ preview.canImport) ∧
      ¬Agrees extractNothing (fun _ => "b") emptyAccount (some 1)
        (exportData "1970-01-01T00:00:00Z") := by
  obtain ⟨hrecords, hcan, _⟩ := parse_exportData_1970
  have hmem : exportRecord 0 ∈
      (parse (exportData "1970-01-01T00:00:00Z") emptyAccount.contentLengthLimit).records := by
    rw [hrecords]
    exact .head _
  have hfresh : Fresh (fun _ => "b") emptyAccount
      (parse (exportData "1970-01-01T00:00:00Z") emptyAccount.contentLengthLimit).records.length := by
    rw [hrecords]
    exact fresh_b
  have haccepts (content : String) : (extractNothing content).isSome := rfl
  obtain ⟨e, he⟩ := importable_1970.refused_of_atEpoch haccepts hfresh hmem (.inl rfl)
  exact ⟨⟨_, importable_1970.preview, hcan⟩, importable_1970.not_agrees he⟩

end Memoark.Import
