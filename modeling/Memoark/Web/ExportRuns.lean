import Memoark.Web.MemoExport

/-! What an export contains, whatever edits come between its pages. -/
namespace Memoark.Web
open Store Server
open Program (Durable)
open Memoark.System (LabelledSystem update_self update_of_ne)

section edits

variable {x : Exporter} {s : Storage}

theorem apply_create (memo : Memo) (now : Int) (s : Storage) :
    (Edit.create memo now).apply s = s ∨
      ∃ row : MemoRecord, row.id = s.nextMemoId ∧ row.uid ∉ s.memos.map (·.uid) ∧
        (Edit.create memo now).apply s = s.insertMemo row := by
  have hrun : (Edit.create memo now).apply s =
      if s.memos.any (·.uid = memo.uid) then s
      else s.insertMemo (Memo.record { memo with
        id := s.nextMemoId
        createdTs := if memo.createdTs ≠ 0 then memo.createdTs else now
        updatedTs := if memo.updatedTs ≠ 0 then memo.updatedTs else now
        rowStatus := .normal
        pinned := false }) := by
    show ((Storage.createMemo memo now >>= fun _ => Pure.pure ()).run s).2 = _
    unfold Storage.createMemo
    show (((if s.memos.any (·.uid = memo.uid) then _ else _ : Statement Memo) >>=
      fun _ => Pure.pure ()).run s).2 = _
    split <;> rfl
  rw [hrun]
  by_cases huid : s.memos.any (·.uid = memo.uid)
  · rw [if_pos huid]
    exact .inl rfl
  · rw [if_neg huid]
    refine .inr ⟨_, rfl, ?_, rfl⟩
    intro hmem
    obtain ⟨row, hrow, heq⟩ := List.mem_map.mp hmem
    exact huid (List.any_eq_true.mpr ⟨row, hrow, decide_eq_true heq⟩)

theorem Exporter.Tables.insertMemo (h : x.Tables s) {row : MemoRecord} (hid : row.id = s.nextMemoId)
    (huid : row.uid ∉ s.memos.map (·.uid)) (hnext : s.nextMemoId < 2147483648) :
    x.Tables (s.insertMemo row) := by
  have hnew : row.id ∉ s.memos.map (·.id) := by
    intro hmem
    obtain ⟨row', hrow', heq⟩ := List.mem_map.mp hmem
    have hlt := h.idsBelow row' hrow'
    omega
  exact {
    ids := by
      show ((s.memos ++ [row]).map (·.id)).Nodup
      rw [List.map_append, List.map_singleton, ← List.concat_eq_append]
      exact h.ids.concat hnew
    uids := by
      show ((s.memos ++ [row]).map (·.uid)).Nodup
      rw [List.map_append, List.map_singleton, ← List.concat_eq_append]
      exact h.uids.concat huid
    idsBelow := by
      intro row' hrow'
      show row'.id < s.nextMemoId + 1
      rcases List.mem_append.mp hrow' with hold | hsame
      · exact Nat.lt_succ_of_lt (h.idsBelow row' hold)
      · obtain rfl := List.mem_singleton.mp hsame
        omega
    nextMemoId := hnext
    parents := h.parents
    user := h.user }

theorem Exporter.Tables.of_sublist {s' : Storage} (h : x.Tables s)
    (hids : (s'.memos.map (·.id)).Sublist (s.memos.map (·.id)))
    (huids : (s'.memos.map (·.uid)).Sublist (s.memos.map (·.uid)))
    (hrelations : s'.relations.Sublist s.relations) (hnext : s'.nextMemoId = s.nextMemoId)
    (husers : s'.users = s.users) : x.Tables s' where
  ids := hids.nodup h.ids
  uids := huids.nodup h.uids
  idsBelow := by
    intro row hrow
    obtain ⟨row', hrow', hid⟩ := List.mem_map.mp (hids.subset (List.mem_map_of_mem hrow))
    rw [hnext, ← hid]
    exact h.idsBelow row' hrow'
  nextMemoId := hnext ▸ h.nextMemoId
  parents := ((hrelations.filter _).map _).nodup h.parents
  user := by
    unfold Database.getUser
    rw [husers]
    exact h.user

theorem Exporter.Tables.apply (h : x.Tables s) {e : Edit} (henabled : e.enabled s = true) :
    x.Tables (e.apply s) := by
  cases e with
  | create memo now =>
    rcases apply_create memo now s with hsame | ⟨row, hid, huid, hrow⟩
    · rw [hsame]
      exact h
    · rw [hrow]
      exact h.insertMemo hid huid (of_decide_eq_true henabled)
  | update id u =>
    by_cases hempty : u.isEmpty
    · have hsame : (Edit.update id u).apply s = s := by
        show ((Storage.updateMemo id u).run s).2 = s
        rw [Storage.updateMemo, if_pos hempty]
        rfl
      rw [hsame]
      exact h
    · have hrows : (Edit.update id u).apply s =
          { s with memos := s.memos.map fun row =>
              if row.id = id then row.updated u else row } := by
        show ((Storage.updateMemo id u).run s).2 = _
        rw [Storage.updateMemo, if_neg hempty]
        rfl
      rw [hrows]
      have hkept : ∀ {β : Type} (f : MemoRecord → β), (∀ row, f (row.updated u) = f row) →
          ((s.memos.map fun row => if row.id = id then row.updated u else row).map f) =
            s.memos.map f := by
        intro β f hf
        rw [List.map_map]
        refine List.map_congr_left fun row _ => ?_
        show f (if row.id = id then row.updated u else row) = f row
        split
        · exact hf row
        · rfl
      refine h.of_sublist ?_ ?_ (List.Sublist.refl _) rfl rfl
      · show ((s.memos.map _).map _).Sublist _
        rw [hkept (·.id) fun _ => rfl]
      · show ((s.memos.map _).map _).Sublist _
        rw [hkept (·.uid) fun _ => rfl]
  | deleteRelation delete =>
    exact h.of_sublist (List.Sublist.refl _) (List.Sublist.refl _) List.filter_sublist rfl rfl
  | delete id =>
    exact h.of_sublist (List.filter_sublist.map _) (List.filter_sublist.map _)
      (List.Sublist.refl _) rfl rfl

end edits

section runs

variable (x : Exporter)

def Exporting.names (s : Exporting) : List String :=
  (s.listing .normal).names ++ (s.listing .archived).names

def Exporter.ahead (s : Exporting) : List String :=
  (s.listing .normal).ahead (ownNames x s.storage .normal) ++
    (s.listing .archived).ahead (ownNames x s.storage .archived)

/-- No memo that has been read comes back into the pages to be read, and no memo of the start
leaves them unread and stays. -/
structure Exporter.KeepsPlace (start before after : Exporting) : Prop where
  notAgain : ∀ name ∈ x.ahead after, name ∈ x.ahead before ∨ name ∉ before.names
  notLost : ∀ name ∈ x.ahead before, x.Stored name start → x.Stored name after →
    name ∈ x.ahead after

def Exporter.Undisturbed (start s : Exporting) : Label → Prop
  | .page _ => True
  | .edit e => x.KeepsPlace start s { s with storage := e.apply s.storage }

variable {x} {start s s' : Exporting}

theorem Exporter.Stored.mem_ownNames {name : String} (h : x.Stored name s) :
    ∃ state, name ∈ ownNames x s.storage state := by
  obtain ⟨row, hrow, rfl, hcreator, htop⟩ := h
  exact ⟨row.rowStatus, List.mem_map.mpr ⟨_, mem_ownMemos_of_row hrow hcreator htop, rfl⟩⟩

theorem ahead_sublist (listing : Listing) (own : List String) :
    (listing.ahead own).Sublist own := by
  cases listing with
  | reading memos seenPageTokens pageToken => exact List.drop_sublist _ _
  | done memos => exact List.nil_sublist _
  | failed error => exact List.nil_sublist _

theorem nodup_ahead (h : x.Tables s.storage) : (x.ahead s).Nodup :=
  ((ahead_sublist _ _).append (ahead_sublist _ _)).nodup (nodup_ownNames h)

theorem accounts_perm (s : Exporting) :
    (s.names ++ x.ahead s).Perm
      ((s.listing .normal).account (ownNames x s.storage .normal) ++
        (s.listing .archived).account (ownNames x s.storage .archived)) := by
  rw [List.perm_iff_count]
  intro name
  simp only [Exporting.names, Exporter.ahead, Listing.account, List.count_append]
  omega

structure Sound (x : Exporter) (s : Exporting) : Prop where
  tables : x.Tables s.storage
  pages : ∀ state, (s.listing state).FullPages

/-- No name is read twice, or read and still ahead. -/
structure Consistent (x : Exporter) (s : Exporting) : Prop extends Sound x s where
  once : (s.names ++ x.ahead s).Nodup

def Accounted (x : Exporter) (name : String) (s : Exporting) : Prop :=
  (∃ state, (s.listing state).Failed) ∨ name ∈ s.names ++ x.ahead s

theorem consistent_of_init (h : x.Init s) : Consistent x s where
  tables := h.tables
  pages := by
    intro state
    rw [h.listing state]
    exact fun token htoken => by cases htoken
  once := by
    have hnames : s.names = [] := by
      rw [Exporting.names, h.listing, h.listing]
      rfl
    rw [hnames]
    exact nodup_ahead h.tables

theorem accounted_of_init (h : x.Init s) {name : String} (hstored : x.Stored name s) :
    Accounted x name s := by
  refine .inr (List.mem_append_right _ ?_)
  rw [Exporter.ahead, h.listing, h.listing]
  obtain ⟨state, hmem⟩ := hstored.mem_ownNames
  cases state with
  | normal => exact List.mem_append_left _ hmem
  | archived => exact List.mem_append_right _ hmem

theorem Listing.Failed.account {listing : Listing} (h : listing.Failed) (own : List String) :
    listing.account own = [] := by
  obtain ⟨error, rfl⟩ := h
  rfl

theorem Listing.Failed.nextPage {listing : Listing} (h : listing.Failed) (storage : Storage)
    (state : RowStatus) : x.nextPage storage state listing = none := by
  obtain ⟨error, rfl⟩ := h
  unfold Exporter.nextPage
  split
  · rename_i hreading
    cases hreading
  · rfl

theorem step_page (hfilter : x.FiltersByCreator) (hs : Sound x s) {state : RowStatus}
    (h : x.step s (.page state) = some s') :
    s'.storage = s.storage ∧ ∀ other, (s'.listing other).Failed ∨
      ¬(s.listing other).Failed ∧ (s'.listing other).FullPages ∧
        (s'.listing other).account (ownNames x s'.storage other) =
          (s.listing other).account (ownNames x s.storage other) := by
  obtain ⟨listing, hnext, rfl⟩ := Option.map_eq_some_iff.mp h
  refine ⟨rfl, fun other => ?_⟩
  by_cases hfailed : (s.listing other).Failed
  · have hother : other ≠ state := by
      rintro rfl
      rw [hfailed.nextPage] at hnext
      cases hnext
    dsimp only
    rw [update_of_ne hother]
    exact .inl hfailed
  · by_cases hother : other = state
    · subst hother
      dsimp only
      rw [update_self]
      have haccount := nextPage_account hfilter hs.tables (hs.pages other) hnext
      exact haccount.imp_right fun h => ⟨hfailed, h⟩
    · dsimp only
      rw [update_of_ne hother]
      exact .inr ⟨hfailed, hs.pages other, rfl⟩

theorem Sound.step_page (hfilter : x.FiltersByCreator) (hs : Sound x s) {state : RowStatus}
    (h : x.step s (.page state) = some s') : Sound x s' := by
  obtain ⟨hstorage, haccounts⟩ := Web.step_page hfilter hs h
  constructor
  · rw [hstorage]
    exact hs.tables
  · intro other
    rcases haccounts other with ⟨error, hfailed⟩ | ⟨-, hpages, -⟩
    · rw [hfailed]
      trivial
    · exact hpages

theorem Consistent.step_page (hfilter : x.FiltersByCreator) (hs : Consistent x s)
    {state : RowStatus} (h : x.step s (.page state) = some s') : Consistent x s' := by
  obtain ⟨-, haccounts⟩ := Web.step_page hfilter hs.toSound h
  have hsublist : ∀ other, ((s'.listing other).account (ownNames x s'.storage other)).Sublist
      ((s.listing other).account (ownNames x s.storage other)) := by
    intro other
    rcases haccounts other with hfailed | ⟨-, -, hsame⟩
    · rw [hfailed.account]
      exact List.nil_sublist _
    · rw [hsame]
  refine ⟨hs.toSound.step_page hfilter h, ?_⟩
  rw [(accounts_perm s').nodup_iff]
  exact ((hsublist .normal).append (hsublist .archived)).nodup
    ((accounts_perm s).nodup_iff.mp hs.once)

theorem step_page_perm (hfilter : x.FiltersByCreator) (hs : Sound x s) {state : RowStatus}
    (h : x.step s (.page state) = some s') (hend : ∀ other, ¬(s'.listing other).Failed) :
    (∀ other, ¬(s.listing other).Failed) ∧
      (s'.names ++ x.ahead s').Perm (s.names ++ x.ahead s) := by
  obtain ⟨-, haccounts⟩ := Web.step_page hfilter hs h
  have hsame := fun other => (haccounts other).resolve_left (hend other)
  refine ⟨fun other => (hsame other).1, ?_⟩
  refine (accounts_perm s').trans (.trans ?_ (accounts_perm s).symm)
  rw [(hsame .normal).2.2, (hsame .archived).2.2]

theorem Accounted.step_page (hfilter : x.FiltersByCreator) (hs : Sound x s) {name : String}
    (hname : Accounted x name s) {state : RowStatus} (h : x.step s (.page state) = some s') :
    Accounted x name s' := by
  by_cases hfailed : ∃ other, (s'.listing other).Failed
  · exact .inl hfailed
  · obtain ⟨hnone, hperm⟩ := step_page_perm hfilter hs h (not_exists.mp hfailed)
    rcases hname with ⟨other, h'⟩ | hmem
    · exact absurd h' (hnone other)
    · exact .inr (hperm.mem_iff.mpr hmem)

theorem Consistent.step_edit (hs : Consistent x s) {e : Edit}
    (hkeeps : x.Undisturbed start s (.edit e))
    (h : x.step s (.edit e) = some s') : Consistent x s' := by
  obtain ⟨henabled, h⟩ := Option.ite_none_right_eq_some.mp h
  obtain rfl := Option.some.inj h
  have htables := hs.tables.apply henabled
  refine ⟨⟨htables, hs.pages⟩, ?_⟩
  obtain ⟨hnames, -, hapart⟩ := List.nodup_append.mp hs.once
  refine List.nodup_append.mpr ⟨hnames, nodup_ahead htables, ?_⟩
  rintro name hread _ hahead rfl
  rcases hkeeps.notAgain name hahead with hbefore | hunread
  · exact hapart name hread name hbefore rfl
  · exact hunread hread

theorem Accounted.step_edit {name : String} (hname : Accounted x name s) {e : Edit}
    (hkeeps : x.Undisturbed start s (.edit e)) (h : x.step s (.edit e) = some s')
    (hstart : x.Stored name start) (hstored : x.Stored name s') : Accounted x name s' := by
  obtain ⟨-, h⟩ := Option.ite_none_right_eq_some.mp h
  obtain rfl := Option.some.inj h
  rcases hname with hfailed | hmem
  · exact .inl hfailed
  · refine .inr ?_
    rcases List.mem_append.mp hmem with hread | hahead
    · exact List.mem_append_left _ hread
    · exact List.mem_append_right _ (hkeeps.notLost name hahead hstart hstored)

theorem file_names {now : String} {file : MemoExportFile} (h : x.file now s = some file) :
    file.document.memos.map (·.name) = s.names ++ x.ahead s ∧
      ∀ state, ¬(s.listing state).Failed := by
  unfold Exporter.file createMemoExportFile at h
  split at h
  · rename_i normalMemos archivedMemos hnormal harchived
    obtain rfl := Option.some.inj h
    constructor
    · rw [Exporting.names, Exporter.ahead, hnormal, harchived]
      show (normalMemos ++ archivedMemos).map _ = (_ ++ _) ++ ([] ++ [])
      rw [List.map_append, List.append_nil]
      exact (List.append_nil _).symm
    · rintro state ⟨error, hfailed⟩
      cases state with
      | normal =>
        rw [hnormal] at hfailed
        cases hfailed
      | archived =>
        rw [harchived] at hfailed
        cases hfailed
  · cases h

/-- An export whose edits keep every memo on its side of the pages names each memo once, and all
memos that are there throughout. -/
theorem export_complete (hfilter : x.FiltersByCreator) (hinit : x.Init s) {labels : List Label}
    (hrun : x.system.run s labels = some s') (hmeets : x.system.Meets (x.Undisturbed s) s labels)
    {now : String} {file : MemoExportFile} (hfile : x.file now s' = some file) :
    (file.document.memos.map (·.name)).Nodup ∧
      ∀ name, x.system.Throughout (x.Stored name) s labels →
        name ∈ file.document.memos.map (·.name) := by
  have hstep : ∀ t label t', Consistent x t → x.Undisturbed s t label →
      x.system.step t label = some t' → Consistent x t' := by
    intro t label t' ht hlabel h
    cases label with
    | page state => exact ht.step_page hfilter h
    | edit e => exact ht.step_edit hlabel h
  obtain ⟨hnames, hfailed⟩ := file_names hfile
  have hreach : x.system.Reaches (x.Undisturbed s) s' := .run (.init hinit) hmeets hrun
  have hconsistent : Consistent x s' := hreach.invariant (fun _ => consistent_of_init) hstep
  rw [hnames]
  refine ⟨hconsistent.once, fun name hstored => ?_⟩
  have haccounted : Consistent x s' ∧ Accounted x name s' := by
    refine hstored.invariant (I := fun t => Consistent x t ∧ Accounted x name t) hmeets hrun
      ⟨consistent_of_init hinit, accounted_of_init hinit hstored.head⟩ ?_
    rintro t label t' ⟨ht, hname⟩ hlabel hafter h
    refine ⟨hstep t label t' ht hlabel h, ?_⟩
    cases label with
    | page state => exact hname.step_page hfilter ht.toSound h
    | edit e => exact hname.step_edit hlabel h hstored.head hafter
  rcases haccounted.2 with ⟨state, h⟩ | hmem
  · exact absurd h (hfailed state)
  · exact hmem

end runs

section diary

def diaryFilter (filter : String) : Except String (MemoRecord → Bool) :=
  if filter = "creator == \"users/alice\"" then .ok fun row => row.creatorId = 1
  else .error "unexpected filter"

def diaryExporter : Exporter where
  services := ⟨diaryFilter, .ok⟩
  userID := 1
  user := ⟨"users/alice", "alice", "Alice"⟩

def diaryMemo (state : RowStatus) : MemoRecord where
  id := 1
  uid := "diary"
  creatorId := 1
  createdTs := 0
  updatedTs := 0
  rowStatus := state
  content := "Dear diary"
  visibility := .Private
  pinned := false
  payload := ⟨none, none, []⟩

def diaryTables (state : RowStatus) : Storage where
  users := [⟨1, .normal, "alice", .USER⟩]
  memos := [diaryMemo state]
  relations := []
  attachments := []
  reactions := []
  inboxes := []
  nextMemoId := 2
  nextReactionId := 1
  nextInboxId := 1

def diaryExport : Exporting := ⟨diaryTables .normal, fun _ => .reading [] [] none⟩

def archiveDiary : Edit := .update 1
  { createdTs := none, updatedTs := none, rowStatus := some .archived, content := none,
    visibility := none, pinned := none, payload := none }

theorem diary_filters : diaryExporter.FiltersByCreator := by
  intro creatorFilter hfilter
  obtain rfl : "creator == \"users/alice\"" = creatorFilter := Option.some.inj hfilter
  show diaryFilter "creator == \"users/alice\"" = _
  rw [diaryFilter, if_pos rfl]
  rfl

theorem diary_tables (state : RowStatus) : diaryExporter.Tables (diaryTables state) where
  ids := List.nodup_singleton 1
  uids := List.nodup_singleton "diary"
  idsBelow := by
    intro row hrow
    obtain rfl := List.mem_singleton.mp hrow
    exact Nat.lt_succ_self 1
  nextMemoId := by
    show 2 ≤ 2147483648
    omega
  parents := List.nodup_nil
  user := ⟨Nat.one_ne_zero, _, rfl, rfl⟩

theorem diary_init : diaryExporter.Init diaryExport := ⟨diary_tables .normal, fun _ => rfl⟩

theorem diary_ownNames (state : RowStatus) :
    ownNames diaryExporter (diaryTables state) state = ["memos/diary"] := by
  have hperm := ownMemos_perm (diaryTables state).toDatabase 1 state
  have hrows : ((diaryTables state).memos.filter (ownFind 1 state).matchesRow).flatMap (fun row =>
      (((diaryTables state).parents row).filter (ownFind 1 state).matchesParent).map
        row.withParent) = [(diaryMemo state).withParent none] := by
    cases state <;> rfl
  have hown : ownMemos (diaryTables state).toDatabase diaryExporter.userID state =
      [(diaryMemo state).withParent none] :=
    List.perm_singleton.mp (hperm.trans (List.Perm.of_eq hrows))
  rw [ownNames, hown]
  rfl

theorem diary_ownNames_other {state other : RowStatus} (h : other ≠ state) :
    ownNames diaryExporter (diaryTables state) other = [] := by
  have hperm := ownMemos_perm (diaryTables state).toDatabase 1 other
  have hrows : ((diaryTables state).memos.filter (ownFind 1 other).matchesRow).flatMap (fun row =>
      (((diaryTables state).parents row).filter (ownFind 1 other).matchesParent).map
        row.withParent) = [] := by
    cases state <;> cases other <;> first | rfl | exact absurd rfl h
  have hown : ownMemos (diaryTables state).toDatabase diaryExporter.userID other = [] :=
    (hperm.trans (List.Perm.of_eq hrows)).eq_nil
  rw [ownNames, hown]
  rfl

theorem diary_page (s : Exporting) (state stored : RowStatus)
    (htables : s.storage = diaryTables stored) (hlisting : s.listing state = .reading [] [] none) :
    ∃ memos, diaryExporter.step s (.page state) =
        some { s with listing := System.update s.listing state (.done memos) } ∧
      memos.map (·.name) = if state = stored then ["memos/diary"] else [] := by
  have hown : ownNames diaryExporter s.storage state =
      if state = stored then ["memos/diary"] else [] := by
    rw [htables]
    split
    · rename_i hstate
      rw [hstate]
      exact diary_ownNames stored
    · rename_i hstate
      exact diary_ownNames_other hstate
  have hfits : (ownNames diaryExporter s.storage state).length ≤ 1000 := by
    rw [hown]
    split <;> simp
  have hkeys : diaryExporter.Tables s.storage := htables ▸ diary_tables stored
  obtain ⟨memos, hnext, hnames⟩ := nextPage_single diary_filters hkeys
    (fun content => ⟨content, rfl⟩) rfl hfits
  refine ⟨memos, ?_, hnames.trans hown⟩
  show (diaryExporter.nextPage s.storage state (s.listing state)).map _ = _
  rw [hlisting, hnext]
  rfl

theorem archiveDiary_step (s : Exporting) (h : s.storage = diaryTables .normal) :
    diaryExporter.step s (.edit archiveDiary) =
      some { s with storage := diaryTables .archived } := by
  obtain ⟨storage, listing⟩ := s
  obtain rfl := h
  rfl

/-- The diary is archived before its listings are read. -/
theorem export_complete_diary : ∃ s file, diaryExporter.system.run diaryExport
      [.edit archiveDiary, .page .normal, .page .archived] = some s ∧
    diaryExporter.file "2026-07-13" s = some file ∧ (file.document.memos.map (·.name)).Nodup ∧
      ∀ name, diaryExporter.system.Throughout (diaryExporter.Stored name) diaryExport
          [.edit archiveDiary, .page .normal, .page .archived] →
        name ∈ file.document.memos.map (·.name) := by
  have hedit := archiveDiary_step diaryExport rfl
  obtain ⟨normal, hnormal, -⟩ := diary_page
    { diaryExport with storage := diaryTables .archived } .normal .archived rfl rfl
  obtain ⟨archived, harchived, -⟩ := diary_page
    ⟨diaryTables .archived, System.update diaryExport.listing .normal (.done normal)⟩
    .archived .archived rfl rfl
  have hrun : diaryExporter.system.run diaryExport
      [.edit archiveDiary, .page .normal, .page .archived] = some _ :=
    (LabelledSystem.run_cons hedit _).trans
      ((LabelledSystem.run_cons hnormal _).trans (LabelledSystem.run_cons harchived []))
  have hahead : ∀ state, diaryExporter.ahead { diaryExport with storage := diaryTables state } =
      ["memos/diary"] := by
    intro state
    show ownNames _ _ .normal ++ ownNames _ _ .archived = _
    cases state with
    | normal => rw [diary_ownNames, diary_ownNames_other (by decide)]; rfl
    | archived => rw [diary_ownNames, diary_ownNames_other (by decide)]; rfl
  have hkeeps : diaryExporter.Undisturbed diaryExport diaryExport (.edit archiveDiary) :=
    ⟨fun name hname => .inl (hahead .normal ▸ hahead .archived ▸ hname),
      fun name hname _ _ => hahead .archived ▸ hahead .normal ▸ hname⟩
  have hmeets : diaryExporter.system.Meets (diaryExporter.Undisturbed diaryExport) diaryExport
      [.edit archiveDiary, .page .normal, .page .archived] :=
    ⟨hkeeps, LabelledSystem.meets_of_forall (fun label hlabel s => by
      simp only [List.mem_cons, List.not_mem_nil, or_false] at hlabel
      rcases hlabel with rfl | rfl <;> trivial) _⟩
  exact ⟨_, _, hrun, rfl, export_complete diary_filters diary_init hrun hmeets rfl⟩

/-- A memo that is archived between the two listings is in the file twice, and one that is
archived after the archived memos are read is not in it, though it is there throughout. -/
theorem export_disturbed :
    (∃ s file, diaryExporter.Init diaryExport ∧
      diaryExporter.system.run diaryExport
        [.page .normal, .edit archiveDiary, .page .archived] = some s ∧
      diaryExporter.file "2026-07-13" s = some file ∧
      ¬(file.document.memos.map (·.name)).Nodup) ∧
    ∃ s file, diaryExporter.Init diaryExport ∧
      diaryExporter.system.run diaryExport
        [.page .archived, .edit archiveDiary, .page .normal] = some s ∧
      diaryExporter.system.Throughout (diaryExporter.Stored "memos/diary") diaryExport
        [.page .archived, .edit archiveDiary, .page .normal] ∧
      diaryExporter.file "2026-07-13" s = some file ∧
      "memos/diary" ∉ file.document.memos.map (·.name) := by
  have hstored : ∀ s : Exporting, ∀ state, s.storage = diaryTables state →
      diaryExporter.Stored "memos/diary" s := by
    rintro ⟨storage, listing⟩ state rfl
    refine ⟨diaryMemo state, List.mem_singleton_self _, rfl, rfl, ?_⟩
    intro parent hparent
    exact List.mem_singleton.mp hparent
  constructor
  · obtain ⟨normal, hnormal, hnames⟩ := diary_page diaryExport .normal .normal rfl rfl
    obtain ⟨archived, harchived, hnames'⟩ := diary_page
      ⟨diaryTables .archived, System.update diaryExport.listing .normal (.done normal)⟩
      .archived .archived rfl rfl
    have hrun : diaryExporter.system.run diaryExport
        [.page .normal, .edit archiveDiary, .page .archived] = some _ :=
      (LabelledSystem.run_cons hnormal _).trans
        ((LabelledSystem.run_cons (archiveDiary_step _ rfl) _).trans
          (LabelledSystem.run_cons harchived []))
    refine ⟨_, _, diary_init, hrun, rfl, ?_⟩
    show ¬((normal ++ archived).map (·.name)).Nodup
    rw [List.map_append, hnames, hnames']
    decide
  · obtain ⟨archived, harchived, hnames⟩ := diary_page diaryExport .archived .normal rfl rfl
    obtain ⟨normal, hnormal, hnames'⟩ := diary_page
      ⟨diaryTables .archived, System.update diaryExport.listing .archived (.done archived)⟩
      .normal .archived rfl rfl
    have hrun : diaryExporter.system.run diaryExport
        [.page .archived, .edit archiveDiary, .page .normal] = some _ :=
      (LabelledSystem.run_cons harchived _).trans
        ((LabelledSystem.run_cons (archiveDiary_step _ rfl) _).trans
          (LabelledSystem.run_cons hnormal []))
    refine ⟨_, _, diary_init, hrun, ?_, rfl, ?_⟩
    · rw [LabelledSystem.throughout_cons harchived,
        LabelledSystem.throughout_cons (archiveDiary_step _ rfl),
        LabelledSystem.throughout_cons hnormal]
      exact ⟨hstored _ .normal rfl, hstored _ .normal rfl, hstored _ .archived rfl,
        hstored _ .archived rfl⟩
    · show "memos/diary" ∉ (normal ++ archived).map (·.name)
      rw [List.map_append, hnames, hnames']
      decide

end diary

end Memoark.Web
