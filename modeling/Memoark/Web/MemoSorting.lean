import Memoark.Editor.MemoService
import Memoark.Server.ListOrder
import Memoark.Server.Pagination

/-! The lists of memos of the web client: `useMemoSorting.ts` sorts again what `useInfiniteMemos` and
`PagedMemoList.tsx` have read page by page in the order that was asked for. -/
namespace Memoark.Web
open Server Store
open Editor.MemoService (Date timestampDate)

deriving instance DecidableEq for Api.State

inductive MemoTimeBasis where
  | create_time | update_time
  deriving DecidableEq

/-- The options of `useMemoSorting`, with those of the view. -/
structure Sorting where
  pinnedFirst : Bool
  state : Api.State
  orderByTimeAsc : Bool
  timeBasis : MemoTimeBasis

def MemoTimeBasis.text : MemoTimeBasis → String
  | create_time => "create_time"
  | update_time => "update_time"

def Sorting.orderBy (v : Sorting) : String :=
  let timeOrder := v.timeBasis.text ++ if v.orderByTimeAsc then " asc" else " desc"
  if v.pinnedFirst then "pinned desc, " ++ timeOrder else timeOrder

/-- `dayjs(date).unix()`; `none` is the `NaN` of an invalid date. -/
def unix (date : Date) : Option Int :=
  if -8640000000000000 ≤ date ∧ date ≤ 8640000000000000 then some (date.fdiv 1000) else none

structure SortKeys where
  state : Api.State
  pinned : Bool
  createTime : Api.Timestamp
  updateTime : Api.Timestamp

def sortKeys (memo : Api.Memo) : SortKeys :=
  ⟨memo.state, memo.pinned, memo.createTime, memo.updateTime⟩

section sorting

variable (v : Sorting)

def Sorting.time (keys : SortKeys) : Date :=
  timestampDate (if v.timeBasis = .update_time then keys.updateTime else keys.createTime)

/-- The compare function of the sort; `NaN` counts as 0. -/
def Sorting.compare (a b : SortKeys) : Int :=
  if v.pinnedFirst ∧ a.pinned ≠ b.pinned then if b.pinned then 1 else -1
  else
    match unix (v.time a), unix (v.time b) with
    | some x, some y => if v.orderByTimeAsc then x - y else y - x
    | _, _ => 0

def Sorting.listSort (memos : List Api.Memo) : List Api.Memo :=
  (memos.filter (·.state = v.state)).mergeSort fun a b => v.compare (sortKeys a) (sortKeys b) ≤ 0

def Sorting.request (filter : String) (pageSize : Int) : ListMemosRequest where
  pageSize
  pageToken := none
  state := match v.state with | .unspecified => .normal | state => state
  orderBy := v.orderBy
  filter

end sorting

section fetching

variable (proto : ProtoPageToken) (services : Services) (db : Database) (userID : Nat)
  (request : ListMemosRequest)

/-- The token of the page that is fetched next; `none` is the end. -/
def getNextPageParam (pages : List MemoPage) : Option String :=
  match pages.getLast? with
  | none => some ""
  | some lastPage => if lastPage.nextPageToken = "" then none else some lastPage.nextPageToken

def fetchedPages : Nat → Except Status (List MemoPage)
  | 0 => .ok []
  | calls + 1 => do
    let pages ← fetchedPages calls
    match getNextPageParam pages with
    | none => return pages
    | some pageToken =>
      let page ← listMemosPage proto services db userID request pageToken
      return pages ++ [page]

def pageMemos (pages : List MemoPage) : List Api.Memo := pages.flatMap (·.memos)

end fetching

section orders

variable {v : Sorting} {find : FindMemo} {a b : Memo}

def MemoTimeBasis.key : MemoTimeBasis → OrderKey
  | create_time => .create_time
  | update_time => .update_time

theorem writtenFields_orderBy (v : Sorting) :
    writtenFields v.orderBy = (if v.pinnedFirst then [⟨.pinned, false⟩] else []) ++
      [⟨v.timeBasis.key, v.orderByTimeAsc⟩] := by
  obtain ⟨pinnedFirst, state, asc, basis⟩ := v
  revert pinnedFirst asc
  cases state <;> cases basis <;> decide +kernel

structure Sorting.Orders (v : Sorting) (find : FindMemo) : Prop where
  pinned : find.orderByPinned = v.pinnedFirst
  updated : find.orderByUpdatedTs = decide (v.timeBasis = .update_time)
  asc : find.orderByTimeAsc = v.orderByTimeAsc

theorem Sorting.orders {services : Services} {db : Database} {userID : Nat} {filter : String}
    {pageSize : Int}
    (h : findMemos services db userID (v.request filter pageSize) = .ok (some find)) :
    v.Orders find := by
  obtain ⟨flags, hfollows⟩ := findMemos_follows h
  have hwritten : writtenFields (v.request filter pageSize).orderBy = _ := writtenFields_orderBy v
  rw [hwritten] at hfollows
  obtain ⟨-, -, hpinned, hupdated, hasc⟩ := hfollows
  obtain ⟨pinnedFirst, state, asc, basis⟩ := v
  have hkey : basis.key ≠ .pinned := by cases basis <;> decide
  have hupdate : decide (basis.key = .update_time) = decide (basis = .update_time) := by
    cases basis <;> rfl
  constructor
  · rw [hpinned]
    cases pinnedFirst <;> simp [hkey]
  · rw [hupdated]
    cases pinnedFirst <;> simp [timeField, hkey, hupdate]
  · rw [hasc]
    cases pinnedFirst <;> simp [timeField, hkey]

def listedKeys (memo : Memo) : SortKeys :=
  ⟨convertStateFromStore memo.rowStatus, memo.pinned, timestamp memo.createdTs,
    timestamp memo.updatedTs⟩

theorem shows_sortKeys (services : Services) (db : Database) :
    Shows services db sortKeys listedKeys := by
  intro memo reactions attachments relations users message h
  unfold convertMemoFromStoreWithCreators at h
  split at h
  · cases h
  · split at h
    · cases h
    · obtain rfl := Except.ok.inj h
      rfl

def IsDate (ts : Int) : Prop := -8640000000000 ≤ ts ∧ ts ≤ 8640000000000

theorem unix_timestamp {ts : Int} (h : IsDate ts) : unix (timestampDate (timestamp ts)) = some ts := by
  obtain ⟨hlow, hhigh⟩ := h
  have hdate : timestampDate (timestamp ts) = ts * 1000 := by
    simp [timestampDate, timestamp]
  have hdiv : (ts * 1000).fdiv 1000 = ts := Int.mul_fdiv_cancel ts (by decide)
  have hrange : -8640000000000000 ≤ ts * 1000 ∧ ts * 1000 ≤ 8640000000000000 := by omega
  rw [hdate, unix, if_pos hrange, hdiv]

theorem Sorting.Orders.compare_le (h : v.Orders find) (ha : IsDate a.createdTs ∧ IsDate a.updatedTs)
    (hb : IsDate b.createdTs ∧ IsDate b.updatedTs) (hle : find.le a b = true) :
    v.compare (listedKeys a) (listedKeys b) ≤ 0 := by
  have htime : ∀ {memo : Memo}, IsDate memo.createdTs ∧ IsDate memo.updatedTs →
      unix (v.time (listedKeys memo)) =
        some (if find.orderByUpdatedTs then memo.updatedTs else memo.createdTs) := by
    intro memo hmemo
    rw [h.updated, Sorting.time]
    by_cases hbasis : v.timeBasis = .update_time
    · rw [if_pos hbasis, decide_eq_true hbasis, if_pos rfl]
      exact unix_timestamp hmemo.2
    · rw [if_neg hbasis, decide_eq_false hbasis, if_neg Bool.false_ne_true]
      exact unix_timestamp hmemo.1
  unfold FindMemo.le at hle
  rw [Sorting.compare, htime ha, htime hb, ← h.pinned, ← h.asc]
  by_cases hpinned : find.orderByPinned = true ∧ a.pinned ≠ b.pinned
  · rw [if_pos hpinned] at hle
    have hlast : b.pinned = false := by
      cases hb : b.pinned with
      | false => rfl
      | true => exact absurd (hle.trans hb.symm) hpinned.2
    have hkeys : find.orderByPinned = true ∧ (listedKeys a).pinned ≠ (listedKeys b).pinned := hpinned
    rw [if_pos hkeys]
    show (if b.pinned = true then (1 : Int) else -1) ≤ 0
    rw [hlast]
    decide
  · rw [if_neg hpinned] at hle
    have hkeys : ¬(find.orderByPinned = true ∧ (listedKeys a).pinned ≠ (listedKeys b).pinned) :=
      hpinned
    rw [if_neg hkeys]
    dsimp only
    split at hle <;> split <;> grind

end orders

section pages

variable {proto : ProtoPageToken} {services : Services} {db : Database} {userID : Nat}
  {request : ListMemosRequest} {find : FindMemo}

theorem listMemosPage_ok {α : Type} {f : Api.Memo → α} {g : Memo → α}
    (hfg : Shows services db f g)
    (hfind : findMemos services db userID request = .ok (some find)) {pageToken : String}
    {limit offset : Nat}
    (hbounds : pageBounds (request.withPageToken proto pageToken) = .ok (limit, offset))
    {page : MemoPage} (h : listMemosPage proto services db userID request pageToken = .ok page) :
    page.memos.map f =
        ((((db.listMemos find.unlimited).drop offset).take limit).filter (hasCreator db)).map g ∧
      page.nextPageToken =
        if offset + limit < (db.listMemos find.unlimited).length then
          marshalPageToken proto (getPageToken limit (offset + limit))
        else "" := by
  obtain ⟨response, hresponse, rfl⟩ := Program.map_ok h
  have hsame : findMemos services db userID (request.withPageToken proto pageToken) =
      .ok (some find) := hfind
  rw [listMemos, hsame, hbounds] at hresponse
  obtain ⟨hshown, htoken⟩ := listPage_map hfg hresponse
  refine ⟨hshown, ?_⟩
  rw [htoken]
  split <;> rfl

structure Fetched (proto : ProtoPageToken) (services : Services) (db : Database)
    (request : ListMemosRequest) (listing : List Memo) (limit : Nat) (pages : List MemoPage) :
    Prop where
  memos : ∀ {α : Type} {f : Api.Memo → α} {g : Memo → α}, Shows services db f g →
    (pageMemos pages).map f =
      ((listing.take (pages.length * limit)).filter (hasCreator db)).map g
  next : ∀ pageToken, getNextPageParam pages = some pageToken →
    pageBounds (request.withPageToken proto pageToken) = .ok (limit, pages.length * limit)
  done : getNextPageParam pages = none → listing.length ≤ pages.length * limit

theorem pageMemos_concat (pages : List MemoPage) (page : MemoPage) :
    pageMemos (pages ++ [page]) = pageMemos pages ++ page.memos := by
  simp [pageMemos]

theorem getNextPageParam_concat (pages : List MemoPage) (page : MemoPage) :
    getNextPageParam (pages ++ [page]) =
      if page.nextPageToken = "" then none else some page.nextPageToken := by
  rw [getNextPageParam, List.getLast?_concat]

theorem Fetched.concat (hproto : proto.Lawful)
    (hfind : findMemos services db userID request = .ok (some find)) {limit : Nat}
    (hpos : 0 < limit) (hle : limit ≤ maxPageSize)
    (hlength : (db.listMemos find.unlimited).length ≤ 2147483648) {pages : List MemoPage}
    (h : Fetched proto services db request (db.listMemos find.unlimited) limit pages)
    {pageToken : String} (hnext : getNextPageParam pages = some pageToken) {page : MemoPage}
    (hpage : listMemosPage proto services db userID request pageToken = .ok page) :
    Fetched proto services db request (db.listMemos find.unlimited) limit (pages ++ [page]) := by
  have hbounds := h.next pageToken hnext
  obtain ⟨-, htoken⟩ := listMemosPage_ok (shows_name services db) hfind hbounds hpage
  have hoffset : (pages ++ [page]).length * limit = pages.length * limit + limit := by
    rw [List.length_append, List.length_singleton, Nat.add_one_mul]
  constructor
  · intro α f g hfg
    have hshown := (listMemosPage_ok hfg hfind hbounds hpage).1
    rw [pageMemos_concat, List.map_append, h.memos hfg, hshown, hoffset, List.take_add,
      List.filter_append, List.map_append]
  · intro token hmore
    rw [getNextPageParam_concat] at hmore
    split at hmore
    · cases hmore
    · rename_i hne
      cases hmore
      rw [htoken] at hne ⊢
      split at hne
      · rename_i hlt
        rw [if_pos hlt, hoffset]
        exact pageBounds_next hproto hpos hle (by omega)
      · exact absurd rfl hne
  · intro hend
    rw [getNextPageParam_concat] at hend
    split at hend
    · rename_i hempty
      rw [htoken] at hempty
      split at hempty
      · rename_i hlt
        have hlimit : limit < 2147483648 := by
          unfold maxPageSize at hle
          omega
        exact absurd hempty (marshal_getPageToken_ne hproto hpos hlimit (by omega))
      · omega
    · cases hend

theorem fetched_of_ok (hproto : proto.Lawful)
    (hfind : findMemos services db userID request = .ok (some find))
    (hlength : (db.listMemos find.unlimited).length ≤ 2147483648) {calls : Nat}
    {pages : List MemoPage}
    (h : fetchedPages proto services db userID request calls = .ok pages) :
    Fetched proto services db request (db.listMemos find.unlimited)
      (normalizePageSize request.pageSize) pages := by
  obtain ⟨hpos, hle⟩ := normalizePageSize_bounds request.pageSize
  induction calls generalizing pages with
  | zero =>
    cases h
    constructor
    · intro α f g _
      simp [pageMemos]
    · intro pageToken hnext
      cases hnext
      simpa using pageBounds_first
    · exact nofun
  | succ calls ih =>
    obtain ⟨before, hbefore, h⟩ := Program.bind_ok h
    have hfetched := ih hbefore
    split at h
    · cases h
      exact hfetched
    · rename_i pageToken hnext
      obtain ⟨page, hpage, h⟩ := Program.bind_ok h
      cases h
      exact hfetched.concat hproto hfind hpos hle hlength hnext hpage

theorem exists_fetchedPages (hproto : proto.Lawful)
    (hsnippet : ∀ content, ∃ snippet, services.generateSnippet content = .ok snippet)
    (hfind : findMemos services db userID request = .ok (some find))
    (hlength : (db.listMemos find.unlimited).length ≤ 2147483648) (calls : Nat) :
    ∃ pages, fetchedPages proto services db userID request calls = .ok pages := by
  induction calls with
  | zero => exact ⟨[], rfl⟩
  | succ calls ih =>
    obtain ⟨pages, hpages⟩ := ih
    have hfetched := fetched_of_ok hproto hfind hlength hpages
    rw [fetchedPages, hpages]
    cases hnext : getNextPageParam pages with
    | none => exact ⟨pages, by simp only [hnext, bind, Except.bind]; rfl⟩
    | some pageToken =>
      obtain ⟨page, hpage, -⟩ := exists_listMemosPage hsnippet hfind (hfetched.next _ hnext)
      exact ⟨pages ++ [page], by simp only [hnext, hpage, bind, Except.bind]; rfl⟩

theorem pageMemos_eq_nil (hfind : ∀ find, findMemos services db userID request ≠ .ok (some find))
    {calls : Nat} {pages : List MemoPage}
    (h : fetchedPages proto services db userID request calls = .ok pages) :
    pageMemos pages = [] := by
  induction calls generalizing pages with
  | zero =>
    cases h
    rfl
  | succ calls ih =>
    obtain ⟨before, hbefore, h⟩ := Program.bind_ok h
    split at h
    · cases h
      exact ih hbefore
    · rename_i pageToken _
      obtain ⟨page, hpage, h⟩ := Program.bind_ok h
      cases h
      have hempty : page.memos = [] := by
        obtain ⟨response, hresponse, rfl⟩ := Program.map_ok hpage
        obtain ⟨found, hfound, hresponse⟩ := Program.bind_ok hresponse
        cases found with
        | none =>
          cases hresponse
          rfl
        | some find => exact absurd hfound (hfind find)
      rw [pageMemos_concat, ih hbefore, hempty]
      rfl

end pages

section shown

variable {proto : ProtoPageToken} {services : Services} {db : Database} {userID : Nat}
  {v : Sorting} {find : FindMemo}

theorem Sorting.shows_state {filter : String} {pageSize : Int} (hstate : v.state ≠ .unspecified)
    (hfind : findMemos services db userID (v.request filter pageSize) = .ok (some find))
    {memo : Memo} (hmemo : memo ∈ db.listMemos find.unlimited) :
    (listedKeys memo).state = v.state := by
  obtain ⟨user, huser, -⟩ := Program.bind_ok hfind
  obtain ⟨row, -, hmatches, parent, -, -, rfl⟩ := Database.exists_of_mem_listMemos hmemo
  have hstatus := ((matchesRow_iff (Program.mapError_ok huser) hfind row).mp hmatches).1
  have hselected : (find.unlimited.selected (row.withParent parent)).rowStatus = row.rowStatus := by
    unfold FindMemo.selected
    split <;> rfl
  rw [listedKeys, hselected, hstatus, listedState, Sorting.request]
  cases hv : v.state with
  | unspecified => exact absurd hv hstate
  | normal => rfl
  | archived => rfl

theorem Sorting.listSort_eq {memos : List Api.Memo} {listed : List Memo}
    (hkeys : memos.map sortKeys = listed.map listedKeys)
    (hstate : ∀ memo ∈ listed, (listedKeys memo).state = v.state)
    (hsorted : listed.Pairwise fun a b => v.compare (listedKeys a) (listedKeys b) ≤ 0) :
    v.listSort memos = memos := by
  have hfilter : memos.filter (·.state = v.state) = memos := by
    rw [List.filter_eq_self]
    intro memo hmemo
    have hmem : sortKeys memo ∈ listed.map listedKeys := by
      rw [← hkeys]
      exact List.mem_map_of_mem hmemo
    obtain ⟨row, hrow, heq⟩ := List.mem_map.mp hmem
    have hsame : memo.state = (listedKeys row).state := congrArg SortKeys.state heq.symm
    rw [hsame, hstate row hrow]
    exact decide_eq_true rfl
  rw [Sorting.listSort, hfilter]
  apply List.mergeSort_of_pairwise
  have hpairs : (listed.map listedKeys).Pairwise fun a b => v.compare a b ≤ 0 :=
    List.pairwise_map.mpr hsorted
  rw [← hkeys] at hpairs
  exact (List.pairwise_map.mp hpairs).imp fun hle => decide_eq_true hle

/-- At every moment of scrolling through a list, while the tables stay as they are, the client shows
what it has read as it is: its own sort changes nothing, and what is shown are the first memos of
the listing without a limit, or all of them where there is no next page. -/
theorem listSort_fetchedPages (hstate : v.state ≠ .unspecified) (hproto : proto.Lawful)
    (hids : (db.memos.map (·.id)).Nodup) (hbound : ∀ row ∈ db.memos, row.id < 2147483648)
    (hparents : ((db.relations.filter (·.type = .COMMENT)).map (·.memoId)).Nodup)
    (hdates : ∀ row ∈ db.memos, IsDate row.createdTs ∧ IsDate row.updatedTs) {filter : String}
    {pageSize : Int} {calls : Nat} {pages : List MemoPage}
    (h : fetchedPages proto services db userID (v.request filter pageSize) calls = .ok pages) :
    v.listSort (pageMemos pages) = pageMemos pages ∧
      ∀ memos, UnlimitedListing services db userID (v.request filter pageSize) memos →
        (pageMemos pages).map (·.name) <+:
          (memos.filter (hasCreator db)).map (fun memo => memoName memo.uid) ∧
        (getNextPageParam pages = none → (pageMemos pages).map (·.name) =
          (memos.filter (hasCreator db)).map fun memo => memoName memo.uid) := by
  by_cases hfound : ∃ find, findMemos services db userID (v.request filter pageSize) = .ok (some find)
  · obtain ⟨find, hfind⟩ := hfound
    have hanswers := Database.answers_listMemos db find
    have hlength := hanswers.length_le hids hparents hbound
    have hfetched := fetched_of_ok hproto hfind hlength h
    have hpart := hfetched.memos (shows_sortKeys services db)
    have hnames := hfetched.memos (shows_name services db)
    have hsublist : (((db.listMemos find.unlimited).take
        (pages.length * normalizePageSize (v.request filter pageSize).pageSize)).filter
          (hasCreator db)).Sublist (db.listMemos find.unlimited) :=
      List.filter_sublist.trans (List.take_sublist _ _)
    constructor
    · apply Sorting.listSort_eq hpart
      · intro memo hmemo
        exact Sorting.shows_state hstate hfind (hsublist.subset hmemo)
      · have hdate : ∀ memo ∈ db.listMemos find.unlimited,
            IsDate memo.createdTs ∧ IsDate memo.updatedTs := by
          intro memo hmemo
          obtain ⟨row, hrow, -, parent, -, -, rfl⟩ := Database.exists_of_mem_listMemos hmemo
          unfold FindMemo.selected
          split
          · exact hdates row hrow
          · exact hdates row hrow
        refine (hanswers.sorted.sublist hsublist).imp_of_mem fun {a b} ha hb hle => ?_
        exact (Sorting.orders hfind).compare_le (hdate a (hsublist.subset ha))
          (hdate b (hsublist.subset hb)) hle
    · intro memos hmemos
      obtain rfl := (unlimitedListing_iff hids hparents hfind memos).mp hmemos
      rw [hnames]
      constructor
      · exact ((List.take_prefix _ _).filter _).map _
      · intro hend
        rw [List.take_of_length_le (hfetched.done hend)]
  · have hnone : ∀ find, findMemos services db userID (v.request filter pageSize) ≠
        .ok (some find) := fun find hfind => hfound ⟨find, hfind⟩
    rw [pageMemos_eq_nil hnone h]
    constructor
    · simp [Sorting.listSort]
    · intro memos hmemos
      unfold UnlimitedListing at hmemos
      split at hmemos
      · cases hmemos
      · rw [hmemos]
        exact ⟨List.nil_prefix, fun _ => rfl⟩
      · rename_i find hfind
        exact absurd hfind (hnone find)

def explore : Sorting := ⟨false, .normal, false, .create_time⟩

def exploreFind : FindMemo where
  excludeComments := true
  rowStatus := some .normal
  visibilityList := [.Public]

theorem findMemos_explore :
    findMemos albumServices twoMemos 0 (explore.request "" 1) = .ok (some exploreFind) := by
  have horder : explore.orderBy = "create_time desc" := by decide
  have hrequest : explore.request "" 1 = ⟨1, none, .normal, "create_time desc", ""⟩ := by
    rw [Sorting.request, horder]
    rfl
  rw [hrequest]
  rfl

theorem listSort_fetchedPages_explore :
    ∃ pages, fetchedPages wirePageToken albumServices twoMemos 0 (explore.request "" 1) 2 =
        .ok pages ∧
      explore.listSort (pageMemos pages) = pageMemos pages ∧
      (pageMemos pages).map (·.name) <+: ["memos/second", "memos/first"] := by
  have hids : (twoMemos.memos.map (·.id)).Nodup := by decide
  have hbound : ∀ row ∈ twoMemos.memos, row.id < 2147483648 := by decide
  have hparents : ((twoMemos.relations.filter (·.type = .COMMENT)).map (·.memoId)).Nodup :=
    List.nodup_nil
  have hdates : ∀ row ∈ twoMemos.memos, IsDate row.createdTs ∧ IsDate row.updatedTs := by
    unfold IsDate
    decide
  have hlength := (Database.answers_listMemos twoMemos exploreFind).length_le hids hparents hbound
  obtain ⟨pages, hpages⟩ := exists_fetchedPages wirePageToken_lawful
    (fun content => ⟨content, rfl⟩) findMemos_explore hlength 2
  have hlisting : UnlimitedListing albumServices twoMemos 0 (explore.request "" 1)
      (twoMemos.memos.map (·.withParent none)).reverse := by
    unfold UnlimitedListing
    rw [findMemos_explore]
    constructor
    · exact List.reverse_perm _
    · refine List.pairwise_cons.mpr ⟨fun memo hmemo => ?_, List.pairwise_singleton _ _⟩
      obtain rfl := List.mem_singleton.mp hmemo
      rfl
  obtain ⟨hsame, hshown⟩ := listSort_fetchedPages (by decide) wirePageToken_lawful hids hbound
    hparents hdates hpages
  exact ⟨pages, hpages, hsame, (hshown _ hlisting).1⟩

end shown

end Memoark.Web
