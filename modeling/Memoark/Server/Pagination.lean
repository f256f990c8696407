import Memoark.Go.Base64
import Memoark.Go.Protowire
import Memoark.Server.ListPages

/-! Following `next_page_token` through `ListMemos`, with the page tokens of `common.go`. -/
namespace Memoark.Server
open Store

section tokens

structure ProtoPageToken where
  marshal : PageToken → List UInt8
  unmarshal : List UInt8 → Except String PageToken

/-- A message of two `int32` survives its coding, and no bytes are the message with no field set. -/
structure ProtoPageToken.Lawful (proto : ProtoPageToken) : Prop where
  unmarshal_marshal : ∀ token, Go.Protowire.InInt32 token.limit →
    Go.Protowire.InInt32 token.offset → proto.unmarshal (proto.marshal token) = .ok token
  unmarshal_nil : proto.unmarshal [] = .ok ⟨0, 0⟩

variable (proto : ProtoPageToken)

def marshalPageToken (pageToken : PageToken) : String :=
  Go.Base64.encodeToString (proto.marshal pageToken)

def unmarshalPageToken (s : String) : Except String PageToken := do
  let b ← (Go.Base64.decodeString s).mapError ("failed to decode page token: " ++ ·)
  (proto.unmarshal b).mapError ("failed to unmarshal page token: " ++ ·)

variable {proto} {limit offset : Nat}

theorem unmarshal_getPageToken (h : proto.Lawful) (hlimit : limit < 2147483648)
    (hoffset : offset < 2147483648) :
    unmarshalPageToken proto (marshalPageToken proto (getPageToken limit offset)) =
      .ok ⟨limit, offset⟩ := by
  have hmessage := h.unmarshal_marshal ⟨limit, offset⟩ (Go.Protowire.inInt32_natCast hlimit)
    (Go.Protowire.inInt32_natCast hoffset)
  rw [getPageToken_eq hlimit hoffset, marshalPageToken, unmarshalPageToken,
    Go.Base64.decodeString_encodeToString]
  simp only [Except.mapError, bind, Except.bind, hmessage]

theorem marshal_getPageToken_ne (h : proto.Lawful) (hpos : 0 < limit) (hlimit : limit < 2147483648)
    (hoffset : offset < 2147483648) :
    marshalPageToken proto (getPageToken limit offset) ≠ "" := by
  intro hempty
  have htoken := unmarshal_getPageToken h hlimit hoffset
  have hzero : unmarshalPageToken proto "" = .ok ⟨0, 0⟩ := by
    have hdecode : Go.Base64.decodeString "" = .ok [] := rfl
    rw [unmarshalPageToken, hdecode]
    simp only [Except.mapError, bind, Except.bind, h.unmarshal_nil]
  rw [hempty, hzero] at htoken
  injection htoken with htoken
  injection htoken with hlimit
  omega

end tokens

section listing

structure MemoPage where
  memos : List Api.Memo
  nextPageToken : String

variable (proto : ProtoPageToken) (services : Services) (db : Database) (userID : Nat)
  (request : ListMemosRequest)

/-- The request for the page of a token, which is absent if it is empty. -/
def ListMemosRequest.withPageToken (pageToken : String) : ListMemosRequest :=
  { request with
    pageToken := if pageToken = "" then none else some (unmarshalPageToken proto pageToken) }

def listMemosPage (pageToken : String) : Except Status MemoPage :=
  (listMemos services db userID (request.withPageToken proto pageToken)).map fun response =>
    ⟨response.memos, (response.nextPageToken.map (marshalPageToken proto)).getD ""⟩

def followPages : Nat → String → Option (Except Status (List Api.Memo))
  | 0, _ => none
  | fuel + 1, pageToken =>
    match listMemosPage proto services db userID request pageToken with
    | .error err => some (.error err)
    | .ok page =>
      if page.nextPageToken = "" then some (.ok page.memos)
      else (followPages fuel page.nextPageToken).map fun rest => rest.map (page.memos ++ ·)

/-- What a single listing without a limit may give, in any order that SQL allows it. -/
def UnlimitedListing (memos : List Memo) : Prop :=
  match findMemos services db userID request with
  | .error _ => False
  | .ok none => memos = []
  | .ok (some find) => db.Answers find memos

def MeetsFilter (row : MemoRecord) : Prop :=
  request.filter = "" ∨
    ∃ condition, services.compileFilter request.filter = .ok condition ∧ condition row = true

/-- Archived memos are seen by their creator, private ones too, and protected ones by any user. -/
def VisibleTo (user : Option UserRecord) (row : MemoRecord) : Prop :=
  match row.rowStatus, user with
  | .archived, none => False
  | .archived, some user => row.creatorId = user.id
  | .normal, none => row.visibility = .Public
  | .normal, some user => row.creatorId = user.id ∨ row.visibility ≠ .Private

/-- The row is a matching visible memo that is not a comment, and its creator exists. -/
structure Listed (user : Option UserRecord) (row : MemoRecord) : Prop where
  state : row.rowStatus = listedState request
  topLevel : TopLevel db row
  creator : ∃ creator, db.getUser row.creatorId = some creator
  filter : MeetsFilter services request row
  visible : VisibleTo user row

end listing

section pages

variable {proto : ProtoPageToken} {services : Services} {db : Database} {userID : Nat}
  {request : ListMemosRequest} {find : FindMemo}

theorem normalizePageSize_bounds (pageSize : Int) :
    0 < normalizePageSize pageSize ∧ normalizePageSize pageSize ≤ maxPageSize := by
  unfold normalizePageSize defaultPageSize maxPageSize
  split
  · omega
  · split <;> omega

theorem normalizePageSize_of_le {limit : Nat} (hpos : 0 < limit) (hle : limit ≤ maxPageSize) :
    normalizePageSize limit = limit := by
  unfold normalizePageSize
  rw [if_neg (by omega), if_neg (by omega)]
  exact Int.toNat_natCast limit

theorem pageBounds_first : pageBounds (request.withPageToken proto "") =
    .ok (normalizePageSize request.pageSize, 0) := by
  have hmin := Nat.min_eq_left (normalizePageSize_bounds request.pageSize).2
  have hbounds : pageBounds (request.withPageToken proto "") =
      .ok (min (normalizePageSize request.pageSize) maxPageSize, 0) := rfl
  rw [hbounds, hmin]

theorem pageBounds_next (hproto : proto.Lawful) {limit offset : Nat} (hpos : 0 < limit)
    (hle : limit ≤ maxPageSize) (hoffset : offset < 2147483648) :
    pageBounds (request.withPageToken proto (marshalPageToken proto (getPageToken limit offset))) =
      .ok (limit, offset) := by
  have hlimit : limit < 2147483648 := by
    unfold maxPageSize at hle
    omega
  rw [ListMemosRequest.withPageToken, if_neg (marshal_getPageToken_ne hproto hpos hlimit hoffset),
    unmarshal_getPageToken hproto hlimit hoffset]
  unfold pageBounds
  dsimp only
  rw [normalizePageSize_of_le hpos hle, Nat.min_eq_left hle, Int.toNat_natCast]

theorem exists_listMemosPage
    (hsnippet : ∀ content, ∃ snippet, services.generateSnippet content = .ok snippet)
    (hfind : findMemos services db userID request = .ok (some find)) {pageToken : String}
    {limit offset : Nat}
    (hbounds : pageBounds (request.withPageToken proto pageToken) = .ok (limit, offset)) :
    ∃ page, listMemosPage proto services db userID request pageToken = .ok page ∧
      page.memos.map (·.name) =
        ((((db.listMemos find.unlimited).drop offset).take limit).filter (hasCreator db)).map
          (fun memo => memoName memo.uid) ∧
      page.nextPageToken =
        if offset + limit < (db.listMemos find.unlimited).length then
          marshalPageToken proto (getPageToken limit (offset + limit))
        else "" := by
  have hsame : findMemos services db userID (request.withPageToken proto pageToken) =
      .ok (some find) := hfind
  obtain ⟨user, huser, -⟩ := Program.bind_ok hfind
  obtain ⟨response, hresponse⟩ := exists_listPage hsnippet (Program.mapError_ok huser) find limit
    offset
  obtain ⟨hnames, htoken⟩ := listPage_ok hresponse
  have hlist : listMemos services db userID (request.withPageToken proto pageToken) =
      .ok response := by
    rw [listMemos, hsame, hbounds]
    exact hresponse
  refine ⟨⟨response.memos, (response.nextPageToken.map (marshalPageToken proto)).getD ""⟩, ?_,
    hnames, ?_⟩
  · rw [listMemosPage, hlist]
    rfl
  · rw [htoken]
    split <;> rfl

theorem exists_followPages (hproto : proto.Lawful)
    (hsnippet : ∀ content, ∃ snippet, services.generateSnippet content = .ok snippet)
    (hfind : findMemos services db userID request = .ok (some find))
    (hlength : (db.listMemos find.unlimited).length ≤ 2147483648) {limit offset : Nat}
    (hpos : 0 < limit) (hle : limit ≤ maxPageSize) {pageToken : String}
    (hbounds : pageBounds (request.withPageToken proto pageToken) = .ok (limit, offset)) :
    ∃ fuel messages, followPages proto services db userID request fuel pageToken =
        some (.ok messages) ∧
      messages.map (·.name) =
        (((db.listMemos find.unlimited).drop offset).filter (hasCreator db)).map
          (fun memo => memoName memo.uid) := by
  obtain ⟨page, hpage, hnames, hnext⟩ := exists_listMemosPage hsnippet hfind hbounds
  by_cases hmore : offset + limit < (db.listMemos find.unlimited).length
  · have hoffset : offset + limit < 2147483648 := by omega
    have hlimit : limit < 2147483648 := by omega
    have hboundsNext : pageBounds (request.withPageToken proto
        (marshalPageToken proto (getPageToken limit (offset + limit)))) = .ok (limit, offset + limit) :=
      pageBounds_next hproto hpos hle hoffset
    obtain ⟨fuel, rest, hrest, hrestNames⟩ :=
      exists_followPages hproto hsnippet hfind hlength hpos hle hboundsNext
    refine ⟨fuel + 1, page.memos ++ rest, ?_, ?_⟩
    · rw [if_pos hmore] at hnext
      have hne : page.nextPageToken ≠ "" := by
        rw [hnext]
        exact marshal_getPageToken_ne hproto hpos hlimit hoffset
      rw [followPages, hpage]
      dsimp only
      rw [if_neg hne, hnext, hrest]
      rfl
    · rw [List.map_append, hnames, hrestNames, ← List.map_append, ← List.filter_append,
        ← List.drop_drop, List.take_append_drop]
  · refine ⟨1, page.memos, ?_, ?_⟩
    · rw [if_neg hmore] at hnext
      rw [followPages, hpage]
      dsimp only
      rw [if_pos hnext]
    · have hall : ((db.listMemos find.unlimited).drop offset).length ≤ limit := by
        rw [List.length_drop]
        omega
      rw [hnames, List.take_of_length_le hall]
termination_by (db.listMemos find.unlimited).length - offset

end pages

section listed

variable {services : Services} {db : Database} {userID : Nat} {request : ListMemosRequest}
  {user : Option UserRecord}

theorem meetsFilter_iff {filters : List (MemoRecord → Bool)}
    (h : filterStep services request = .ok filters) (row : MemoRecord) :
    filters.all (· row) = true ↔ MeetsFilter services request row := by
  rw [filterStep] at h
  unfold MeetsFilter
  split at h
  · rename_i hfilter
    obtain ⟨condition, hcondition, rfl⟩ := Program.map_ok h
    have hcompiled := Program.mapError_ok hcondition
    rw [List.all_cons, List.all_nil, Bool.and_true]
    constructor
    · intro hrow
      exact .inr ⟨condition, hcompiled, hrow⟩
    · rintro (hempty | ⟨condition', hcompiled', hrow⟩)
      · exact absurd hempty hfilter
      · rw [hcompiled] at hcompiled'
        cases hcompiled'
        exact hrow
  · rename_i hempty
    cases h
    simp only [List.all_nil, true_iff]
    exact .inl (not_not.mp hempty)

theorem findMemos_ok {found : Option FindMemo} (huser : fetchCurrentUser db userID = .ok user)
    (h : findMemos services db userID request = .ok found) :
    (listedState request = .archived ∧ user = none ∧ found = none) ∨
      ¬(listedState request = .archived ∧ user = none) ∧
        ∃ filters ordered, filterStep services request = .ok filters ∧
          Reordered { excludeComments := true
                      rowStatus := some (listedState request)
                      creatorId := if listedState request = .archived then user.map (·.id)
                        else none } ordered ∧
          found = some (visibilityStep user { ordered with filters }) := by
  rw [findMemos, currentUser, huser] at h
  obtain ⟨_, ⟨⟩, h⟩ := Program.bind_ok h
  dsimp only at h
  split at h
  · rename_i hempty
    cases h
    exact .inl ⟨hempty.1, Option.isNone_iff_eq_none.mp hempty.2, rfl⟩
  · rename_i hnonempty
    obtain ⟨ordered, hordered, h⟩ := Program.bind_ok h
    obtain ⟨filters, hfilters, h⟩ := Program.bind_ok h
    cases h
    refine .inr ⟨?_, filters, ordered, hfilters, orderStep_reordered hordered, rfl⟩
    rintro ⟨harchived, rfl⟩
    exact hnonempty ⟨harchived, rfl⟩

theorem matchesRow_iff {find : FindMemo} (huser : fetchCurrentUser db userID = .ok user)
    (h : findMemos services db userID request = .ok (some find)) (row : MemoRecord) :
    find.matchesRow row = true ↔
      row.rowStatus = listedState request ∧ MeetsFilter services request row ∧
        VisibleTo user row := by
  obtain ⟨-, -, hfound⟩ | ⟨hnonempty, filters, ordered, hfilters, hordered, hfound⟩ :=
    findMemos_ok huser h
  · cases hfound
  · obtain ⟨_, _, _, rfl⟩ := hordered
    cases hfound
    rw [← meetsFilter_iff hfilters row]
    cases hstate : listedState request with
    | normal =>
      cases user with
      | none =>
        cases hrow : row.rowStatus <;>
          simp [VisibleTo, visibilityStep, FindMemo.matchesRow, asked, askedIn, hrow]
      | some user =>
        cases hrow : row.rowStatus <;> cases hvisibility : row.visibility <;>
          simp [VisibleTo, visibilityStep, FindMemo.matchesRow, asked, askedIn, relationFilter,
            hrow, hvisibility]
    | archived =>
      cases user with
      | none => exact absurd ⟨hstate, rfl⟩ hnonempty
      | some user =>
        cases hrow : row.rowStatus <;>
          simp [VisibleTo, visibilityStep, FindMemo.matchesRow, asked, askedIn, hrow,
            eq_comm (a := user.id), and_comm]

theorem mem_listing_iff {find : FindMemo} (hkeys : db.Keys)
    (hparents : ((db.relations.filter (·.type = .COMMENT)).map (·.memoId)).Nodup)
    (huser : fetchCurrentUser db userID = .ok user)
    (h : findMemos services db userID request = .ok (some find)) {row : MemoRecord}
    (hrow : row ∈ db.memos) :
    memoName row.uid ∈ ((db.listMemos find.unlimited).filter (hasCreator db)).map
        (fun memo => memoName memo.uid) ↔
      Listed services db request user row := by
  obtain ⟨hcomments, hcontent⟩ := findMemos_shape h
  have hselected : ∀ memo, find.unlimited.selected memo = memo := by
    intro memo
    unfold FindMemo.selected
    exact if_neg (by rw [FindMemo.unlimited, hcontent]; exact Bool.false_ne_true)
  constructor
  · intro hname
    obtain ⟨memo, hmemo, hname⟩ := List.mem_map.mp hname
    obtain ⟨hmemo, hcreator⟩ := List.mem_filter.mp hmemo
    obtain ⟨row', hrow', hmatches, parent, hparent, hnone, hmemo⟩ :=
      Database.exists_of_mem_listMemos hmemo
    rw [hselected] at hmemo
    subst hmemo
    obtain rfl := hkeys.row_eq_of_uid hrow' hrow (memoName_inj hname)
    obtain ⟨hstate, hfilter, hvisible⟩ := (matchesRow_iff huser h row').mp hmatches
    refine ⟨hstate, ?_, Option.isSome_iff_exists.mp hcreator, hfilter, hvisible⟩
    -- A row is joined with one parent, and this one is none.
    intro parent' hparent'
    have hlength := Database.parents_length_le hparents row'
    obtain ⟨only, honly⟩ := List.length_eq_one_iff.mp
      (Nat.le_antisymm hlength (List.length_pos_of_mem hparent))
    rw [honly, List.mem_singleton] at hparent hparent'
    rw [hparent', ← hparent]
    simpa [FindMemo.matchesParent, FindMemo.unlimited, hcomments] using hnone
  · intro hlisted
    obtain ⟨parent, hparent⟩ := List.exists_mem_of_ne_nil _ (Database.parents_ne_nil db row)
    obtain rfl := hlisted.topLevel parent hparent
    have hmatches := (matchesRow_iff huser h row).mpr
      ⟨hlisted.state, hlisted.filter, hlisted.visible⟩
    have hnone : find.unlimited.matchesParent none = true := by simp [FindMemo.matchesParent]
    have hmemo := @Database.mem_listMemos_of_row db find.unlimited rfl row hrow hmatches none hparent
      hnone
    rw [hselected] at hmemo
    refine List.mem_map.mpr ⟨row.withParent none, List.mem_filter.mpr ⟨hmemo, ?_⟩, rfl⟩
    exact Option.isSome_iff_exists.mpr hlisted.creator

theorem unlimitedListing_iff {find : FindMemo} (hids : (db.memos.map (·.id)).Nodup)
    (hparents : ((db.relations.filter (·.type = .COMMENT)).map (·.memoId)).Nodup)
    (h : findMemos services db userID request = .ok (some find)) (memos : List Memo) :
    UnlimitedListing services db userID request memos ↔ memos = db.listMemos find.unlimited := by
  have hanswers := Database.answers_listMemos db find
  unfold UnlimitedListing
  rw [h]
  constructor
  · intro hmemos
    exact Database.Answers.eq hids hparents hmemos hanswers
  · rintro rfl
    exact hanswers

/-- From the first page on, following the tokens ends, with the names of the listing without a
limit: each row that is to be listed, once. -/
theorem followPages_exact {proto : ProtoPageToken} (hproto : proto.Lawful) (hkeys : db.Keys)
    (hids : ∀ row ∈ db.memos, row.id < 2147483648)
    (hparents : ((db.relations.filter (·.type = .COMMENT)).map (·.memoId)).Nodup)
    (hsnippet : ∀ content, ∃ snippet, services.generateSnippet content = .ok snippet)
    (huser : fetchCurrentUser db userID = .ok user) {found : Option FindMemo}
    (hfound : findMemos services db userID request = .ok found) :
    ∃ fuel messages memos,
      followPages proto services db userID request fuel "" = some (.ok messages) ∧
      (∀ memos', UnlimitedListing services db userID request memos' ↔ memos' = memos) ∧
      messages.map (·.name) =
        (memos.filter (hasCreator db)).map (fun memo => memoName memo.uid) ∧
      (messages.map (·.name)).Nodup ∧
      ∀ row ∈ db.memos, memoName row.uid ∈ messages.map (·.name) ↔
        Listed services db request user row := by
  cases found with
  | none =>
    have hempty : listMemosPage proto services db userID request "" = .ok ⟨[], ""⟩ := by
      have hlist : listMemos services db userID (request.withPageToken proto "") =
          .ok ⟨[], none⟩ := by
        have hsame : findMemos services db userID (request.withPageToken proto "") = .ok none :=
          hfound
        rw [listMemos, hsame]
        rfl
      rw [listMemosPage, hlist]
      rfl
    refine ⟨1, [], [], ?_, ?_, rfl, List.nodup_nil, ?_⟩
    · rw [followPages, hempty]
      rfl
    · intro memos
      unfold UnlimitedListing
      rw [hfound]
    · intro row _
      obtain ⟨harchived, rfl, -⟩ | ⟨-, _, _, -, -, hsome⟩ := findMemos_ok huser hfound
      · constructor
        · intro hname
          cases hname
        · intro hlisted
          have hvisible := hlisted.visible
          unfold VisibleTo at hvisible
          rw [hlisted.state, harchived] at hvisible
          cases hvisible
      · cases hsome
  | some find =>
    have hanswers := Database.answers_listMemos db find
    have hlength := hanswers.length_le hkeys.memoIds hparents hids
    obtain ⟨hpos, hle⟩ := normalizePageSize_bounds request.pageSize
    obtain ⟨fuel, messages, hfollow, hnames⟩ := exists_followPages hproto hsnippet hfound hlength
      hpos hle pageBounds_first
    rw [List.drop_zero] at hnames
    refine ⟨fuel, messages, _, hfollow, unlimitedListing_iff hkeys.memoIds hparents hfound, hnames,
      ?_, fun row hrow => ?_⟩
    · have hnodup := hanswers.nodup_uids hkeys.memoUids hparents
      have hsublist := (List.filter_sublist (p := hasCreator db)
        (l := db.listMemos find.unlimited)).map (·.uid)
      have hnodup := (hsublist.nodup hnodup).map (f := memoName) fun _ _ => memoName_inj
      rw [List.map_map] at hnodup
      rw [hnames]
      exact hnodup
    · rw [hnames]
      exact mem_listing_iff hkeys hparents huser hfound hrow

end listed

section wire

open Go.Protowire

def consumeFields : Nat → List UInt8 → PageToken → Option PageToken
  | 0, bytes, token => if bytes = [] then some token else none
  | fuel + 1, bytes, token =>
    if bytes = [] then some token
    else do
      let (tag, rest) ← consumeVarint 0 bytes
      let (v, rest) ← consumeVarint 0 rest
      if tag = 8 then consumeFields fuel rest { token with limit := toInt32 v }
      else if tag = 16 then consumeFields fuel rest { token with offset := toInt32 v }
      else none

/-- The wire format of a `PageToken`; a field of any other message is an error here. -/
def wirePageToken : ProtoPageToken where
  marshal token := appendInt32 1 token.limit ++ appendInt32 2 token.offset
  unmarshal bytes :=
    match consumeFields bytes.length bytes ⟨0, 0⟩ with
    | some token => .ok token
    | none => .error "proto: cannot parse invalid wire-format data"

theorem consumeFields_field {num : Nat} (hnum : num = 1 ∨ num = 2) {v : Int} (h : InInt32 v)
    (hne : v ≠ 0) (fuel : Nat) (rest : List UInt8) (token : PageToken) :
    consumeFields (fuel + 1) (appendInt32 num v ++ rest) token =
      consumeFields fuel rest
        (if num = 1 then { token with limit := v } else { token with offset := v }) := by
  have hnil : appendInt32 num v ++ rest ≠ [] := by
    rw [appendInt32, if_neg hne]
    intro hnil
    exact appendVarint_ne_nil _ (List.append_eq_nil_iff.mp (List.append_eq_nil_iff.mp hnil).1).1
  have htag := consumeVarint_appendVarint (num * 8)
    (appendVarint (v % 18446744073709551616).toNat ++ rest) (Nat.zero_le 9) (by omega)
  have hvalue := consumeVarint_appendVarint (v % 18446744073709551616).toNat rest (Nat.zero_le 9)
    (bits_lt v)
  rw [consumeFields, if_neg hnil, appendInt32, if_neg hne, List.append_assoc, htag]
  simp only [Option.bind_eq_bind, Option.bind_some, hvalue, toInt32_bits h]
  rcases hnum with rfl | rfl <;> rfl

theorem consumeFields_nil (fuel : Nat) (token : PageToken) :
    consumeFields fuel [] token = some token := by
  cases fuel <;> rfl

theorem appendInt32_length {num : Nat} {v : Int} (hne : v ≠ 0) :
    0 < (appendInt32 num v).length := by
  rw [appendInt32, if_neg hne]
  exact List.length_pos_of_ne_nil
    fun hnil => appendVarint_ne_nil _ (List.append_eq_nil_iff.mp hnil).1

theorem consumeFields_offset {offset : Int} (h : InInt32 offset) (limit : Int) {fuel : Nat}
    (hfuel : (appendInt32 2 offset).length ≤ fuel) :
    consumeFields fuel (appendInt32 2 offset) ⟨limit, 0⟩ = some ⟨limit, offset⟩ := by
  by_cases hzero : offset = 0
  · subst hzero
    exact consumeFields_nil fuel _
  · have hpos := @appendInt32_length 2 offset hzero
    obtain ⟨rest, rfl⟩ := Nat.exists_eq_add_of_lt (Nat.lt_of_lt_of_le hpos hfuel)
    rw [← List.append_nil (appendInt32 2 offset), consumeFields_field (.inr rfl) h hzero,
      consumeFields_nil]
    rfl

theorem wirePageToken_lawful : wirePageToken.Lawful where
  unmarshal_nil := rfl
  unmarshal_marshal := by
    rintro ⟨limit, offset⟩ hlimit hoffset
    have hfields : consumeFields (wirePageToken.marshal ⟨limit, offset⟩).length
        (wirePageToken.marshal ⟨limit, offset⟩) ⟨0, 0⟩ = some ⟨limit, offset⟩ := by
      change consumeFields (appendInt32 1 limit ++ appendInt32 2 offset).length
        (appendInt32 1 limit ++ appendInt32 2 offset) ⟨0, 0⟩ = _
      by_cases hzero : limit = 0
      · subst hzero
        exact consumeFields_offset hoffset 0 (Nat.le_refl _)
      · have hpos := @appendInt32_length 1 limit hzero
        obtain ⟨fuel, hfuel⟩ := Nat.exists_eq_add_of_lt hpos
        have hlength : (appendInt32 1 limit ++ appendInt32 2 offset).length =
            fuel + (appendInt32 2 offset).length + 1 := by
          rw [List.length_append]
          omega
        rw [hlength, consumeFields_field (.inl rfl) hlimit hzero]
        exact consumeFields_offset hoffset limit (Nat.le_add_left _ _)
    change (match consumeFields (wirePageToken.marshal ⟨limit, offset⟩).length
        (wirePageToken.marshal ⟨limit, offset⟩) ⟨0, 0⟩ with | some token => _ | none => _) = _
    rw [hfields]

def twoMemos : Database where
  users := [⟨1, .normal, "ada", .USER⟩]
  memos := [⟨1, "first", 1, 5, 5, .normal, "", .Public, false, ⟨none, none, []⟩⟩,
    ⟨2, "second", 1, 5, 5, .normal, "", .Public, false, ⟨none, none, []⟩⟩]
  relations := []
  attachments := []
  reactions := []

/-- In pages of one memo, the last stored comes first. -/
theorem followPages_exact_two : ∃ fuel messages,
    followPages wirePageToken albumServices twoMemos 0 ⟨1, none, .normal, "", ""⟩ fuel "" =
        some (.ok messages) ∧
      messages.map (·.name) = ["memos/second", "memos/first"] := by
  have hkeys : twoMemos.Keys := ⟨by decide, by decide, by decide, by decide⟩
  obtain ⟨fuel, messages, memos, hfollow, hlisting, hnames, -, -⟩ :=
    @followPages_exact albumServices twoMemos 0 ⟨1, none, .normal, "", ""⟩ none wirePageToken
      wirePageToken_lawful hkeys (by decide) List.nodup_nil (fun content => ⟨content, rfl⟩) rfl _ rfl
  have hmemos : UnlimitedListing albumServices twoMemos 0 ⟨1, none, .normal, "", ""⟩
      (twoMemos.memos.map (·.withParent none)).reverse := by
    constructor
    · exact List.reverse_perm _
    · refine List.pairwise_cons.mpr ⟨fun memo hmemo => ?_, List.pairwise_singleton _ _⟩
      obtain rfl := List.mem_singleton.mp hmemo
      rfl
  obtain rfl := (hlisting _).mp hmemos
  exact ⟨fuel, messages, hfollow, hnames⟩

end wire

end Memoark.Server
