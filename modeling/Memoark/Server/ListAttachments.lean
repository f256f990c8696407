import Memoark.Go.Strings
import Memoark.Paging.Ties
import Memoark.Program.Returns
import Memoark.Server.MemoMessages

/-! `ListAttachments`, and following its page tokens. -/
namespace Memoark.Server.AttachmentPages
open Store Paging

structure ListAttachmentsRequest where
  pageSize : Int
  pageToken : String
  filter : String

structure ListAttachmentsResponse where
  attachments : List Api.Attachment
  totalSize : Nat
  nextPageToken : String

structure FindAttachment where
  creatorId : Nat
  filters : List (AttachmentRecord → Bool)
  limit : Nat
  offset : Int

abbrev CompileFilter := String → Except String (AttachmentRecord → Bool)

def limitOf (pageSize : Int) : Nat :=
  if pageSize ≤ 0 then 50
  else if 1000 < pageSize then 1000
  else pageSize.toNat

def offsetOf (pageToken : String) : Except Status Int :=
  if pageToken ≠ "" then
    match Go.sscanfInt pageToken with
    | some offset => .ok offset
    | none => .error ⟨.InvalidArgument, "invalid page token"⟩
  else .ok 0

def filterStep (compile : CompileFilter) (filter : String) :
    Except Status (List (AttachmentRecord → Bool)) :=
  if filter ≠ "" then
    ((compile filter).mapError fun err => ⟨.InvalidArgument, "invalid filter: " ++ err⟩).map ([·])
  else .ok []

section handler

variable (compile : CompileFilter) (db : Database) (userID : Nat)

def findAttachments (request : ListAttachmentsRequest) : Except Status FindAttachment := do
  let user ← currentUser db userID "failed to get current user"
  match user with
  | none => .error ⟨.Unauthenticated, "user not authenticated"⟩
  | some user =>
    let offset ← offsetOf request.pageToken
    let filters ← filterStep compile request.filter
    return ⟨user.id, filters, limitOf request.pageSize, offset⟩

/-- The rows of the query, whose only order is that of the update times, the newest first. -/
def rowsOf (creatorId : Nat) (filters : List (AttachmentRecord → Bool)) : List AttachmentRecord :=
  db.attachments.filter fun a => a.creatorId = creatorId ∧ filters.all (· a)

/-- The handler, when the database lists the rows of the query as given. SQLite reads an offset
below zero as zero; the other databases refuse it. -/
def listAttachments (request : ListAttachmentsRequest) (listing : List AttachmentRecord) :
    Except Status ListAttachmentsResponse := do
  let find ← findAttachments compile db userID request
  let attachments := (listing.drop find.offset.toNat).take find.limit
  return {
    attachments := attachments.map (convertAttachmentFromStore db)
    totalSize := attachments.length
    nextPageToken :=
      if attachments.length = find.limit then toString (find.offset + find.limit) else "" }

/-- The attachments of the pages from a token on until there is no next one; `none` is out of
fuel. Each query may list its rows in an order of its own. -/
def followPages (request : ListAttachmentsRequest) (listings : Nat → List AttachmentRecord) :
    Nat → Nat → String → Option (Except Status (List Api.Attachment))
  | 0, _, _ => none
  | fuel + 1, query, pageToken =>
    match listAttachments compile db userID { request with pageToken } (listings query) with
    | .error err => some (.error err)
    | .ok response =>
      if response.nextPageToken = "" then some (.ok response.attachments)
      else
        (followPages request listings fuel (query + 1) response.nextPageToken).map fun rest =>
          rest.map (response.attachments ++ ·)

/-- Following the tokens from the first page comes to an end and shows every row once, in
whichever order the database lists rows of one update time. -/
def Exact (request : ListAttachmentsRequest) (rows : List AttachmentRecord) : Prop :=
  ∀ listings : Nat → List AttachmentRecord,
    (∀ query, Listing AttachmentRecord.updatedTs rows (listings query)) →
      ∃ fuel messages,
        followPages compile db userID request listings fuel 0 "" = some (.ok messages) ∧
          messages.Perm (rows.map (convertAttachmentFromStore db))

def TokenValid (request : ListAttachmentsRequest) (pageToken : String) : Prop :=
  ∀ find, findAttachments compile db userID { request with pageToken } = .ok find →
    0 ≤ find.offset

end handler

section token

theorem limitOf_pos (pageSize : Int) : 0 < limitOf pageSize := by
  unfold limitOf
  split
  · omega
  · split <;> omega

theorem offsetOf_neg_iff (pageToken : String) :
    (∃ offset, offsetOf pageToken = .ok offset ∧ offset < 0) ↔ Go.BeginsNegative pageToken := by
  by_cases hempty : pageToken = ""
  · subst hempty
    refine iff_of_false ?_ ?_
    · rintro ⟨offset, hoffset, hneg⟩
      cases hoffset
      omega
    · rintro ⟨cs, n, hcs, -⟩
      cases hcs
  · rw [← Go.sscanfInt_neg_iff, offsetOf, if_pos hempty]
    cases hscan : Go.sscanfInt pageToken with
    | none => simp
    | some offset => simp

theorem offsetOf_toString {n : Nat} (h : n < 9223372036854775808) :
    offsetOf (toString n) = .ok (n : Int) := by
  have hne : toString n ≠ "" := by
    intro hempty
    have hscan := Go.sscanfInt_toString h
    rw [hempty] at hscan
    cases hscan
  rw [offsetOf, if_pos hne, Go.sscanfInt_toString h]

end token

section pages

variable {compile : CompileFilter} {db : Database} {userID : Nat} {user : UserRecord}
  {request : ListAttachmentsRequest} {filters : List (AttachmentRecord → Bool)}

theorem findAttachments_ok (huser : fetchCurrentUser db userID = .ok (some user))
    (hfilter : filterStep compile request.filter = .ok filters) {pageToken : String} {offset : Int}
    (htoken : offsetOf pageToken = .ok offset) :
    findAttachments compile db userID { request with pageToken } =
      .ok ⟨user.id, filters, limitOf request.pageSize, offset⟩ := by
  rw [findAttachments, currentUser, huser]
  dsimp only
  rw [htoken, hfilter]
  rfl

theorem tokenValid_iff (huser : fetchCurrentUser db userID = .ok (some user))
    (hfilter : filterStep compile request.filter = .ok filters) (pageToken : String) :
    TokenValid compile db userID request pageToken ↔ ¬ Go.BeginsNegative pageToken := by
  rw [← offsetOf_neg_iff]
  constructor
  · rintro hvalid ⟨offset, hoffset, hneg⟩
    have := hvalid _ (findAttachments_ok huser hfilter hoffset)
    dsimp only at this
    omega
  · intro hnone find hfind
    cases htoken : offsetOf pageToken with
    | error err =>
      rw [findAttachments, currentUser, huser] at hfind
      dsimp only at hfind
      rw [htoken] at hfind
      cases hfind
    | ok offset =>
      rw [findAttachments_ok huser hfilter htoken] at hfind
      cases hfind
      by_contra hneg
      exact hnone ⟨offset, htoken, Int.not_le.mp hneg⟩

def tokenAt (limit query : Nat) : String := if query = 0 then "" else toString (query * limit)

theorem offsetOf_tokenAt {limit query : Nat} (h : query * limit < 9223372036854775808) :
    offsetOf (tokenAt limit query) = .ok ((query * limit : Nat) : Int) := by
  by_cases hzero : query = 0
  · subst hzero
    simp [tokenAt, offsetOf]
  · rw [tokenAt, if_neg hzero]
    exact offsetOf_toString h

theorem toString_natCast_ne_empty (n : Nat) : toString (n : Int) ≠ "" := by
  intro hempty
  have hlist := congrArg String.toList hempty
  have hdigits : (toString (n : Int)).toList = Nat.toDigits 10 n := by
    simp [toString, Nat.repr, Int.repr]
  rw [hdigits] at hlist
  exact Nat.toDigits_ne_nil hlist

def pageOf (limit : Nat) (listings : Nat → List AttachmentRecord) (query : Nat) :
    List AttachmentRecord :=
  ((listings query).drop (query * limit)).take limit

theorem listAttachments_page (huser : fetchCurrentUser db userID = .ok (some user))
    (hfilter : filterStep compile request.filter = .ok filters)
    (listings : Nat → List AttachmentRecord) {query : Nat}
    (hquery : query * limitOf request.pageSize < 9223372036854775808) :
    listAttachments compile db userID
        { request with pageToken := tokenAt (limitOf request.pageSize) query } (listings query) =
      .ok ⟨(pageOf (limitOf request.pageSize) listings query).map (convertAttachmentFromStore db),
        (pageOf (limitOf request.pageSize) listings query).length,
        if (pageOf (limitOf request.pageSize) listings query).length = limitOf request.pageSize then
          tokenAt (limitOf request.pageSize) (query + 1) else ""⟩ := by
  have hfind := findAttachments_ok huser hfilter (offsetOf_tokenAt hquery)
  have hnext : toString (((query * limitOf request.pageSize : Nat) : Int) +
      (limitOf request.pageSize : Int)) = tokenAt (limitOf request.pageSize) (query + 1) := by
    rw [tokenAt, if_neg (Nat.succ_ne_zero query), ← Int.natCast_add, Nat.succ_mul]
    rfl
  rw [listAttachments, hfind]
  change Except.ok _ = Except.ok _
  congr 1
  dsimp only
  rw [Int.toNat_natCast, hnext]
  rfl

variable {listings : Nat → List AttachmentRecord} {rows : List AttachmentRecord}

theorem tokenAt_succ_ne_empty (limit query : Nat) : tokenAt limit (query + 1) ≠ "" := by
  rw [tokenAt, if_neg (Nat.succ_ne_zero query)]
  exact toString_natCast_ne_empty _

theorem length_pageOf {limit query : Nat} (hpos : 0 < limit)
    (hlength : (listings query).length = rows.length) :
    (pageOf limit listings query).length = limit ↔ (query + 1) * limit ≤ rows.length := by
  rw [pageOf, List.length_take, List.length_drop, hlength, Nat.succ_mul]
  omega

theorem followPages_rest (huser : fetchCurrentUser db userID = .ok (some user))
    (hfilter : filterStep compile request.filter = .ok filters)
    (hlength : ∀ query, (listings query).length = rows.length)
    (hrows : rows.length < 9223372036854775808) (rest query : Nat)
    (hlast : query + rest = rows.length / limitOf request.pageSize) :
    followPages compile db userID request listings (rest + 1) query
        (tokenAt (limitOf request.pageSize) query) =
      some (.ok (((List.range' query (rest + 1)).flatMap
        (pageOf (limitOf request.pageSize) listings)).map (convertAttachmentFromStore db))) := by
  have hpos := limitOf_pos request.pageSize
  have hstart : query * limitOf request.pageSize ≤ rows.length := by
    apply (Nat.le_div_iff_mul_le hpos).mp
    omega
  have hpage := listAttachments_page huser hfilter listings (Nat.lt_of_le_of_lt hstart hrows)
  induction rest generalizing query with
  | zero =>
    have hshort : ¬ (pageOf (limitOf request.pageSize) listings query).length =
        limitOf request.pageSize := by
      rw [length_pageOf hpos (hlength query), ← Nat.le_div_iff_mul_le hpos]
      omega
    rw [if_neg hshort] at hpage
    rw [followPages, hpage]
    dsimp only
    rw [if_pos rfl]
    simp
  | succ rest ih =>
    have hfull : (pageOf (limitOf request.pageSize) listings query).length =
        limitOf request.pageSize := by
      rw [length_pageOf hpos (hlength query), ← Nat.le_div_iff_mul_le hpos]
      omega
    have hnextStart : (query + 1) * limitOf request.pageSize ≤ rows.length :=
      (length_pageOf hpos (hlength query)).mp hfull
    have hrest := ih (query + 1) (by omega) hnextStart
      (listAttachments_page huser hfilter listings (Nat.lt_of_le_of_lt hnextStart hrows))
    rw [if_pos hfull] at hpage
    rw [followPages, hpage]
    dsimp only
    have hrange : List.range' query (rest + 1 + 1) = query :: List.range' (query + 1) (rest + 1) :=
      List.range'_succ
    rw [if_neg (tokenAt_succ_ne_empty _ _), hrest, Option.map_some, hrange, List.flatMap_cons,
      List.map_append]
    rfl

theorem followPages_mono {fuel fuel' query : Nat} {pageToken : String}
    {result : Except Status (List Api.Attachment)} (hle : fuel ≤ fuel')
    (h : followPages compile db userID request listings fuel query pageToken = some result) :
    followPages compile db userID request listings fuel' query pageToken = some result := by
  induction fuel generalizing fuel' query pageToken result with
  | zero => cases h
  | succ fuel ih =>
    obtain ⟨fuel', rfl⟩ : ∃ k, fuel' = k + 1 := ⟨fuel' - 1, by omega⟩
    rw [followPages] at h ⊢
    cases hlist : listAttachments compile db userID { request with pageToken } (listings query) with
    | error err =>
      rw [hlist] at h
      exact h
    | ok response =>
      rw [hlist] at h
      dsimp only at h ⊢
      by_cases hlast : response.nextPageToken = ""
      · rw [if_pos hlast] at h ⊢
        exact h
      · rw [if_neg hlast] at h ⊢
        obtain ⟨rest, hrest, hresult⟩ := Option.map_eq_some_iff.mp h
        rw [ih (by omega) hrest]
        exact congrArg some hresult

theorem followPages_first (huser : fetchCurrentUser db userID = .ok (some user))
    (hfilter : filterStep compile request.filter = .ok filters)
    (hlength : ∀ query, (listings query).length = rows.length)
    (hrows : rows.length < 9223372036854775808) :
    followPages compile db userID request listings
        (rows.length / limitOf request.pageSize + 1) 0 "" =
      some (.ok ((Paging.pages (limitOf request.pageSize) listings
        (rows.length / limitOf request.pageSize + 1)).map (convertAttachmentFromStore db))) := by
  have hrest := followPages_rest huser hfilter hlength hrows
    (rows.length / limitOf request.pageSize) 0 (Nat.zero_add _)
  rw [← List.range_eq_range'] at hrest
  exact hrest

theorem length_le_pages (rows : List AttachmentRecord) (pageSize : Int) :
    rows.length ≤ (rows.length / limitOf pageSize + 1) * limitOf pageSize := by
  have hlt := Nat.lt_div_mul_add (limitOf_pos pageSize) (a := rows.length)
  rw [Nat.succ_mul]
  omega

theorem exact_of_not_straddles (huser : fetchCurrentUser db userID = .ok (some user))
    (hfilter : filterStep compile request.filter = .ok filters)
    (hrows : rows.length < 9223372036854775808)
    (hties : ∀ query, ¬ Straddles AttachmentRecord.updatedTs rows
      (query * limitOf request.pageSize)) :
    Exact compile db userID request rows := by
  intro listings hlistings
  have hlength : ∀ query, (listings query).length = rows.length := fun query =>
    (hlistings query).perm.length_eq
  have hpages := pages_perm hlistings hties (length_le_pages rows request.pageSize)
  exact ⟨_, _, followPages_first huser hfilter hlength hrows, hpages.map _⟩

theorem nodup_messages (huids : (rows.map (·.uid)).Nodup) :
    (rows.map (convertAttachmentFromStore db)).Nodup := by
  have hname : ∀ a b : AttachmentRecord,
      convertAttachmentFromStore db a = convertAttachmentFromStore db b → a.uid = b.uid := by
    intro a b hab
    have hnames : "attachments/" ++ a.uid = "attachments/" ++ b.uid :=
      congrArg Api.Attachment.name hab
    exact (String.append_right_inj "attachments/").mp hnames
  rw [List.nodup_iff_pairwise_ne, List.pairwise_map] at huids ⊢
  apply huids.imp
  intro a b hne hab
  exact hne (hname a b hab)

theorem not_exact_of_straddles (huser : fetchCurrentUser db userID = .ok (some user))
    (hfilter : filterStep compile request.filter = .ok filters)
    (huids : (rows.map (·.uid)).Nodup) (hrows : rows.length < 9223372036854775808) {query : Nat}
    (hties : Straddles AttachmentRecord.updatedTs rows (query * limitOf request.pageSize)) :
    ¬ Exact compile db userID request rows := by
  intro hexact
  have hlisting := listing_mergeSort AttachmentRecord.updatedTs rows
  obtain ⟨listings, hlistings, htwice⟩ := exists_pages_not_nodup hlisting
    (limitOf_pos request.pageSize) hties
  have hlength : ∀ query, (listings query).length = rows.length := fun query =>
    (hlistings query).perm.length_eq
  obtain ⟨fuel, messages, hfollow, hperm⟩ := hexact listings hlistings
  have hfirst := followPages_first huser hfilter hlength hrows
  have hsame := (followPages_mono (Nat.le_max_left fuel _) hfollow).symm.trans
    (followPages_mono (Nat.le_max_right fuel _) hfirst)
  cases hsame
  apply htwice _ (length_le_pages rows request.pageSize)
  exact List.Nodup.of_map _ (hperm.nodup_iff.mpr (nodup_messages huids))

/-- Pages are exact where rows of one update time do not reach over the end of a page, and tokens
are valid that do not begin with a number below zero. -/
theorem exact_iff (hkeys : (db.attachments.map (·.uid)).Nodup)
    (hcount : db.attachments.length < 9223372036854775808)
    (huser : fetchCurrentUser db userID = .ok (some user))
    (hfilter : filterStep compile request.filter = .ok filters) :
    (Exact compile db userID request (rowsOf db user.id filters) ↔
      ∀ query, ¬ Straddles AttachmentRecord.updatedTs (rowsOf db user.id filters)
        (query * limitOf request.pageSize)) ∧
    ∀ pageToken, TokenValid compile db userID request pageToken ↔
      ¬ Go.BeginsNegative pageToken := by
  have hsublist : (rowsOf db user.id filters).Sublist db.attachments := List.filter_sublist
  have hrows : (rowsOf db user.id filters).length < 9223372036854775808 :=
    Nat.lt_of_le_of_lt hsublist.length_le hcount
  have huids := (hsublist.map (·.uid)).nodup hkeys
  refine ⟨⟨?_, exact_of_not_straddles huser hfilter hrows⟩, tokenValid_iff huser hfilter⟩
  intro hexact query hties
  exact not_exact_of_straddles huser hfilter huids hrows hties hexact

end pages

section burst

def burst : Database where
  users := [⟨1, .normal, "ada", .USER⟩]
  memos := []
  relations := []
  attachments :=
    [⟨1, "a", 1, "a.jpg", "image/jpeg", 0, 5, 5, none, .LOCAL, "", none⟩,
      ⟨2, "b", 1, "b.jpg", "image/jpeg", 0, 5, 5, none, .LOCAL, "", none⟩]
  reactions := []

def compileAll : CompileFilter := fun _ => .ok fun _ => true

/-- Both stand on one page. -/
theorem exact_burst : Exact compileAll burst 1 ⟨2, "", ""⟩ (rowsOf burst 1 []) ∧
    TokenValid compileAll burst 1 ⟨2, "", ""⟩ "10 attachments" := by
  have hiff := @exact_iff compileAll burst 1 ⟨1, .normal, "ada", .USER⟩ ⟨2, "", ""⟩ []
    (by decide) (by decide) rfl rfl
  have hlimit : limitOf 2 = 2 := rfl
  constructor
  · apply hiff.1.mpr
    rintro query ⟨t, habove, hatLeast⟩
    have hle : atLeast AttachmentRecord.updatedTs (rowsOf burst 1 []) t ≤ 2 :=
      List.countP_le_length
    dsimp only at habove hatLeast
    rw [hlimit] at habove hatLeast
    omega
  · apply (hiff.2 _).mpr
    rintro ⟨cs, n, hcs, -⟩
    cases hcs

/-- With one attachment on a page, one of the two can be shown twice and the other not at all, and
a token below zero reaches the database. -/
theorem not_exact_burst : ¬ Exact compileAll burst 1 ⟨1, "", ""⟩ (rowsOf burst 1 []) ∧
    ¬ TokenValid compileAll burst 1 ⟨1, "", ""⟩ "-5" := by
  constructor
  · have hties : Straddles AttachmentRecord.updatedTs (rowsOf burst 1 []) (1 * limitOf 1) :=
      ⟨5, by decide, by decide⟩
    have huser : fetchCurrentUser burst 1 = .ok (some ⟨1, .normal, "ada", .USER⟩) := rfl
    have hfilter : filterStep compileAll "" = .ok [] := rfl
    exact not_exact_of_straddles huser hfilter (by decide) (by decide) hties
  · intro hvalid
    have hfind : findAttachments compileAll burst 1 ⟨1, "-5", ""⟩ = .ok ⟨1, [], 1, -5⟩ := rfl
    have := hvalid _ hfind
    exact absurd this (by decide)

end burst

end Memoark.Server.AttachmentPages
