import Memoark.Go.Strings
import Memoark.Program.Returns
import Memoark.Store.Database

/-! The feeds of `server/router/rss/rss.go`: the memos that are listed, and what is generated from
them. -/
namespace Memoark.Server.Rss
open Store Go Program

def maxRSSItemCount : Nat := 100

structure RSSHeading where
  title : String
  description : String

structure Profile where
  nickname : String
  email : String

/-- The store, with the heading that is read from the general setting and the profiles of users. -/
structure RSSStore extends Database where
  heading : RSSHeading
  profile : Nat → Profile

structure User where
  id : Nat
  username : String
  profile : Profile

def RSSStore.user (store : RSSStore) (row : UserRecord) : User :=
  ⟨row.id, row.username, store.profile row.id⟩

def RSSStore.getUserNamed (store : RSSStore) (username : String) : Option User :=
  (store.users.find? (·.username = username)).map store.user

structure Author where
  name : String
  email : String

structure Enclosure where
  url : String
  length : Int
  type : String

structure Item where
  title : List UInt8
  link : String
  content : String
  created : Int
  updated : Int
  author : Option Author
  enclosure : Option Enclosure

structure Feed where
  title : String
  link : String
  description : String
  created : Int
  items : List Item

/-- `c.Scheme() + "://" + c.Request().Host` -/
structure BaseURL where
  scheme : String
  host : String
  deriving DecidableEq

def BaseURL.text (base : BaseURL) : String := base.scheme ++ "://" ++ base.host

section title

def maxTitleLength : Nat := 100

def isHeadingSpace (c : Char) : Bool := c ∈ ['\t', '\n', '\x0c', '\r', ' ']

def removeHeading (title : List Char) : List Char :=
  let hashes := (title.takeWhile (· = '#')).take 6
  if hashes = [] then title else (title.drop hashes.length).dropWhile isHeadingSpace

def titleCutoff (title : List UInt8) : Nat :=
  ((List.range' 1 (maxTitleLength - 1)).reverse.find? fun i => title[i]? = some 0x20).getD
    maxTitleLength

def generateItemTitle (content : String) : List UInt8 :=
  let line := trimSpace (String.ofList (content.toList.takeWhile (· ≠ '\n')))
  let title := utf8 (trimSpace (String.ofList (removeHeading line.toList)))
  let title :=
    if maxTitleLength < title.length then title.take (titleCutoff title) ++ utf8 "..." else title
  if title = [] then utf8 "Memo" else title

def titleLine (content : String) : String :=
  let line := trimSpace (String.ofList (content.toList.takeWhile (· ≠ '\n')))
  trimSpace (String.ofList (removeHeading line.toList))

variable {cs : List Char} {title : List UInt8} {content : String} {i : Nat}

theorem trimSpace_infix (s : String) : (trimSpace s).toList <:+: s.toList := by
  have hleft : trimLeft s.toList <:+ s.toList := List.dropWhile_suffix _
  have hright : trimRight (trimLeft s.toList) <+: trimLeft s.toList := by
    have hsuffix := List.dropWhile_suffix (l := (trimLeft s.toList).reverse) isSpace
    simpa [trimRight] using List.reverse_prefix.mpr hsuffix
  rw [trimSpace, String.toList_ofList]
  exact hright.isInfix.trans hleft.isInfix

theorem removeHeading_suffix (cs : List Char) : removeHeading cs <:+ cs := by
  unfold removeHeading
  dsimp only
  split
  · exact List.suffix_rfl
  · exact (List.dropWhile_suffix _).trans (List.drop_suffix _ _)

theorem titleLine_part (content : String) :
    (titleLine content).toList <:+: content.toList.takeWhile (· ≠ '\n') := by
  have hfirst := trimSpace_infix (String.ofList (content.toList.takeWhile (· ≠ '\n')))
  rw [String.toList_ofList] at hfirst
  have hheading := (removeHeading_suffix (trimSpace
    (String.ofList (content.toList.takeWhile (· ≠ '\n')))).toList).isInfix
  have hline := trimSpace_infix (String.ofList (removeHeading (trimSpace
    (String.ofList (content.toList.takeWhile (· ≠ '\n')))).toList))
  rw [String.toList_ofList] at hline
  exact (hline.trans hheading).trans hfirst

theorem utf8EncodeChar_space {c : Char} (h : 0x20 ∈ String.utf8EncodeChar c) :
    String.utf8EncodeChar c = [0x20] := by
  rcases octet_cases h with ⟨-, hsingle⟩ | hlarge
  · exact hsingle
  · exact absurd hlarge (by decide)

theorem take_of_space (h : (cs.flatMap String.utf8EncodeChar)[i]? = some 0x20) :
    ∃ k, (cs.flatMap String.utf8EncodeChar).take i = (cs.take k).flatMap String.utf8EncodeChar := by
  induction cs generalizing i with
  | nil => cases h
  | cons c cs ih =>
    rw [List.flatMap_cons] at h ⊢
    by_cases hi : i < (String.utf8EncodeChar c).length
    · rw [List.getElem?_append_left hi] at h
      have hspace := utf8EncodeChar_space (List.mem_of_getElem? h)
      rw [hspace] at hi
      obtain rfl : i = 0 := by
        change i < 1 at hi
        omega
      exact ⟨0, rfl⟩
    · rw [List.getElem?_append_right (by omega)] at h
      obtain ⟨k, hk⟩ := ih h
      refine ⟨k + 1, ?_⟩
      rw [List.take_append, List.take_of_length_le (by omega), hk, List.take_succ_cons,
        List.flatMap_cons]

theorem titleCutoff_cases (title : List UInt8) :
    (0 < titleCutoff title ∧ titleCutoff title < maxTitleLength ∧
      title[titleCutoff title]? = some 0x20) ∨
    titleCutoff title = maxTitleLength ∧
      ∀ i, 0 < i → i < maxTitleLength → title[i]? ≠ some 0x20 := by
  unfold titleCutoff
  cases h : (List.range' 1 (maxTitleLength - 1)).reverse.find? fun i => title[i]? = some 0x20 with
  | some i =>
    left
    have hmem := List.mem_range'_1.mp (List.mem_reverse.mp (List.mem_of_find?_eq_some h))
    have hspace := List.find?_some h
    have hmax : maxTitleLength = 100 := rfl
    exact ⟨by dsimp only [Option.getD]; omega, by dsimp only [Option.getD]; omega,
      of_decide_eq_true hspace⟩
  | none =>
    refine .inr ⟨rfl, fun i hpos hlt hspace => ?_⟩
    have hmem : i ∈ (List.range' 1 (maxTitleLength - 1)).reverse := by
      rw [List.mem_reverse, List.mem_range'_1]
      omega
    exact List.find?_eq_none.mp h i hmem (decide_eq_true hspace)

theorem titleCutoff_bounds (title : List UInt8) :
    0 < titleCutoff title ∧ titleCutoff title ≤ maxTitleLength := by
  have hmax : maxTitleLength = 100 := rfl
  rcases titleCutoff_cases title with ⟨hpos, hlt, -⟩ | ⟨hcutoff, -⟩
  · exact ⟨hpos, by omega⟩
  · exact ⟨by omega, by omega⟩

theorem generateItemTitle_eq (content : String) : generateItemTitle content =
    let title := utf8 (titleLine content)
    let title :=
      if maxTitleLength < title.length then title.take (titleCutoff title) ++ utf8 "..." else title
    if title = [] then utf8 "Memo" else title := rfl

theorem utf8_eq_nil {s : String} : utf8 s = [] ↔ s = "" := by
  constructor
  · intro h
    rw [← String.ofList_toList (s := s)]
    cases hs : s.toList with
    | nil => rfl
    | cons c cs =>
      rw [utf8, hs, List.flatMap_cons] at h
      have hlen := String.length_utf8EncodeChar c
      have hpos := c.utf8Size_pos
      rw [(List.append_eq_nil_iff.mp h).1, List.length_nil] at hlen
      omega
  · rintro rfl
    rfl

/-- A title is the first line without a heading; one of more than a hundred bytes is cut, in front of
a space where there is one. -/
theorem generateItemTitle_spec (content : String) :
    (titleLine content).toList <:+: content.toList.takeWhile (· ≠ '\n') ∧
    (titleLine content = "" → generateItemTitle content = utf8 "Memo") ∧
    (titleLine content ≠ "" → (utf8 (titleLine content)).length ≤ maxTitleLength →
      generateItemTitle content = utf8 (titleLine content)) ∧
    (maxTitleLength < (utf8 (titleLine content)).length → ∃ kept,
      generateItemTitle content = kept ++ utf8 "..." ∧ kept <+: utf8 (titleLine content) ∧
        kept ≠ [] ∧ kept.length ≤ maxTitleLength ∧
        ((∃ i, 0 < i ∧ i < maxTitleLength ∧ (utf8 (titleLine content))[i]? = some 0x20) →
          ∃ text : String, kept = utf8 text)) := by
  rw [generateItemTitle_eq]
  dsimp only
  refine ⟨titleLine_part content, fun hempty => ?_, fun hline hlen => ?_, fun hlen => ?_⟩
  · rw [utf8_eq_nil.mpr hempty]
    rfl
  · have hshort : ¬maxTitleLength < (utf8 (titleLine content)).length := Nat.not_lt.mpr hlen
    rw [if_neg hshort, if_neg fun h => hline (utf8_eq_nil.mp h)]
  · rw [if_pos hlen, if_neg fun h => absurd (List.append_eq_nil_iff.mp h).2 (by decide)]
    obtain ⟨hpos, hle⟩ := titleCutoff_bounds (utf8 (titleLine content))
    have hkept : ((utf8 (titleLine content)).take (titleCutoff (utf8 (titleLine content)))).length =
        titleCutoff (utf8 (titleLine content)) := by
      rw [List.length_take]
      omega
    refine ⟨_, rfl, List.take_prefix _ _, List.ne_nil_of_length_pos ?_, ?_, ?_⟩
    · rw [hkept]
      exact hpos
    · rw [hkept]
      exact hle
    · rintro ⟨i, hpos, hlt, hspace⟩
      rcases titleCutoff_cases (utf8 (titleLine content)) with ⟨-, -, hcut⟩ | ⟨-, hnone⟩
      · obtain ⟨k, hk⟩ := take_of_space hcut
        refine ⟨String.ofList ((titleLine content).toList.take k), ?_⟩
        have htext := String.toList_ofList (l := (titleLine content).toList.take k)
        change _ = (String.ofList ((titleLine content).toList.take k)).toList.flatMap _
        rw [htext]
        exact hk
      · exact absurd hspace (hnone i hpos hlt)

/-- No content, and a long word: the title is not of the line, or longer than its limit. -/
theorem generateItemTitle_limits :
    (generateItemTitle "" = utf8 "Memo" ∧
      ¬∃ kept, (utf8 "Memo" = kept ∨ utf8 "Memo" = kept ++ utf8 "...") ∧ kept <+: utf8 "") ∧
    (generateItemTitle (String.ofList (List.replicate 101 'a'))).length = maxTitleLength + 3 := by
  have hline : titleLine (String.ofList (List.replicate 101 'a')) =
      String.ofList (List.replicate 101 'a') := by
    simp only [titleLine, trimSpace, String.toList_ofList]
    exact congrArg String.ofList (by decide +kernel)
  have hutf8 : utf8 (titleLine (String.ofList (List.replicate 101 'a'))) =
      List.replicate 101 0x61 := by
    rw [hline, utf8, String.toList_ofList]
    decide +kernel
  refine ⟨⟨by decide +kernel, ?_⟩, by rw [generateItemTitle_eq, hutf8]; decide +kernel⟩
  rintro ⟨kept, hkept, hpre⟩
  obtain rfl := List.prefix_nil.mp hpre
  rcases hkept with h | h
  · exact absurd h (by decide)
  · exact absurd h (by decide)

end title

def attachmentURL (baseURL : String) (attachment : AttachmentRecord) : String :=
  if attachment.storageType = .EXTERNAL ∨ attachment.storageType = .S3 then attachment.reference
  else baseURL ++ "/file/attachments/" ++ attachment.uid ++ "/" ++ attachment.filename

def enclosureOf (baseURL : String) (attachments : List AttachmentRecord) (memo : Memo) :
    Option Enclosure :=
  (attachments.find? (·.memoId = some memo.id)).map fun attachment =>
    { url := attachmentURL baseURL attachment
      length := attachment.size
      type := attachment.type }

def authorOf (creators : List User) (memo : Memo) : Option Author :=
  (creators.find? (·.id = memo.creatorId)).map fun creator =>
    { name := if creator.profile.nickname = "" then creator.username else creator.profile.nickname
      email := creator.profile.email }

/-- `RenderHTML` of the Markdown service, which can fail. -/
abbrev RenderHTML : Type := String → Except String String

variable (render : RenderHTML)

def itemOf (baseURL : String) (attachments : List AttachmentRecord) (creators : List User)
    (memo : Memo) : Except String Item :=
  (render memo.content).map fun content =>
    { title := generateItemTitle memo.content
      link := baseURL ++ "/memos/" ++ memo.uid
      content := content
      created := memo.createdTs
      updated := memo.updatedTs
      author := authorOf creators memo
      enclosure := enclosureOf baseURL attachments memo }

/-- A feed for a user has the user as its creator. The second result is `lastModified`. -/
def generateRSSFromMemoList (store : RSSStore) (now : Int) (memoList : List Memo) (baseURL : String)
    (user : Option User) : Except String (Feed × Option Int) := do
  let feed : Feed := {
    title := store.heading.title
    link := baseURL
    description := store.heading.description
    created := now
    items := [] }
  let memos := memoList.take maxRSSItemCount
  if memos = [] then return (feed, none)
  else
    let attachments := store.listAttachments { memoIdList := memos.map (·.id) }
    let creators :=
      match user with
      | some user => [user]
      | none => (store.listUsers (memos.map (·.creatorId))).map store.user
    let items ← memos.mapM (itemOf render baseURL attachments creators)
    return ({ feed with items := items }, memoList.head?.map (·.updatedTs))

def feedFind (user : Option User) : FindMemo :=
  { creatorId := user.map (·.id)
    rowStatus := some .normal
    visibilityList := [.Public]
    excludeComments := true
    limit := some maxRSSItemCount }

section spec

variable {render : RenderHTML} {store : RSSStore} {now : Int} {memoList : List Memo}
  {baseURL : String} {user : Option User} {feed : Feed} {lastModified : Option Int}

structure Item.Of (render : RenderHTML) (memo : Memo) (baseURL : String) (item : Item) : Prop where
  title : item.title = generateItemTitle memo.content
  link : item.link = baseURL ++ "/memos/" ++ memo.uid
  content : render memo.content = .ok item.content
  created : item.created = memo.createdTs
  updated : item.updated = memo.updatedTs

theorem itemOf_spec {attachments : List AttachmentRecord} {creators : List User} {memo : Memo}
    {item : Item} (h : itemOf render baseURL attachments creators memo = .ok item) :
    item.Of render memo baseURL ∧ item.enclosure = enclosureOf baseURL attachments memo := by
  unfold itemOf at h
  cases hcontent : render memo.content with
  | error message =>
    rw [hcontent] at h
    cases h
  | ok content =>
    rw [hcontent] at h
    rw [← Except.ok.inj h]
    constructor
    · constructor
      · dsimp only
      · dsimp only
      · exact hcontent
      · dsimp only
      · dsimp only
    · dsimp only

theorem mem_listAttachments {db : Database} {find : FindAttachment} {a : AttachmentRecord}
    (h : a ∈ db.listAttachments find) : a ∈ db.attachments := by
  have hrows : ∀ find : FindAttachment, a ∈ db.listAttachmentRows find → a ∈ db.attachments :=
    fun find h => (List.mem_filter.mp (List.mem_mergeSort.mp (Database.mem_page h))).1
  unfold Database.listAttachments at h
  split at h
  · exact hrows _ h
  · exact hrows _ h

theorem generate_spec
    (h : generateRSSFromMemoList render store now memoList baseURL user = .ok (feed, lastModified)) :
    feed.link = baseURL ∧ ∀ item ∈ feed.items, ∃ memo ∈ memoList, item.Of render memo baseURL ∧
      ∃ attachments, (∀ a ∈ attachments, a ∈ store.attachments) ∧
        item.enclosure = enclosureOf baseURL attachments memo := by
  unfold generateRSSFromMemoList at h
  dsimp only at h
  split at h
  · cases h
    exact ⟨rfl, fun item hitem => absurd hitem List.not_mem_nil⟩
  · obtain ⟨items, hitems, h⟩ := bind_ok h
    cases h
    refine ⟨rfl, fun item hitem => ?_⟩
    obtain ⟨memo, hmemo, hitem⟩ := mem_of_mapM_ok hitems item hitem
    obtain ⟨hof, henclosure⟩ := itemOf_spec hitem
    exact ⟨memo, List.mem_of_mem_take hmemo, hof, _, fun a ha => mem_listAttachments ha, henclosure⟩

theorem itemOf_uniform (render : RenderHTML) (attachments : List AttachmentRecord)
    (creators : List User) (memo : Memo) :
    (∃ message, ∀ baseURL, itemOf render baseURL attachments creators memo = .error message) ∨
    ∃ item : String → Item, ∀ baseURL,
      itemOf render baseURL attachments creators memo = .ok (item baseURL) := by
  unfold itemOf
  cases render memo.content with
  | error message => exact .inl ⟨message, fun _ => rfl⟩
  | ok content => exact .inr ⟨_, fun _ => rfl⟩

theorem mapM_itemOf (render : RenderHTML) (attachments : List AttachmentRecord)
    (creators : List User) (memos : List Memo) :
    (∃ message, ∀ baseURL,
      memos.mapM (itemOf render baseURL attachments creators) = .error message) ∨
    ∃ items : String → List Item, ∀ baseURL, (items baseURL).length = memos.length ∧
      memos.mapM (itemOf render baseURL attachments creators) = .ok (items baseURL) := by
  induction memos with
  | nil => exact .inr ⟨fun _ => [], fun _ => ⟨rfl, rfl⟩⟩
  | cons memo memos ih =>
    rcases itemOf_uniform render attachments creators memo with ⟨message, herror⟩ | ⟨item, hitem⟩
    · refine .inl ⟨message, fun baseURL => ?_⟩
      rw [List.mapM_cons, herror baseURL]
      rfl
    · rcases ih with ⟨message, herror⟩ | ⟨items, hitems⟩
      · refine .inl ⟨message, fun baseURL => ?_⟩
        rw [List.mapM_cons, hitem baseURL, herror baseURL]
        rfl
      · refine .inr ⟨fun baseURL => item baseURL :: items baseURL, fun baseURL => ⟨?_, ?_⟩⟩
        · rw [List.length_cons, List.length_cons, (hitems baseURL).1]
        · rw [List.mapM_cons, hitem baseURL, (hitems baseURL).2]
          rfl

theorem generate_uniform (render : RenderHTML) (store : RSSStore) (now : Int)
    (memoList : List Memo) (user : Option User) :
    (∃ message, ∀ baseURL,
      generateRSSFromMemoList render store now memoList baseURL user = .error message) ∨
    ∃ (feed : String → Feed) (count : Nat) (lastModified : Option Int), ∀ baseURL,
      (feed baseURL).link = baseURL ∧ (feed baseURL).items.length = count ∧
      generateRSSFromMemoList render store now memoList baseURL user =
        .ok (feed baseURL, lastModified) := by
  by_cases hmemos : memoList.take maxRSSItemCount = []
  · refine .inr ⟨fun baseURL => ⟨store.heading.title, baseURL, store.heading.description, now, []⟩,
      0, none, fun baseURL => ⟨rfl, rfl, ?_⟩⟩
    unfold generateRSSFromMemoList
    dsimp only
    rw [if_pos hmemos]
    rfl
  · unfold generateRSSFromMemoList
    dsimp only
    simp only [if_neg hmemos]
    rcases mapM_itemOf render _ _ (memoList.take maxRSSItemCount) with ⟨message, herror⟩ |
      ⟨items, hitems⟩
    · refine .inl ⟨message, fun baseURL => ?_⟩
      rw [herror baseURL]
      rfl
    · refine .inr ⟨fun baseURL =>
          ⟨store.heading.title, baseURL, store.heading.description, now, items baseURL⟩,
        (memoList.take maxRSSItemCount).length, memoList.head?.map (·.updatedTs),
        fun baseURL => ⟨rfl, (hitems baseURL).1, ?_⟩⟩
      rw [(hitems baseURL).2]
      rfl

end spec

end Memoark.Server.Rss
