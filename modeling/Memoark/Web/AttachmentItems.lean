import Mathlib.Algebra.Ring.Int.Defs
import Mathlib.Data.List.Basic
import Mathlib.Data.List.Nodup
import Mathlib.Data.List.Perm.Basic
import Memoark.Server.MemoMessages

/-! The items that attachments are shown as (`attachment.ts`, `media-item.ts`, `types/attachment.ts`),
without the addresses that their pictures are loaded from. -/
namespace Memoark.Web.Attachments
open Server.Api (Attachment)
open Store (MotionMedia)

def startsWith (s start : String) : Bool := start.toList.isPrefixOf s.toList

def includes (s part : String) : Bool := s.toList.tails.any (part.toList.isPrefixOf ·)

section types

def isPSD (t : String) : Bool :=
  t = "image/vnd.adobe.photoshop" || t = "image/x-photoshop" || t = "image/photoshop"

def isImage (t : String) : Bool := startsWith t "image/" && !isPSD t

def isMidiFile (mimeType : String) : Bool :=
  mimeType = "audio/midi" || mimeType = "audio/mid" || mimeType = "audio/x-midi" ||
    mimeType = "application/x-midi"

def getAttachmentType (attachment : Attachment) : String :=
  let type := attachment.type
  if isImage type then "image/*"
  else if startsWith type "video" then "video/*"
  else if startsWith type "audio" && !isMidiFile type then "audio/*"
  else if startsWith type "text" then "text/*"
  else if startsWith type "application/epub+zip" then "application/epub+zip"
  else if startsWith type "application/pdf" then "application/pdf"
  else if includes type "word" then "application/msword"
  else if includes type "excel" then "application/msexcel"
  else if startsWith type "application/zip" then "application/zip"
  else if startsWith type "application/x-java-archive" then "application/x-java-archive"
  else "application/octet-stream"

/-- `MotionMediaFamily` and `MotionMediaRole`. -/
def APPLE_LIVE_PHOTO : Nat := 1
def ANDROID_MOTION_PHOTO : Nat := 2
def STILL : Nat := 1
def VIDEO : Nat := 2
def CONTAINER : Nat := 3

def motionGroupId (motionMedia : Option MotionMedia) : Option String :=
  (motionMedia.map (·.groupId)).filter (· ≠ "")

def getAttachmentMotionGroupId (attachment : Attachment) : Option String :=
  motionGroupId attachment.motionMedia

def hasRole (family role : Nat) (motionMedia : Option MotionMedia) : Bool :=
  motionMedia.any fun m => m.family = family && m.role = role

def isAppleLivePhotoStill (attachment : Attachment) : Bool :=
  hasRole APPLE_LIVE_PHOTO STILL attachment.motionMedia

def isAppleLivePhotoVideo (attachment : Attachment) : Bool :=
  hasRole APPLE_LIVE_PHOTO VIDEO attachment.motionMedia

def isAndroidMotionContainer (attachment : Attachment) : Bool :=
  hasRole ANDROID_MOTION_PHOTO CONTAINER attachment.motionMedia &&
    attachment.motionMedia.any (·.hasEmbeddedVideo)

end types

section visual

inductive VisualKind where
  | image | video | motion
  deriving DecidableEq

structure AttachmentVisualItem where
  id : String
  kind : VisualKind
  filename : String
  attachments : List Attachment
  mimeType : String

def AttachmentVisualItem.attachmentNames (item : AttachmentVisualItem) : List String :=
  item.attachments.map (·.name)

def buildSingleAttachmentItem (attachment : Attachment) : AttachmentVisualItem where
  id := attachment.name
  kind := if getAttachmentType attachment = "video/*" then .video else .image
  filename := attachment.filename
  attachments := [attachment]
  mimeType := attachment.type

def buildAppleMotionItem (still video : Attachment) : AttachmentVisualItem where
  id := (getAttachmentMotionGroupId still).getD still.name
  kind := .motion
  filename := still.filename
  attachments := [still, video]
  mimeType := still.type

def buildAndroidMotionItem (attachment : Attachment) : AttachmentVisualItem where
  id := attachment.name
  kind := .motion
  filename := attachment.filename
  attachments := [attachment]
  mimeType := attachment.type

def attachmentGroup (attachments : List Attachment) (groupId : String) : List Attachment :=
  attachments.filter (getAttachmentMotionGroupId · = some groupId)

def livePhoto (group : List Attachment) : Option (Attachment × Attachment) :=
  match group.find? isAppleLivePhotoStill, group.find? isAppleLivePhotoVideo with
  | some still, some video => if group.length = 2 then some (still, video) else none
  | _, _ => none

def visualRound (attachments : List Attachment) (acc : List AttachmentVisualItem × List String)
    (attachment : Attachment) : List AttachmentVisualItem × List String :=
  if isAndroidMotionContainer attachment then (acc.1 ++ [buildAndroidMotionItem attachment], acc.2)
  else
    match getAttachmentMotionGroupId attachment with
    | none => (acc.1 ++ [buildSingleAttachmentItem attachment], acc.2)
    | some groupId =>
      if groupId ∈ acc.2 then acc
      else
        let group := attachmentGroup attachments groupId
        match livePhoto group with
        | some (still, video) => (acc.1 ++ [buildAppleMotionItem still video], groupId :: acc.2)
        | none =>
          (acc.1 ++ buildSingleAttachmentItem attachment ::
            (group.filter (·.name ≠ attachment.name)).map buildSingleAttachmentItem,
              groupId :: acc.2)

def dedupeVisualItems : List String → List AttachmentVisualItem → List AttachmentVisualItem
  | _, [] => []
  | seen, item :: items =>
    if item.id ∈ seen then dedupeVisualItems seen items
    else item :: dedupeVisualItems (item.id :: seen) items

def buildAttachmentVisualItems (attachments : List Attachment) : List AttachmentVisualItem :=
  dedupeVisualItems [] (attachments.foldl (visualRound attachments) ([], [])).1

end visual

section items

inductive FileCategory where
  | image | video | motion | audio | document
  deriving DecidableEq

structure AttachmentItem where
  id : String
  memberIds : List String
  filename : String
  category : FileCategory
  mimeType : String
  size : Int
  isLocal : Bool

structure LocalFile where
  name : String
  type : String
  size : Int
  previewUrl : String
  motionMedia : Option MotionMedia

def categorizeFile (mimeType : String) (motionMedia : Option MotionMedia) : FileCategory :=
  if motionMedia.isSome then .motion
  else if startsWith mimeType "image/" then .image
  else if startsWith mimeType "video/" then .video
  else if startsWith mimeType "audio/" then .audio
  else .document

def attachmentGroupToItem (attachment : Attachment) : AttachmentItem where
  id := attachment.name
  memberIds := [attachment.name]
  filename := attachment.filename
  category := categorizeFile attachment.type none
  mimeType := attachment.type
  size := attachment.size
  isLocal := false

def VisualKind.category : VisualKind → FileCategory
  | .image => .image
  | .video => .video
  | .motion => .motion

def visualItemToAttachmentItem (item : AttachmentVisualItem) : AttachmentItem where
  id := item.id
  memberIds := item.attachmentNames
  filename := item.filename
  category := item.kind.category
  mimeType := item.mimeType
  size := (item.attachments.map (·.size)).sum
  isLocal := false

def fileToItem (file : LocalFile) : AttachmentItem where
  id := (motionGroupId file.motionMedia).getD file.previewUrl
  memberIds := [file.previewUrl]
  filename := file.name
  category := categorizeFile file.type file.motionMedia
  mimeType := file.type
  size := file.size
  isLocal := true

def localGroupItems (groupId : String) (files : List LocalFile) : List AttachmentItem :=
  match files.find? (hasRole APPLE_LIVE_PHOTO STILL ·.motionMedia),
    files.find? (hasRole APPLE_LIVE_PHOTO VIDEO ·.motionMedia) with
  | some still, some video =>
    if files.length = 2 then
      [⟨groupId, [still.previewUrl, video.previewUrl], still.name, .motion, still.type,
        still.size + video.size, true⟩]
    else files.map fileToItem
  | _, _ => files.map fileToItem

def toLocalMotionItems (localFiles : List LocalFile) : List AttachmentItem :=
  (localFiles.filterMap fun file => motionGroupId file.motionMedia).eraseDups.flatMap (fun groupId =>
    localGroupItems groupId (localFiles.filter (motionGroupId ·.motionMedia = some groupId))) ++
  (localFiles.filter (motionGroupId ·.motionMedia = none)).map fileToItem

def isVisual (attachment : Attachment) : Bool :=
  getAttachmentType attachment = "image/*" || getAttachmentType attachment = "video/*" ||
    attachment.motionMedia.isSome

def toAttachmentItems (attachments : List Attachment) (localFiles : List LocalFile) :
    List AttachmentItem :=
  let visualItems := buildAttachmentVisualItems (attachments.filter isVisual)
  let visualIds := visualItems.flatMap (·.attachmentNames)
  let nonVisualItems := ((attachments.filter (·.name ∉ visualIds)).map attachmentGroupToItem).filter
    fun item => item.category = .audio || item.category = .document
  visualItems.map visualItemToAttachmentItem ++ nonVisualItems ++ toLocalMotionItems localFiles

end items

section grouping

variable {l : List Attachment} {a b : Attachment}

/-- Attachments as an editor holds them: no two have one name, and no group is named like one. -/
structure Named (l : List Attachment) : Prop where
  names : (l.map (·.name)).Nodup
  groups : ∀ a ∈ l, ∀ b ∈ l, getAttachmentMotionGroupId a ≠ some b.name

theorem Named.eq_of_name (h : Named l) (ha : a ∈ l) (hb : b ∈ l) (hname : a.name = b.name) : a = b :=
  List.inj_on_of_nodup_map h.names ha hb hname

theorem Named.filter (h : Named l) (p : Attachment → Bool) : Named (l.filter p) where
  names := h.names.sublist (List.filter_sublist.map _)
  groups := fun a ha b hb => h.groups a (List.mem_of_mem_filter ha) b (List.mem_of_mem_filter hb)

theorem Named.perm {l' : List Attachment} (h : Named l) (hperm : l'.Perm l) : Named l' where
  names := (hperm.map _).nodup_iff.mpr h.names
  groups := fun a ha b hb => h.groups a (hperm.mem_iff.mp ha) b (hperm.mem_iff.mp hb)

def itemId (l : List Attachment) (a : Attachment) : String :=
  match getAttachmentMotionGroupId a with
  | none => a.name
  | some groupId => if (livePhoto (attachmentGroup l groupId)).isSome then groupId else a.name

theorem not_still_video (a : Attachment) :
    ¬(isAppleLivePhotoStill a = true ∧ isAppleLivePhotoVideo a = true) := by
  unfold isAppleLivePhotoStill isAppleLivePhotoVideo hasRole
  cases a.motionMedia with
  | none => exact fun h => Bool.false_ne_true h.1
  | some m =>
    simp only [Option.any_some, Bool.and_eq_true, decide_eq_true_eq]
    rintro ⟨⟨-, hstill⟩, -, hvideo⟩
    rw [hstill] at hvideo
    cases hvideo

theorem android_not_live (h : isAndroidMotionContainer a = true) :
    isAppleLivePhotoStill a = false ∧ isAppleLivePhotoVideo a = false := by
  unfold isAndroidMotionContainer at h
  unfold isAppleLivePhotoStill isAppleLivePhotoVideo
  unfold hasRole at h ⊢
  cases hmedia : a.motionMedia with
  | none => exact ⟨rfl, rfl⟩
  | some m =>
    rw [hmedia] at h
    simp only [Option.any_some, Bool.and_eq_true, decide_eq_true_eq] at h
    simp [h.1.1, ANDROID_MOTION_PHOTO, APPLE_LIVE_PHOTO]

theorem mem_of_livePhoto {group : List Attachment} {still video : Attachment}
    (h : livePhoto group = some (still, video)) :
    isAppleLivePhotoStill still = true ∧ isAppleLivePhotoVideo video = true ∧ still ≠ video ∧
      ∀ a, a ∈ group ↔ a ∈ [still, video] := by
  unfold livePhoto at h
  cases hstill : group.find? isAppleLivePhotoStill with
  | none =>
    rw [hstill] at h
    cases h
  | some still' =>
    cases hvideo : group.find? isAppleLivePhotoVideo with
    | none =>
      rw [hstill, hvideo] at h
      cases h
    | some video' =>
      rw [hstill, hvideo] at h
      by_cases hlength : group.length = 2
      · simp only [if_pos hlength, Option.some.injEq, Prod.mk.injEq] at h
        obtain ⟨rfl, rfl⟩ := h
        have hs := List.find?_some hstill
        have hv := List.find?_some hvideo
        have hne : still' ≠ video' := by
          rintro rfl
          exact not_still_video _ ⟨hs, hv⟩
        have hpair : [still', video'].Nodup := by simpa using hne
        have hsub : [still', video'] ⊆ group := by
          intro a ha
          rcases List.mem_pair.mp ha with rfl | rfl
          · exact List.mem_of_find?_eq_some hstill
          · exact List.mem_of_find?_eq_some hvideo
        have hperm : [still', video'].Perm group :=
          (List.subperm_of_subset hpair hsub).perm_of_length_le (by rw [hlength]; rfl)
        exact ⟨hs, hv, hne, fun a => hperm.mem_iff.symm⟩
      · simp only [if_neg hlength, reduceCtorEq] at h

theorem mem_attachmentGroup {groupId : String} :
    a ∈ attachmentGroup l groupId ↔ a ∈ l ∧ getAttachmentMotionGroupId a = some groupId := by
  unfold attachmentGroup
  rw [List.mem_filter, decide_eq_true_eq]

theorem Named.nodup (h : Named l) : l.Nodup := h.names.of_map _

theorem Named.livePhoto_mem (h : Named l) {groupId : String} {still video : Attachment}
    (hphoto : livePhoto (attachmentGroup l groupId) = some (still, video)) :
    still ≠ video ∧ getAttachmentMotionGroupId still = some groupId ∧
      ∀ a, a ∈ [still, video] ↔ a ∈ l ∧ itemId l a = groupId := by
  obtain ⟨-, -, hne, hmem⟩ := mem_of_livePhoto hphoto
  have hstill := mem_attachmentGroup.mp ((hmem still).mpr List.mem_cons_self)
  refine ⟨hne, hstill.2, fun a => ?_⟩
  rw [← hmem a, mem_attachmentGroup]
  refine and_congr_right fun ha => ?_
  unfold itemId
  constructor
  · intro hgroup
    rw [hgroup]
    exact if_pos (by rw [hphoto]; rfl)
  · intro hid
    cases hgroup : getAttachmentMotionGroupId a with
    | none =>
      rw [hgroup] at hid
      have hname : a.name = groupId := hid
      exact absurd (hname ▸ hstill.2) (h.groups still hstill.1 a ha)
    | some groupId' =>
      rw [hgroup] at hid
      dsimp only at hid
      split at hid
      · rw [hid]
      · exact absurd (hid ▸ hstill.2) (h.groups still hstill.1 a ha)

def Alone (l : List Attachment) (a : Attachment) : Prop := itemId l a = a.name

theorem Named.mem_alone (h : Named l) (ha : a ∈ l) (halone : Alone l a) :
    b ∈ [a] ↔ b ∈ l ∧ itemId l b = a.name := by
  rw [List.mem_singleton]
  constructor
  · rintro rfl
    exact ⟨ha, halone⟩
  · rintro ⟨hb, hid⟩
    unfold itemId at hid
    cases hgroup : getAttachmentMotionGroupId b with
    | none =>
      rw [hgroup] at hid
      exact h.eq_of_name hb ha hid
    | some groupId =>
      rw [hgroup] at hid
      dsimp only at hid
      split at hid
      · exact absurd (hid ▸ hgroup) (h.groups b hb a ha)
      · exact h.eq_of_name hb ha hid

theorem alone_of_none (hgroup : getAttachmentMotionGroupId a = none) : Alone l a := by
  unfold Alone itemId
  rw [hgroup]

theorem alone_of_group {groupId : String} (hgroup : getAttachmentMotionGroupId a = some groupId)
    (hphoto : livePhoto (attachmentGroup l groupId) = none) : Alone l a := by
  unfold Alone itemId
  rw [hgroup]
  exact if_neg (by rw [hphoto]; exact Bool.false_ne_true)

theorem alone_of_android (ha : a ∈ l) (handroid : isAndroidMotionContainer a = true) : Alone l a := by
  cases hgroup : getAttachmentMotionGroupId a with
  | none => exact alone_of_none hgroup
  | some groupId =>
    refine alone_of_group hgroup ?_
    by_contra hsome
    obtain ⟨⟨still, video⟩, hphoto⟩ := Option.ne_none_iff_exists'.mp hsome
    obtain ⟨hs, hv, -, hmem⟩ := mem_of_livePhoto hphoto
    obtain ⟨hstill, hvideo⟩ := android_not_live handroid
    rcases List.mem_pair.mp ((hmem a).mp (mem_attachmentGroup.mpr ⟨ha, hgroup⟩)) with rfl | rfl
    · rw [hs] at hstill
      cases hstill
    · rw [hv] at hvideo
      cases hvideo

structure Shows (l : List Attachment) (item : AttachmentVisualItem) : Prop where
  nodup : item.attachments.Nodup
  mem : ∀ a, a ∈ item.attachments ↔ a ∈ l ∧ itemId l a = item.id

structure Grouping (l done : List Attachment) (acc : List AttachmentVisualItem × List String) :
    Prop where
  items : ∀ item ∈ acc.1, Shows l item
  done : ∀ a ∈ done, ∃ item ∈ acc.1, item.id = itemId l a
  consumed : ∀ groupId ∈ acc.2, ∀ a ∈ attachmentGroup l groupId, ∃ item ∈ acc.1, item.id = itemId l a

variable {done : List Attachment} {acc : List AttachmentVisualItem × List String}

theorem Grouping.add (h : Grouping l done acc) {items : List AttachmentVisualItem}
    {consumed : List String} (hitems : ∀ item ∈ items, Shows l item)
    (hown : ∃ item ∈ items, item.id = itemId l a)
    (hconsumed : ∀ groupId ∈ consumed, ∀ b ∈ attachmentGroup l groupId,
      ∃ item ∈ acc.1 ++ items, item.id = itemId l b) :
    Grouping l (done ++ [a]) (acc.1 ++ items, consumed) where
  items := by
    intro item hitem
    rcases List.mem_append.mp hitem with hold | hnew
    · exact h.items item hold
    · exact hitems item hnew
  done := by
    intro b hb
    rcases List.mem_append.mp hb with hdone | hlast
    · obtain ⟨item, hitem, hid⟩ := h.done b hdone
      exact ⟨item, List.mem_append_left _ hitem, hid⟩
    · obtain ⟨item, hitem, hid⟩ := hown
      rw [List.mem_singleton.mp hlast]
      exact ⟨item, List.mem_append_right _ hitem, hid⟩
  consumed := hconsumed

theorem Grouping.kept (h : Grouping l done acc) (items : List AttachmentVisualItem) :
    ∀ groupId ∈ acc.2, ∀ b ∈ attachmentGroup l groupId,
      ∃ item ∈ acc.1 ++ items, item.id = itemId l b := by
  intro groupId hgroup b hb
  obtain ⟨item, hitem, hid⟩ := h.consumed groupId hgroup b hb
  exact ⟨item, List.mem_append_left _ hitem, hid⟩

theorem Named.shows_single (h : Named l) (ha : a ∈ l) (halone : Alone l a) :
    Shows l (buildSingleAttachmentItem a) :=
  ⟨List.nodup_singleton a, fun _ => h.mem_alone ha halone⟩

theorem Grouping.round (hl : Named l) (h : Grouping l done acc) (ha : a ∈ l) :
    Grouping l (done ++ [a]) (visualRound l acc a) := by
  unfold visualRound
  by_cases handroid : isAndroidMotionContainer a = true
  · have halone := alone_of_android ha handroid
    rw [if_pos handroid]
    refine h.add (fun item hitem => ?_) ⟨_, List.mem_singleton_self _, halone.symm⟩ (h.kept _)
    rw [List.mem_singleton.mp hitem]
    exact ⟨List.nodup_singleton a, fun _ => hl.mem_alone ha halone⟩
  · rw [if_neg handroid]
    cases hgroup : getAttachmentMotionGroupId a with
    | none =>
      have halone : Alone l a := alone_of_none hgroup
      refine h.add (fun item hitem => ?_) ⟨_, List.mem_singleton_self _, halone.symm⟩ (h.kept _)
      rw [List.mem_singleton.mp hitem]
      exact hl.shows_single ha halone
    | some groupId =>
      have hself : a ∈ attachmentGroup l groupId := mem_attachmentGroup.mpr ⟨ha, hgroup⟩
      dsimp only
      by_cases hconsumed : groupId ∈ acc.2
      · rw [if_pos hconsumed]
        refine ⟨h.items, fun b hb => ?_, h.consumed⟩
        rcases List.mem_append.mp hb with hdone | hlast
        · exact h.done b hdone
        · rw [List.mem_singleton.mp hlast]
          exact h.consumed groupId hconsumed a hself
      · rw [if_neg hconsumed]
        cases hphoto : livePhoto (attachmentGroup l groupId) with
        | some pair =>
          obtain ⟨still, video⟩ := pair
          obtain ⟨hne, hstill, hmem⟩ := hl.livePhoto_mem hphoto
          have hid : (buildAppleMotionItem still video).id = groupId := by
            rw [buildAppleMotionItem, hstill]
            rfl
          have howned : ∀ b ∈ attachmentGroup l groupId, itemId l b = groupId := by
            intro b hb
            unfold itemId
            rw [(mem_attachmentGroup.mp hb).2]
            exact if_pos (by rw [hphoto]; rfl)
          refine h.add (fun item hitem => ?_)
            ⟨_, List.mem_singleton_self _, hid.trans (howned a hself).symm⟩ fun groupId' hmem' b hb => ?_
          · rw [List.mem_singleton.mp hitem]
            refine ⟨by simpa [buildAppleMotionItem] using hne, fun b => ?_⟩
            rw [hid]
            exact hmem b
          · rcases List.mem_cons.mp hmem' with rfl | hold
            · exact ⟨_, List.mem_append_right _ (List.mem_singleton_self _),
                hid.trans (howned b hb).symm⟩
            · exact h.kept _ groupId' hold b hb
        | none =>
          have halone : ∀ b ∈ attachmentGroup l groupId, b ∈ l ∧ Alone l b := fun b hb =>
            ⟨(mem_attachmentGroup.mp hb).1, alone_of_group (mem_attachmentGroup.mp hb).2 hphoto⟩
          have hmembers : ∀ b ∈ attachmentGroup l groupId, ∃ item ∈
              buildSingleAttachmentItem a :: ((attachmentGroup l groupId).filter
                (·.name ≠ a.name)).map buildSingleAttachmentItem, item.id = itemId l b := by
            intro b hb
            by_cases hname : b.name = a.name
            · rw [hl.eq_of_name (halone b hb).1 ha hname]
              exact ⟨_, List.mem_cons_self, (halone a hself).2.symm⟩
            · refine ⟨_, List.mem_cons_of_mem _ (List.mem_map_of_mem (List.mem_filter.mpr
                ⟨hb, decide_eq_true hname⟩)), (halone b hb).2.symm⟩
          refine h.add (fun item hitem => ?_) (hmembers a hself) fun groupId' hmem' b hb => ?_
          · rcases List.mem_cons.mp hitem with rfl | hitem
            · exact hl.shows_single ha (halone a hself).2
            · obtain ⟨b, hb, rfl⟩ := List.mem_map.mp hitem
              have hboth := halone b (List.mem_of_mem_filter hb)
              exact hl.shows_single hboth.1 hboth.2
          · rcases List.mem_cons.mp hmem' with rfl | hold
            · obtain ⟨item, hitem, hid⟩ := hmembers b hb
              exact ⟨item, List.mem_append_right _ hitem, hid⟩
            · exact h.kept _ groupId' hold b hb

theorem Grouping.loop (hl : Named l) : Grouping l l (l.foldl (visualRound l) ([], [])) := by
  have hloop : ∀ done rest acc, done ++ rest = l → Grouping l done acc →
      Grouping l l (rest.foldl (visualRound l) acc) := by
    intro done rest
    induction rest generalizing done with
    | nil =>
      intro acc hsplit h
      rw [List.append_nil] at hsplit
      exact hsplit ▸ h
    | cons a rest ih =>
      intro acc hsplit h
      have ha : a ∈ l := hsplit ▸ List.mem_append_right _ List.mem_cons_self
      refine ih (done ++ [a]) _ ?_ (h.round hl ha)
      rw [← hsplit, List.append_assoc]
      rfl
  exact hloop [] l ([], []) rfl ⟨fun _ h => absurd h List.not_mem_nil,
    fun _ h => absurd h List.not_mem_nil, fun _ h => absurd h List.not_mem_nil⟩

theorem mem_dedupe {seen : List String} {items : List AttachmentVisualItem}
    {item : AttachmentVisualItem} (h : item ∈ dedupeVisualItems seen items) :
    item ∈ items ∧ item.id ∉ seen := by
  induction items generalizing seen with
  | nil => cases h
  | cons first items ih =>
    rw [dedupeVisualItems] at h
    split at h
    · obtain ⟨hmem, hunseen⟩ := ih h
      exact ⟨List.mem_cons_of_mem _ hmem, hunseen⟩
    · rename_i hfirst
      rcases List.mem_cons.mp h with rfl | h
      · exact ⟨List.mem_cons_self, hfirst⟩
      · obtain ⟨hmem, hunseen⟩ := ih h
        exact ⟨List.mem_cons_of_mem _ hmem, fun hseen => hunseen (List.mem_cons_of_mem _ hseen)⟩

theorem pairwise_dedupe (seen : List String) (items : List AttachmentVisualItem) :
    (dedupeVisualItems seen items).Pairwise fun item item' => item.id ≠ item'.id := by
  induction items generalizing seen with
  | nil => exact List.Pairwise.nil
  | cons first items ih =>
    rw [dedupeVisualItems]
    split
    · exact ih seen
    · refine List.pairwise_cons.mpr ⟨fun item hitem heq => ?_, ih _⟩
      exact (mem_dedupe hitem).2 (heq ▸ List.mem_cons_self)

theorem exists_dedupe {seen : List String} {items : List AttachmentVisualItem}
    {item : AttachmentVisualItem} (h : item ∈ items) (hunseen : item.id ∉ seen) :
    ∃ item' ∈ dedupeVisualItems seen items, item'.id = item.id := by
  induction items generalizing seen with
  | nil => cases h
  | cons first items ih =>
    rw [dedupeVisualItems]
    by_cases hid : item.id = first.id
    · rw [if_neg (hid ▸ hunseen)]
      exact ⟨first, List.mem_cons_self, hid.symm⟩
    · have hmem : item ∈ items := (List.mem_cons.mp h).resolve_left fun heq => hid (heq ▸ rfl)
      split
      · exact ih hmem hunseen
      · have hunseen' : item.id ∉ first.id :: seen := fun hseen =>
          (List.mem_cons.mp hseen).elim hid hunseen
        obtain ⟨item', hitem', hid'⟩ := ih hmem hunseen'
        exact ⟨item', List.mem_cons_of_mem _ hitem', hid'⟩

theorem visualItems_perm (hl : Named l) :
    ((buildAttachmentVisualItems l).flatMap (·.attachments)).Perm l := by
  have hloop := Grouping.loop hl
  unfold buildAttachmentVisualItems
  generalize (l.foldl (visualRound l) ([], [])) = acc at hloop
  have hshows : ∀ item ∈ dedupeVisualItems [] acc.1, Shows l item := fun item hitem =>
    hloop.items item (mem_dedupe hitem).1
  have hnodup : ((dedupeVisualItems [] acc.1).flatMap (·.attachments)).Nodup := by
    refine List.nodup_flatMap.mpr ⟨fun item hitem => (hshows item hitem).nodup, ?_⟩
    refine (pairwise_dedupe [] acc.1).imp_of_mem fun hitem hitem' hid a ha ha' => hid ?_
    exact (((hshows _ hitem).mem a).mp ha).2.symm.trans (((hshows _ hitem').mem a).mp ha').2
  refine (List.perm_ext_iff_of_nodup hnodup hl.nodup).mpr fun a => ?_
  rw [List.mem_flatMap]
  constructor
  · rintro ⟨item, hitem, ha⟩
    exact (((hshows item hitem).mem a).mp ha).1
  · intro ha
    obtain ⟨item, hitem, hid⟩ := hloop.done a ha
    obtain ⟨item', hitem', hid'⟩ := exists_dedupe hitem List.not_mem_nil
    exact ⟨item', hitem', ((hshows item' hitem').mem a).mpr ⟨ha, hid.symm.trans hid'.symm⟩⟩

end grouping

end Memoark.Web.Attachments
