import Memoark.Web.AttachmentItems

/-! Moves in the list of attachments of the editor (`AttachmentListEditor.tsx`). -/
namespace Memoark.Web.Attachments
open Server.Api (Attachment)

inductive Direction where
  | up | down
  deriving DecidableEq

def Direction.step : Direction → Int
  | .up => -1
  | .down => 1

def membersOf (attachments : List Attachment) (items : List AttachmentItem) : List Attachment :=
  items.flatMap fun item => item.memberIds.filterMap fun memberId =>
    attachments.reverse.find? (·.name = memberId)

/-- The items with one moved a place up or down, unless it is missing or at the end. -/
def reorderItems (items : Array AttachmentItem) (itemId : String) (direction : Direction) :
    Option (Array AttachmentItem) :=
  (items.findIdx? (·.id = itemId)).bind fun itemIndex =>
    let targetIndex := itemIndex + direction.step
    if h : itemIndex < items.size ∧ 0 ≤ targetIndex ∧ targetIndex < items.size then
      some (items.swap itemIndex targetIndex.toNat h.1 (by omega))
    else none

def handleMoveAttachments (localFiles : List LocalFile) (attachments : List Attachment)
    (itemId : String) (direction : Direction) : List Attachment :=
  let attachmentItems := (toAttachmentItems attachments localFiles).filter (!·.isLocal)
  match reorderItems attachmentItems.toArray itemId direction with
  | none => attachments
  | some reorderedItems => membersOf attachments reorderedItems.toList

def moveAttachments (localFiles : List LocalFile) (attachments : List Attachment)
    (moves : List (String × Direction)) : List Attachment :=
  moves.foldl (fun attachments (itemId, direction) =>
    handleMoveAttachments localFiles attachments itemId direction) attachments

variable {l l' : List Attachment} {localFiles : List LocalFile} {a : Attachment}

def Lost (a : Attachment) : Prop := isPSD a.type = true ∧ a.motionMedia = none

instance : DecidablePred Lost := fun a =>
  inferInstanceAs (Decidable (isPSD a.type = true ∧ a.motionMedia = none))

theorem startsWith_trans {s start start' : String} (h : startsWith s start = true)
    (h' : startsWith start start' = true) : startsWith s start' = true := by
  unfold startsWith at h h' ⊢
  rw [List.isPrefixOf_iff_prefix] at h h' ⊢
  exact h'.trans h

theorem type_image_iff : getAttachmentType a = "image/*" ↔ isImage a.type = true := by
  unfold getAttachmentType
  dsimp only
  constructor
  · intro h
    by_contra himage
    rw [if_neg himage] at h
    split_ifs at h <;> exact absurd h (by decide)
  · exact fun himage => if_pos himage

theorem type_video_iff :
    getAttachmentType a = "video/*" ↔ isImage a.type = false ∧ startsWith a.type "video" = true := by
  unfold getAttachmentType
  dsimp only
  cases himage : isImage a.type with
  | true =>
    rw [if_pos rfl]
    exact iff_of_false (by decide) fun h => Bool.false_ne_true h.1.symm
  | false =>
    rw [if_neg Bool.false_ne_true]
    constructor
    · intro h
      refine ⟨rfl, ?_⟩
      by_contra hvideo
      rw [if_neg hvideo] at h
      split_ifs at h <;> exact absurd h (by decide)
    · exact fun h => if_pos h.2

theorem isVisual_false_iff : isVisual a = false ↔
    isImage a.type = false ∧ startsWith a.type "video" = false ∧ a.motionMedia = none := by
  unfold isVisual
  rw [Bool.or_eq_false_iff, Bool.or_eq_false_iff, decide_eq_false_iff_not, decide_eq_false_iff_not,
    type_image_iff, type_video_iff, Bool.not_eq_true, Option.isSome_eq_false_iff, Option.isNone_iff_eq_none,
    and_assoc]
  refine and_congr_right fun himage => and_congr_left fun _ => ?_
  rw [himage]
  simp

theorem lost_iff : Lost a ↔ isVisual a = false ∧
    categorizeFile a.type none ≠ .audio ∧ categorizeFile a.type none ≠ .document := by
  have hpsd : isPSD a.type = true → startsWith a.type "image/" = true := by
    unfold isPSD
    simp only [Bool.or_eq_true, decide_eq_true_eq]
    rintro ((h | h) | h)
    · rw [h]
      decide +kernel
    · rw [h]
      decide +kernel
    · rw [h]
      decide +kernel
  have hclip : startsWith a.type "video/" = true → startsWith a.type "video" = true := fun h =>
    startsWith_trans h (by decide +kernel)
  have hboth : startsWith a.type "image/" = true → startsWith a.type "video" = false := by
    unfold startsWith
    intro h
    rw [List.isPrefixOf_iff_prefix] at h
    obtain ⟨rest, hrest⟩ := h
    rw [← hrest]
    rfl
  rw [isVisual_false_iff]
  unfold Lost categorizeFile isImage
  constructor
  · rintro ⟨h, hnone⟩
    have himage := hpsd h
    refine ⟨⟨by rw [himage, h]; rfl, hboth himage, hnone⟩, ?_⟩
    simp [himage]
  · rintro ⟨⟨himage, hvideo, hnone⟩, hcategory⟩
    refine ⟨?_, hnone⟩
    cases hstart : startsWith a.type "image/" with
    | true =>
      rw [hstart] at himage
      simpa using himage
    | false =>
      cases hstart' : startsWith a.type "video/" with
      | true =>
        rw [hclip hstart'] at hvideo
        cases hvideo
      | false =>
        simp only [hstart, hstart', Option.isSome_none, Bool.false_eq_true, if_false] at hcategory
        split at hcategory
        · exact absurd rfl hcategory.1
        · exact absurd rfl hcategory.2

section items

theorem toLocalMotionItems_isLocal {item : AttachmentItem} (h : item ∈ toLocalMotionItems localFiles) :
    item.isLocal = true := by
  have hfiles : ∀ files : List LocalFile, ∀ item ∈ files.map fileToItem, item.isLocal = true := by
    intro files item hitem
    obtain ⟨file, -, rfl⟩ := List.mem_map.mp hitem
    rfl
  unfold toLocalMotionItems at h
  rcases List.mem_append.mp h with hgroup | hsingle
  · obtain ⟨groupId, -, hitem⟩ := List.mem_flatMap.mp hgroup
    unfold localGroupItems at hitem
    split at hitem
    · split at hitem
      · rw [List.mem_singleton.mp hitem]
      · exact hfiles _ item hitem
    · exact hfiles _ item hitem
  · exact hfiles _ item hsingle

def storedItems (l : List Attachment) : List AttachmentItem :=
  (toAttachmentItems l []).filter (!·.isLocal)

theorem filter_toAttachmentItems (l : List Attachment) (localFiles : List LocalFile) :
    (toAttachmentItems l localFiles).filter (!·.isLocal) = storedItems l := by
  have hnone : ∀ files, (toLocalMotionItems files).filter (!·.isLocal) = [] := fun files =>
    List.filter_eq_nil_iff.mpr fun item hitem => by
      rw [toLocalMotionItems_isLocal hitem]
      exact Bool.false_ne_true
  unfold storedItems toAttachmentItems
  dsimp only
  rw [List.filter_append, List.filter_append _ (toLocalMotionItems []), hnone, hnone]

theorem storedItems_eq (l : List Attachment) : storedItems l = toAttachmentItems l [] := by
  refine List.filter_eq_self.mpr fun item hitem => ?_
  have hlocal : toLocalMotionItems [] = [] := rfl
  unfold toAttachmentItems at hitem
  dsimp only at hitem
  rw [hlocal, List.append_nil] at hitem
  rcases List.mem_append.mp hitem with hvisual | hother
  · obtain ⟨visual, -, rfl⟩ := List.mem_map.mp hvisual
    rfl
  · obtain ⟨a, -, rfl⟩ := List.mem_map.mp (List.mem_of_mem_filter hother)
    rfl

def kept (l : List Attachment) : List Attachment := l.filter (¬Lost ·)

theorem visualIds_perm (h : Named l) :
    ((buildAttachmentVisualItems (l.filter isVisual)).flatMap (·.attachmentNames)).Perm
      ((l.filter isVisual).map (·.name)) := by
  have hperm := (visualItems_perm (h.filter isVisual)).map (·.name)
  rwa [List.map_flatMap] at hperm

theorem memberIds_perm (h : Named l) :
    ((storedItems l).flatMap (·.memberIds)).Perm ((kept l).map (·.name)) := by
  have hlocal : toLocalMotionItems [] = [] := rfl
  rw [storedItems_eq, toAttachmentItems, hlocal, List.append_nil, List.flatMap_append, List.flatMap_map]
  have hnames : ∀ a ∈ l, a.name ∉ (buildAttachmentVisualItems (l.filter isVisual)).flatMap
      (·.attachmentNames) ↔ isVisual a = false := by
    intro a ha
    rw [(visualIds_perm h).mem_iff, List.mem_map, ← Bool.not_eq_true, not_iff_not]
    constructor
    · rintro ⟨b, hb, hname⟩
      rw [← h.eq_of_name (List.mem_of_mem_filter hb) ha hname]
      exact (List.mem_filter.mp hb).2
    · exact fun hvisual => ⟨a, List.mem_filter.mpr ⟨ha, hvisual⟩, rfl⟩
  have hsplit : (((l.filter isVisual) ++ l.filter fun a => ¬isVisual a ∧ ¬Lost a).Perm (kept l)) := by
    have hperm := List.filter_append_perm isVisual (kept l)
    unfold kept at hperm ⊢
    rw [List.filter_filter, List.filter_filter] at hperm
    have hvisual : (l.filter fun a => isVisual a && decide ¬Lost a) = l.filter isVisual := by
      refine List.filter_congr fun a _ => ?_
      cases hv : isVisual a with
      | false => rfl
      | true =>
        rw [Bool.true_and, decide_eq_true_eq]
        intro hlost
        rw [(lost_iff.mp hlost).1] at hv
        cases hv
    have hother : (l.filter fun a => !isVisual a && decide ¬Lost a) =
        l.filter fun a => ¬isVisual a ∧ ¬Lost a := by
      refine List.filter_congr fun a _ => ?_
      cases isVisual a with
      | false => simp
      | true => simp
    rwa [hvisual, hother] at hperm
  refine ((visualIds_perm h).append (List.Perm.of_eq ?_)).trans
    ((List.Perm.of_eq List.map_append.symm).trans (hsplit.map (·.name)))
  rw [List.filter_map, List.flatMap_map, List.filter_filter]
  change List.flatMap (fun a : Attachment => [a.name]) _ = _
  rw [← List.map_eq_flatMap]
  refine congrArg (List.map fun a : Attachment => a.name) (List.filter_congr fun a ha => ?_)
  rw [Function.comp_apply, ← Bool.decide_or, ← Bool.decide_and]
  refine decide_eq_decide.mpr ?_
  rw [hnames a ha, Bool.not_eq_true, and_comm]
  refine and_congr_right fun hvisual => ?_
  rw [lost_iff]
  change (categorizeFile a.type none = .audio ∨ categorizeFile a.type none = .document) ↔ _
  tauto

theorem membersOf_perm (h : Named l) {items : List AttachmentItem}
    (hitems : items.Perm (storedItems l)) : (membersOf l items).Perm (kept l) := by
  have hlookup : ∀ a ∈ l, l.reverse.find? (·.name = a.name) = some a := by
    intro a ha
    have hmem : a ∈ l.reverse := List.mem_reverse.mpr ha
    cases hfound : l.reverse.find? (·.name = a.name) with
    | none =>
      have hnone := List.find?_eq_none.mp hfound a hmem
      exact absurd (decide_eq_true rfl) hnone
    | some b =>
      have hb : b ∈ l := List.mem_reverse.mp (List.mem_of_find?_eq_some hfound)
      have hname : b.name = a.name := by simpa using List.find?_some hfound
      rw [h.eq_of_name hb ha hname]
  have hfilterMap : membersOf l items = (items.flatMap (·.memberIds)).filterMap fun memberId =>
      l.reverse.find? (·.name = memberId) := by
    rw [List.filterMap_flatMap]
    rfl
  rw [hfilterMap]
  refine (((hitems.flatMap_right (·.memberIds)).trans (memberIds_perm h)).filterMap _).trans ?_
  rw [List.filterMap_map]
  have hsome : (kept l).filterMap ((fun memberId => l.reverse.find? (·.name = memberId)) ∘
      fun a : Attachment => a.name) = (kept l).filterMap some :=
    List.filterMap_congr fun a ha => hlookup a (List.mem_of_mem_filter ha)
  exact List.Perm.of_eq (hsome.trans List.filterMap_some)

theorem reorderItems_perm {items items' : Array AttachmentItem} {itemId : String}
    {direction : Direction} (h : reorderItems items itemId direction = some items') :
    items'.Perm items := by
  obtain ⟨itemIndex, -, hswap⟩ := Option.bind_eq_some_iff.mp h
  dsimp only at hswap
  split at hswap
  · rw [← Option.some.inj hswap]
    exact Array.swap_perm _ _
  · cases hswap

theorem handleMoveAttachments_cases (h : Named l) (localFiles : List LocalFile) (itemId : String)
    (direction : Direction) : handleMoveAttachments localFiles l itemId direction = l ∨
      (handleMoveAttachments localFiles l itemId direction).Perm (kept l) := by
  unfold handleMoveAttachments
  rw [filter_toAttachmentItems]
  dsimp only
  cases hmove : reorderItems (storedItems l).toArray itemId direction with
  | none => exact .inl rfl
  | some items =>
    exact .inr (membersOf_perm h (Array.perm_iff_toList_perm.mp (reorderItems_perm hmove)))

theorem kept_eq (hnone : ∀ a ∈ l, ¬Lost a) : kept l = l :=
  List.filter_eq_self.mpr fun a ha => decide_eq_true (hnone a ha)

theorem moveAttachments_perm (h : Named l) (hnone : ∀ a ∈ l, ¬Lost a)
    (localFiles : List LocalFile) (moves : List (String × Direction)) :
    (moveAttachments localFiles l moves).Perm l := by
  induction moves generalizing l with
  | nil => exact .refl l
  | cons move moves ih =>
    have hmoved : (handleMoveAttachments localFiles l move.1 move.2).Perm l := by
      rcases handleMoveAttachments_cases h localFiles move.1 move.2 with heq | hperm
      · rw [heq]
      · rwa [kept_eq hnone] at hperm
    exact (ih (h.perm hmoved) fun a ha => hnone a (hmoved.mem_iff.mp ha)).trans hmoved

theorem countP_mem_eq_count {β : Type} (f : β → List String) {items : List β}
    (hnodup : (items.flatMap f).Nodup) (name : String) :
    items.countP (name ∈ f ·) = (items.flatMap f).count name := by
  induction items with
  | nil => rfl
  | cons item items ih =>
    obtain ⟨hitem, hitems, -⟩ := List.nodup_append.mp (List.flatMap_cons ▸ hnodup)
    rw [List.countP_cons, List.flatMap_cons, List.count_append, ih hitems, Nat.add_comm]
    congr 1
    by_cases hmem : name ∈ f item
    · rw [if_pos (decide_eq_true hmem), List.count_eq_one_of_mem hitem hmem]
    · rw [if_neg (by simpa using hmem), List.count_eq_zero_of_not_mem hmem]

/-- Each attachment is a member of one item, and stays through any moves. -/
structure KeepsAttachments (l : List Attachment) : Prop where
  items : ∀ a ∈ l, (toAttachmentItems l []).countP (a.name ∈ ·.memberIds) = 1
  moves : ∀ localFiles moves, (moveAttachments localFiles l moves).Perm l

/-- Exactly when the editor keeps every attachment: none of them is a PSD without motion media. -/
theorem keepsAttachments_iff (h : Named l) : KeepsAttachments l ↔ ∀ a ∈ l, ¬Lost a := by
  have hperm := memberIds_perm h
  rw [storedItems_eq] at hperm
  have hkept : ((kept l).map (·.name)).Nodup := h.names.sublist (List.filter_sublist.map _)
  have hcount : ∀ name, (toAttachmentItems l []).countP (name ∈ ·.memberIds) =
      ((kept l).map (·.name)).count name := by
    intro name
    rw [countP_mem_eq_count _ (hperm.nodup_iff.mpr hkept), hperm.count_eq]
  constructor
  · intro hkeeps a ha hlost
    have hone := hkeeps.items a ha
    rw [hcount] at hone
    obtain ⟨b, hb, hname⟩ := List.mem_map.mp (List.count_pos_iff.mp (by rw [hone]; exact Nat.one_pos))
    obtain ⟨hmem, hshown⟩ := List.mem_filter.mp hb
    rw [h.eq_of_name hmem ha hname] at hshown
    exact of_decide_eq_true hshown hlost
  · intro hnone
    refine ⟨fun a ha => ?_, fun files moves => moveAttachments_perm h hnone files moves⟩
    rw [hcount, kept_eq hnone]
    exact List.count_eq_one_of_mem h.names (List.mem_map_of_mem ha)

end items

section drawing

def photo : Attachment := ⟨"attachments/photo", ⟨0, 0⟩, "a.png", "image/png", 1, none, none, ""⟩

def drawing : Attachment :=
  ⟨"attachments/drawing", ⟨0, 0⟩, "b.psd", "image/vnd.adobe.photoshop", 1, none, none, ""⟩

def still : Attachment := ⟨"attachments/still", ⟨0, 0⟩, "c.heic", "image/heic", 1,
  some ⟨APPLE_LIVE_PHOTO, STILL, "live", 0, false⟩, none, ""⟩

def video : Attachment := ⟨"attachments/video", ⟨0, 0⟩, "c.mov", "video/quicktime", 1,
  some ⟨APPLE_LIVE_PHOTO, VIDEO, "live", 0, false⟩, none, ""⟩

/-- A live photo moves as one item, with both of its parts. -/
theorem keepsAttachments_live :
    (moveAttachments [] [still, photo, video] [("live", .down)]).map (·.name) =
        ["attachments/photo", "attachments/still", "attachments/video"] ∧
      KeepsAttachments [still, photo, video] := by
  have hnamed : Named [still, photo, video] := ⟨by decide, by decide⟩
  have hshown : ∀ a ∈ [still, photo, video], ¬Lost a := by decide +kernel
  exact ⟨by decide +kernel, (keepsAttachments_iff hnamed).mpr hshown⟩

/-- The document has no item. -/
theorem drawing_lost : Named [photo, drawing] ∧
    (toAttachmentItems [photo, drawing] []).flatMap (·.memberIds) = ["attachments/photo"] ∧
    ¬KeepsAttachments [photo, drawing] := by
  have hnamed : Named [photo, drawing] := ⟨by decide, by decide⟩
  have hitems : (toAttachmentItems [photo, drawing] []).flatMap (·.memberIds) =
      ["attachments/photo"] := by
    decide +kernel
  have hcount : (toAttachmentItems [photo, drawing] []).countP (drawing.name ∈ ·.memberIds) = 0 := by
    decide +kernel
  refine ⟨hnamed, hitems, fun h => ?_⟩
  have hone := h.items drawing (List.mem_cons_of_mem _ List.mem_cons_self)
  rw [hcount] at hone
  cases hone

end drawing

end Memoark.Web.Attachments
