import Memoark.Server.SetAttachments
import Memoark.Server.UpdateFrame

/-! What an update leaves, by the set of the paths of its mask and by how often it names
`attachments`. -/
namespace Memoark.Server.WriteMemos
open Store
open Program (Durable)

section draft

variable {env : Env} {call : UpdateCall} {a : Answers} {memo : Memo} {done paths : List Path}
  {path : Path} {d' : Draft}

def settledDraft (env : Env) (call : UpdateCall) (a : Answers) (memo : Memo) (paths : List Path) :
    Draft where
  memo := { memo with
    content := if .content ∈ paths then call.memo.content else memo.content
    payload := {
      property := if .content ∈ paths then (env.extractAll call.memo.content).bind (·.property)
        else memo.payload.property
      location := if .location ∈ paths then call.memo.location else memo.payload.location
      tags := if .content ∈ paths then ((env.extractAll call.memo.content).map (·.tags)).getD []
        else memo.payload.tags } }
  createdTs := if .createTime ∈ paths then some (Api.Timestamp.unix call.memo.createTime) else none
  updatedTs := if .updateTime ∈ paths then some (requestedUpdateTime call a.now) else none
  rowStatus := if .state ∈ paths then some (convertStateToStore call.memo.state) else none
  visibility :=
    if .visibility ∈ paths then (updatedVisibility call.memo a memo).toOption else none
  pinned := if .pinned ∈ paths then some call.memo.pinned else none
  contentSet := .content ∈ paths
  payloadSet := .content ∈ paths ∨ .location ∈ paths

theorem settledDraft_congr (h : ∀ path, path ∈ paths ↔ path ∈ done) :
    settledDraft env call a memo paths = settledDraft env call a memo done := by
  unfold settledDraft
  simp only [h]

theorem settledDraft_round
    (h : applyPath env.extractAll call.memo a (settledDraft env call a memo done) path = .ok d') :
    d' = settledDraft env call a memo (done ++ [path]) := by
  cases applyPath_ok h with
  | content hm =>
    obtain ⟨data, hdata, rfl⟩ := Option.map_eq_some_iff.mp hm
    simp [settledDraft, hdata]
  | visibility hv =>
    have hread : updatedVisibility call.memo a memo = .ok _ := hv
    simp [settledDraft, hread, Except.toOption]
  | @updateTime time ht =>
    have hset : time = requestedUpdateTime call a.now := by
      rw [ht, requestedUpdateTime]
      cases call.memo.updateTime <;> rfl
    simp [settledDraft, hset]
  | _ => simp [settledDraft]

end draft

section linking

variable {env : Env} {memo : Memo} {normalized : List AttachmentRecord}

theorem linked_again (id : Nat) (now : Int) {links : List (AttachmentRecord × Nat)}
    (hids : (links.map (·.1.id)).Nodup) (a : AttachmentRecord) :
    linked id now links (linked id now links a) = linked id now links a := by
  have hlinks := linked_links id now links a
  by_cases hmem : a.id ∈ links.map (·.1.id)
  · obtain ⟨link, hlink, hid⟩ := List.mem_map.mp hmem
    rw [linked_of_mem id now hids hlink hid.symm]
    exact linked_of_mem id now hids hlink hid.symm
  · rw [hlinks.other hmem, hlinks.other hmem]

theorem linkNormalized_map {φ : AttachmentRecord → AttachmentRecord} (hid : ∀ a, (φ a).id = a.id) :
    linkNormalized env memo (normalized.map φ) = linkNormalized env memo normalized := by
  funext a
  unfold linkNormalized linked
  rw [← List.map_reverse, List.zipIdx_map, List.foldl_map]
  simp only [Prod.map_fst, Prod.map_snd, hid, id_eq]

theorem linkNormalized_again (hids : (normalized.map (·.id)).Nodup) (a : AttachmentRecord) :
    linkNormalized env memo normalized (linkNormalized env memo normalized a) =
      linkNormalized env memo normalized a := by
  apply linked_again
  rw [zipIdx_ids]
  exact List.nodup_reverse.mpr hids

end linking

section rounds

variable {env : Env} {user : UserRecord} {memo : Memo} {names : List String}
  {s t t' u u' : Storage} {requested requested' normalized : List AttachmentRecord}

/-- Ids and UIDs of attachments are given to one attachment each. -/
structure Distinct (s : Storage) : Prop where
  ids : (s.attachments.map (·.id)).Nodup
  uids : (s.attachments.map (·.uid)).Nodup

/-- A request that drops none of its attachments and leaves none linked that it does not name. -/
structure Steady (memo : Memo) (requested : List AttachmentRecord) (s : Storage) : Prop where
  retained : ∀ a ∈ requested, Retained (currentAttachments s memo) requested a
  covered : Covered memo requested s

inductive AttachmentRounds (env : Env) (user : UserRecord) (memo : Memo) (names : List String) :
    Nat → Storage → Storage → Prop
  | done {s t : Storage} (h : t.attachments = s.attachments) :
      AttachmentRounds env user memo names 0 s t
  | round {n : Nat} {s t u : Storage}
      (hrun : (setMemoAttachmentsInternal env user memo names).run s = (.ok (), t))
      (hrest : AttachmentRounds env user memo names n t u) :
      AttachmentRounds env user memo names (n + 1) s u

theorem currentAttachments_congr (h : t.attachments = s.attachments) (memo : Memo) :
    currentAttachments t memo = currentAttachments s memo := by
  unfold currentAttachments Database.listAttachments Database.listAttachmentRows
  rw [h]

theorem requestedAttachment_congr (h : t.attachments = s.attachments) (user : UserRecord) :
    requestedAttachment t.toDatabase user = requestedAttachment s.toDatabase user := by
  funext name
  unfold requestedAttachment Database.listAttachments Database.listAttachmentRows
  rw [h]

theorem setMemoAttachments_congr (hids : (s.attachments.map (·.id)).Nodup)
    (h : t.attachments = s.attachments)
    (hrun : (setMemoAttachmentsInternal env user memo names).run s = (.ok (), u)) :
    ∃ u', (setMemoAttachmentsInternal env user memo names).run t = (.ok (), u') ∧
      u'.attachments = u.attachments := by
  have hcurrent := currentAttachments_congr h memo
  obtain ⟨normalized, hnormalized, hremovable⟩ := attachmentsPass_of_ok hids hrun
  rw [setMemoAttachments_run hids hnormalized hremovable] at hrun
  obtain ⟨-, rfl⟩ := Prod.mk.inj hrun
  have hremoved : removedAttachments t memo normalized = removedAttachments s memo normalized := by
    unfold removedAttachments
    rw [hcurrent]
  have hnormalized' : normalizeMemoAttachmentRequest t.toDatabase user (currentAttachments t memo)
      names = .ok normalized := by
    rw [hcurrent]
    unfold normalizeMemoAttachmentRequest at hnormalized ⊢
    rw [requestedAttachment_congr h]
    exact hnormalized
  have hids' : (t.attachments.map (·.id)).Nodup := by
    rw [h]
    exact hids
  have hremovable' : ∀ a ∈ removedAttachments t memo normalized, Removable env user a := by
    rw [hremoved]
    exact hremovable
  refine ⟨_, setMemoAttachments_run hids' hnormalized' hremovable', ?_⟩
  unfold withoutAttachments
  dsimp only
  rw [hremoved, h]

theorem Distinct.set (hs : Distinct s) (hset : AttachmentsSet env memo requested normalized s t) :
    Distinct t := by
  have hsublist : ∀ {β : Type} (f : AttachmentRecord → β),
      (∀ a, f (linkNormalized env memo normalized a) = f a) →
        (t.attachments.map f).Sublist (s.attachments.map f) := by
    intro β f hf
    have hkept : f ∘ linkNormalized env memo normalized = f := funext hf
    rw [hset.attachments, List.map_map, hkept]
    exact List.filter_sublist.map f
  constructor
  · exact hs.ids.sublist (hsublist _ fun a => (links_linkNormalized env memo normalized a).id)
  · exact hs.uids.sublist (hsublist _ fun a => (links_linkNormalized env memo normalized a).uid)

theorem AttachmentsSet.requested_again (hs : Distinct s)
    (hset : AttachmentsSet env memo requested normalized s t)
    (hrequested : names.mapM (requestedAttachment s.toDatabase user) = .ok requested)
    (hrequested' : names.mapM (requestedAttachment t.toDatabase user) = .ok requested') :
    requested' = requested.map (linkNormalized env memo normalized) := by
  apply Program.map_of_mapM_ok_both hrequested hrequested'
  intro name a a' ha ha'
  obtain ⟨huid, -, hrow⟩ := requestedAttachment_ok ha
  obtain ⟨huid', -, hrow'⟩ := requestedAttachment_ok ha'
  obtain ⟨b, hb, -, rfl⟩ := (hset.mem_attachments hs.ids).mp hrow'
  have hsame : b.uid = a.uid := by
    rw [← (links_linkNormalized env memo normalized b).uid]
    exact Except.ok.inj (huid'.symm.trans huid)
  rw [List.inj_on_of_nodup_map hs.uids hb hrow hsame]

theorem AttachmentsSet.steady (hs : Distinct s)
    (hset : AttachmentsSet env memo requested normalized s t)
    (hcovered : Covered memo requested s) :
    currentAttachments t memo ⊆ requested.map (linkNormalized env memo normalized) ∧
      Steady memo (requested.map (linkNormalized env memo normalized)) t := by
  have hlinked : ∀ a ∈ t.attachments, a.memoId = some memo.id →
      a ∈ requested.map (linkNormalized env memo normalized) := by
    intro a ha hmemo
    have hperm := hset.linkedTo_perm hs.ids hcovered
    have hnamed := hperm.mem_iff.mpr (List.mem_filter.mpr ⟨ha, decide_eq_true hmemo⟩)
    obtain ⟨b, hb, rfl⟩ := List.mem_map.mp hnamed
    exact List.mem_map_of_mem ((hset.expected.mem b).mp hb).1
  have hcurrent : currentAttachments t memo ⊆
      requested.map (linkNormalized env memo normalized) := by
    intro a ha
    obtain ⟨hrow, hmemo⟩ := mem_currentAttachments ha
    exact hlinked a hrow hmemo
  refine ⟨hcurrent, fun a _ => retained_of_subset hcurrent a, fun a ha hmemo _ => ?_⟩
  exact ⟨hlinked a ha hmemo, retained_of_subset hcurrent a⟩

/-- A second round makes no difference where the first drops nothing that is asked for and the second
finds nothing else linked. -/
theorem AttachmentsSet.again (hs : Distinct s) (hset : AttachmentsSet env memo requested
      (normalizedAttachments (currentAttachments s memo) requested) s t)
    (hrequested' : requested' = requested.map (linkNormalized env memo
      (normalizedAttachments (currentAttachments s memo) requested)))
    (hset' : AttachmentsSet env memo requested'
      (normalizedAttachments (currentAttachments t memo) requested') t u)
    (hretained : ∀ a ∈ requested, Retained (currentAttachments s memo) requested a)
    (hcurrent : currentAttachments t memo ⊆ requested') : u.attachments = t.attachments := by
  subst hrequested'
  set link := linkNormalized env memo (normalizedAttachments (currentAttachments s memo) requested)
    with hlink
  have hid : ∀ a, (link a).id = a.id := fun a => (links_linkNormalized env memo _ a).id
  have huid : ∀ a, (link a).uid = a.uid := fun a => (links_linkNormalized env memo _ a).uid
  have hgroup : ∀ a, motionGroup (link a) = motionGroup a := fun a =>
    (links_linkNormalized env memo _ a).motionGroup
  have hagain : ∀ a, Retained (currentAttachments t memo) (requested.map link) a :=
    retained_of_subset hcurrent
  have hnormalized : normalizedAttachments (currentAttachments t memo) (requested.map link) =
      (normalizedAttachments (currentAttachments s memo) requested).map link := by
    rw [← normalizedAttachments_map huid hgroup]
    apply normalizedAttachments_congr fun a _ => hagain a
    intro a ha
    obtain ⟨b, hb, rfl⟩ := List.mem_map.mp ha
    exact (retained_map huid hgroup).mpr (hretained b hb)
  have hremoved : removedAttachments t memo
      (normalizedAttachments (currentAttachments t memo) (requested.map link)) = [] := by
    apply List.filter_eq_nil_iff.mpr
    intro a ha hnot
    rw [decide_eq_true_eq] at hnot
    apply hnot
    apply List.mem_map_of_mem
    exact (hset'.expected.mem a).mpr ⟨hcurrent ha, hagain a⟩
  rw [hset'.attachments, hremoved, List.map_nil, withoutAttachments_nil, hnormalized,
    linkNormalized_map hid, ← hlink, hset.attachments, List.map_map]
  apply List.map_congr_left
  intro a _
  exact linkNormalized_again (hset.ids hs.ids) a

theorem Steady.again (hs : Distinct s) (hsteady : Steady memo requested s)
    (hrequested : names.mapM (requestedAttachment s.toDatabase user) = .ok requested)
    (hrun : (setMemoAttachmentsInternal env user memo names).run s = (.ok (), t))
    (hrun' : (setMemoAttachmentsInternal env user memo names).run t = (.ok (), u)) :
    u.attachments = t.attachments := by
  obtain ⟨requested₁, hrequested₁, hset, -⟩ := setMemoAttachments_set hs.ids hrun
  obtain rfl := Except.ok.inj (hrequested.symm.trans hrequested₁)
  obtain ⟨requested', hrequested', hset', -⟩ := setMemoAttachments_set (hs.set hset).ids hrun'
  have hsame := hset.requested_again hs hrequested hrequested'
  refine hset.again hs hsame hset' hsteady.retained ?_
  rw [hsame]
  exact (hset.steady hs hsteady.covered).1

theorem ne_of_dropped (hs : Distinct s) (hcovered : Covered memo requested s)
    (hrequested : names.mapM (requestedAttachment s.toDatabase user) = .ok requested)
    {a : AttachmentRecord} (ha : a ∈ requested)
    (hdropped : ¬Retained (currentAttachments s memo) requested a)
    (hrun : (setMemoAttachmentsInternal env user memo names).run s = (.ok (), t))
    (hrun' : (setMemoAttachmentsInternal env user memo names).run t = (.ok (), u)) :
    u.attachments ≠ t.attachments := by
  intro hsame
  obtain ⟨requested₁, hrequested₁, hset, -⟩ := setMemoAttachments_set hs.ids hrun
  obtain rfl := Except.ok.inj (hrequested.symm.trans hrequested₁)
  have ht := hs.set hset
  obtain ⟨requested', hrequested', hset', -⟩ := setMemoAttachments_set ht.ids hrun'
  obtain rfl := hset.requested_again hs hrequested hrequested'
  obtain ⟨-, hsteady⟩ := hset.steady hs hcovered
  have hrow := requested_mem hrequested ha
  have hnot : a.id ∉ (normalizedAttachments (currentAttachments s memo) requested).map (·.id) := by
    intro hid
    exact hdropped ((hset.expected.mem a).mp (hset.mem_of_id hs.ids hrow hid)).2
  have hkept : linkNormalized env memo
      (normalizedAttachments (currentAttachments s memo) requested) a = a :=
    (links_linkNormalized env memo _ a).other hnot
  have hmem : a ∈ requested.map (linkNormalized env memo
      (normalizedAttachments (currentAttachments s memo) requested)) := by
    rw [← hkept]
    exact List.mem_map_of_mem ha
  have hnamed := (hset'.expected.mem a).mpr ⟨hmem, hsteady.retained a hmem⟩
  obtain ⟨updatedTs, hlinked⟩ := (links_linkNormalized env memo
    (normalizedAttachments (currentAttachments t memo) _) a).linked (List.mem_map_of_mem hnamed)
  have hafter : { a with memoId := some memo.id, updatedTs } ∈ u.attachments := by
    rw [hset'.mem_attachments ht.ids]
    refine ⟨a, hset'.stored a hnamed, fun hremoved => ?_, hlinked⟩
    have hunnamed := (List.mem_filter.mp hremoved).2
    rw [decide_eq_true_eq] at hunnamed
    exact hunnamed (List.mem_map_of_mem hnamed)
  rw [hsame, hset.mem_attachments hs.ids] at hafter
  obtain ⟨b, hb, hstays, hb'⟩ := hafter
  have hid : b.id = a.id := by
    rw [← (links_linkNormalized env memo _ b).id, hb']
  obtain rfl := List.inj_on_of_nodup_map hs.ids hb hrow hid
  have hmemo : b.memoId = some memo.id := by
    rw [← hkept, hb']
  by_cases hcurrent : b ∈ currentAttachments s memo
  · exact hstays (List.mem_filter.mpr ⟨hcurrent, decide_eq_true hnot⟩)
  · exact hdropped (hcovered b hb hmemo hcurrent).2

namespace AttachmentRounds

theorem unique {n : Nat} (h : AttachmentRounds env user memo names n s u)
    (h' : AttachmentRounds env user memo names n s u') : u'.attachments = u.attachments := by
  induction h with
  | done h =>
    cases h' with
    | done h' => rw [h, h']
  | round hrun hrest ih =>
    cases h' with
    | round hrun' hrest' =>
      rw [hrun] at hrun'
      obtain ⟨-, rfl⟩ := Prod.mk.inj hrun'
      exact ih hrest'

theorem last {n : Nat} (h : AttachmentRounds env user memo names n s u)
    (hsame : u'.attachments = u.attachments) : AttachmentRounds env user memo names n s u' := by
  induction h with
  | done h => exact .done (hsame.trans h)
  | round hrun hrest ih => exact .round hrun (ih hsame)

theorem congr {n : Nat} (hs : Distinct s) (h : AttachmentRounds env user memo names n s u)
    (hsame : t.attachments = s.attachments) : AttachmentRounds env user memo names n t u := by
  induction h generalizing t with
  | done h => exact .done (h.trans hsame.symm)
  | round hrun hrest ih =>
    obtain ⟨t', hrun', hsame'⟩ := setMemoAttachments_congr hs.ids hsame hrun
    obtain ⟨requested, -, hset, -⟩ := setMemoAttachments_set hs.ids hrun
    exact .round hrun' (ih (hs.set hset) hsame')

theorem drop {n : Nat} (hs : Distinct s) (hsteady : Steady memo requested s)
    (hrequested : names.mapM (requestedAttachment s.toDatabase user) = .ok requested)
    (h : AttachmentRounds env user memo names (n + 2) s u) :
    AttachmentRounds env user memo names (n + 1) s u := by
  cases h with
  | round hrun hrest =>
    cases hrest with
    | round hrun' hrest =>
      obtain ⟨_, -, hset, -⟩ := setMemoAttachments_set hs.ids hrun
      obtain ⟨_, -, hset', -⟩ := setMemoAttachments_set (hs.set hset).ids hrun'
      have hsame := hsteady.again hs hrequested hrun hrun'
      exact .round hrun (hrest.congr ((hs.set hset).set hset') hsame.symm)

theorem once {n : Nat} (hs : Distinct s) (hsteady : Steady memo requested s)
    (hrequested : names.mapM (requestedAttachment s.toDatabase user) = .ok requested)
    (h : AttachmentRounds env user memo names (n + 1) s u) :
    AttachmentRounds env user memo names 1 s u := by
  induction n with
  | zero => exact h
  | succ n ih => exact ih (h.drop hs hsteady hrequested)

/-- More than two rounds come to two, where all old links can be looked at. -/
theorem twice {n : Nat} (hs : Distinct s) (hcovered : Covered memo requested s)
    (hrequested : names.mapM (requestedAttachment s.toDatabase user) = .ok requested)
    (h : AttachmentRounds env user memo names (n + 2) s u) :
    AttachmentRounds env user memo names 2 s u := by
  cases h with
  | round hrun hrest =>
    obtain ⟨requested₁, hrequested₁, hset, -⟩ := setMemoAttachments_set hs.ids hrun
    obtain rfl := Except.ok.inj (hrequested.symm.trans hrequested₁)
    have hfirst := hrest
    cases hfirst with
    | round hrun' _ =>
      obtain ⟨requested', hrequested', -, -⟩ := setMemoAttachments_set (hs.set hset).ids hrun'
      obtain rfl := hset.requested_again hs hrequested hrequested'
      exact .round hrun (hrest.once (hs.set hset) (hset.steady hs hcovered).2 hrequested')

theorem not_once (hs : Distinct s) (hcovered : Covered memo requested s)
    (hrequested : names.mapM (requestedAttachment s.toDatabase user) = .ok requested)
    {a : AttachmentRecord} (ha : a ∈ requested)
    (hdropped : ¬Retained (currentAttachments s memo) requested a)
    (h : AttachmentRounds env user memo names 1 s u)
    (h' : AttachmentRounds env user memo names 2 s u') : u'.attachments ≠ u.attachments := by
  intro hsame
  cases h with
  | round hrun hrest =>
    cases hrest with
    | done hu =>
      cases h' with
      | round hrun₁ hrest₁ =>
        rw [hrun] at hrun₁
        obtain ⟨-, rfl⟩ := Prod.mk.inj hrun₁
        cases hrest₁ with
        | round hrun' hrest' =>
          cases hrest' with
          | done hu' =>
            rw [hu, hu'] at hsame
            exact absurd hsame (ne_of_dropped hs hcovered hrequested ha hdropped hrun hrun')

theorem same_iff {n k : Nat} (hs : Distinct s) (hcovered : Covered memo requested s)
    (hrequested : names.mapM (requestedAttachment s.toDatabase user) = .ok requested)
    (h : AttachmentRounds env user memo names (n + 1) s u)
    (h' : AttachmentRounds env user memo names (k + 1) s u') :
    u'.attachments = u.attachments ↔ n = k ∨ 1 ≤ n ∧ 1 ≤ k ∨
      ∀ a ∈ requested, Retained (currentAttachments s memo) requested a := by
  constructor
  · intro hsame
    by_contra hnot
    simp only [not_or, not_and, not_forall] at hnot
    obtain ⟨hne, hmore, a, ha, hdropped⟩ := hnot
    cases n with
    | zero =>
      cases k with
      | zero => exact hne rfl
      | succ k =>
        have htwice := h'.twice hs hcovered hrequested
        exact not_once hs hcovered hrequested ha hdropped h htwice hsame
    | succ n =>
      cases k with
      | zero =>
        have htwice := h.twice hs hcovered hrequested
        exact not_once hs hcovered hrequested ha hdropped h' htwice hsame.symm
      | succ k => exact hmore (Nat.le_add_left 1 n) (Nat.le_add_left 1 k)
  · intro hcount
    rcases hcount with rfl | ⟨hn, hk⟩ | hretained
    · exact h.unique h'
    · obtain ⟨n, rfl⟩ := Nat.exists_eq_add_of_le' hn
      obtain ⟨k, rfl⟩ := Nat.exists_eq_add_of_le' hk
      exact (h.twice hs hcovered hrequested).unique (h'.twice hs hcovered hrequested)
    · have hsteady : Steady memo requested s := ⟨hretained, hcovered⟩
      exact (h.once hs hsteady hrequested).unique (h'.once hs hsteady hrequested)

end AttachmentRounds

end rounds

section loop

variable {env : Env} {call : UpdateCall} {user : UserRecord} {memo : Memo} {s t t' : Storage}
  {d d' : Draft} {path : Path} {done rest : List Path}

theorem setMemoAttachmentsInternal_congr {memo' : Memo} (hid : memo'.id = memo.id)
    (names : List String) : setMemoAttachmentsInternal env user memo' names =
      setMemoAttachmentsInternal env user memo names := by
  unfold setMemoAttachmentsInternal
  rw [hid]

theorem answers_frame (h : Intact s) (hframe : Frame s t) (hd : Drafts memo d) :
    answers env t.toDatabase d.memo = answers env s.toDatabase memo := by
  have hvisibility : ∀ uid, (t.getMemo { uid := some uid }).map (·.visibility) =
      (s.getMemo { uid := some uid }).map (·.visibility) := by
    intro uid
    rw [getMemo_map (g := MemoRecord.visibility) (fun _ _ => rfl) (hframe.uids h),
      getMemo_map (g := MemoRecord.visibility) (fun _ _ => rfl) h.keys.memoUids, hframe.memos]
  unfold answers
  rw [hd.parentUid]
  simp only [hvisibility]

theorem updateRound_ok (hrun : (updateRound env call user d path).run t = (.ok d', t')) :
    (setChildren env call user d.memo path).run t = (.ok (), t') ∧
      applyPath env.extractAll call.memo (answers env t'.toDatabase d.memo) d path = .ok d' := by
  obtain ⟨_, u, hchildren, hrun⟩ := Durable.run_bind_ok.mp hrun
  rw [Durable.run_bind_of_ok (show Durable.get.run u = (.ok u, u) from rfl),
    Durable.run_ofExcept_eq] at hrun
  obtain ⟨happly, rfl⟩ := Prod.mk.inj hrun
  exact ⟨hchildren, happly⟩

theorem updateRound_keeps (h : Intact s) (hframe : Frame s t) (hd : Drafts memo d)
    (hpath : path ≠ .attachments) (hrun : (updateRound env call user d path).run t = (.ok d', t')) :
    t'.attachments = t.attachments := by
  by_cases hrelations : path = .relations
  · subst hrelations
    obtain ⟨result, u, hround, -, -, -, hattachments, -⟩ :=
      updateRound_relations env call user h hframe hd
    rw [hrun] at hround
    obtain ⟨-, rfl⟩ := Prod.mk.inj hround
    exact hattachments
  · rw [updateRound_pure hpath hrelations] at hrun
    rw [(Prod.mk.inj hrun).2]

theorem settledDraft_drafts (env : Env) (call : UpdateCall) (a : Answers) (memo : Memo)
    (paths : List Path) : Drafts memo (settledDraft env call a memo paths) := ⟨rfl, rfl, rfl⟩

theorem updateFold_settled (h : Intact s)
    (hparent : ∀ uid, memo.parentUid = some uid → ∃ row ∈ s.memos, row.uid = uid)
    (hframe : Frame s t) (ht : Distinct t)
    (hrun : (Durable.fold (updateRound env call user)
      (settledDraft env call (answers env s.toDatabase memo) memo done) rest).run t = (.ok d', t')) :
    d' = settledDraft env call (answers env s.toDatabase memo) memo (done ++ rest) ∧
      AttachmentRounds env user memo call.attachments (rest.count .attachments) t t' := by
  induction rest generalizing t done with
  | nil =>
    obtain ⟨hd', rfl⟩ := Prod.mk.inj hrun
    obtain rfl := Except.ok.inj hd'
    rw [List.append_nil]
    exact ⟨rfl, .done rfl⟩
  | cons path rest ih =>
    have hd := settledDraft_drafts env call (answers env s.toDatabase memo) memo done
    obtain ⟨d₁, t₁, hround, hrest⟩ := Durable.run_bind_ok.mp hrun
    obtain ⟨result, t₂, hround', -, hframe₁, -⟩ :=
      updateRound_run env call user h hframe hd hparent path
    rw [hround] at hround'
    obtain ⟨rfl, rfl⟩ := Prod.mk.inj hround'
    obtain ⟨hchildren, happly⟩ := updateRound_ok hround
    rw [answers_frame h hframe₁ hd] at happly
    obtain rfl := settledDraft_round happly
    by_cases hpath : path = .attachments
    · subst hpath
      have hset := Durable.run_mapFailure.mp hchildren
      rw [setMemoAttachmentsInternal_congr hd.id] at hset
      obtain ⟨requested, -, hwritten, -⟩ := setMemoAttachments_set ht.ids hset
      obtain ⟨hd', hrounds⟩ := ih hframe₁ (ht.set hwritten) hrest
      rw [List.append_assoc] at hd'
      rw [List.count_cons_self]
      exact ⟨hd', .round hset hrounds⟩
    · have hkept := updateRound_keeps h hframe hd hpath hround
      have ht₁ : Distinct t₁ := by
        constructor
        · rw [hkept]
          exact ht.ids
        · rw [hkept]
          exact ht.uids
      obtain ⟨hd', hrounds⟩ := ih hframe₁ ht₁ hrest
      rw [List.append_assoc] at hd'
      rw [List.count_cons_of_ne hpath]
      exact ⟨hd', hrounds.congr ht₁ hkept.symm⟩

end loop

section masks

variable {env : Env} {call : UpdateCall} {user : UserRecord} {memo : Memo} {userID : Nat}
  {s t t' : Storage} {d : Draft} {paths paths' : List Path}

def UpdateCall.masked (call : UpdateCall) (paths : List Path) : UpdateCall :=
  { call with memo := { call.memo with paths } }

theorem updateRound_masked (call : UpdateCall) (paths : List Path) :
    updateRound env (call.masked paths) user = updateRound env call user := by
  funext d path
  cases path <;> rfl

theorem checkUpdate_masked {db : Database}
    (h : checkUpdate db userID (call.masked paths) = .ok (user, memo)) (hpaths : paths' ≠ []) :
    checkUpdate db userID (call.masked paths') = .ok (user, memo) := by
  rw [checkUpdate] at h ⊢
  obtain ⟨uid, huid, h⟩ := Program.bind_ok h
  have hne : ¬(call.masked paths).memo.paths = [] := by
    intro hnil
    rw [if_pos hnil] at h
    cases h
  rw [if_neg hne] at h
  have huid' : Except.mapError ("invalid memo name: " ++ ·)
      (extractMemoUIDFromName (call.masked paths').name) = .ok uid := huid
  rw [huid']
  exact (if_neg hpaths).trans h

def writtenMemos (d : Draft) (memos : List MemoRecord) : List MemoRecord :=
  if d.update.isEmpty then memos
  else memos.map fun row => if row.id = d.memo.id then row.updated d.update else row

theorem storeUpdateMemo_draft (d : Draft) (t : Storage) :
    ((Storage.updateMemo d.memo.id d.update).run t).2 =
      { t with memos := writtenMemos d t.memos } := by
  unfold Storage.updateMemo writtenMemos
  split
  · rfl
  · rfl

structure Updated (env : Env) (call : UpdateCall) (user : UserRecord) (memo : Memo) (s t : Storage) :
    Prop where
  memos : t.memos = writtenMemos
    (settledDraft env call (answers env s.toDatabase memo) memo call.memo.paths) s.memos
  users : t.users = s.users
  reactions : t.reactions = s.reactions
  inboxes : t.inboxes = s.inboxes
  relations : if .relations ∈ call.memo.paths then Replaced memo call.relations s t
    else t.relations = s.relations
  attachments : AttachmentRounds env user memo call.attachments
    (call.memo.paths.count .attachments) s t

theorem updateMemo_updated (h : Intact s) (hs : Distinct s) {message : Api.Memo}
    (hcheck : checkUpdate s.toDatabase userID call = .ok (user, memo))
    (hrun : (updateMemo env userID call).run s = (.ok message, t)) :
    Updated env call user memo s t := by
  obtain ⟨-, hparent⟩ := checkUpdate_rows hcheck
  have hrounds := hrun
  rw [updateMemo_run hcheck] at hrounds
  obtain ⟨d, u, hloop, -⟩ := Durable.run_bind_ok.mp hrounds
  have hstore := updateMemo_store hcheck hloop
  rw [hrun, storeUpdateMemo_draft] at hstore
  obtain ⟨hframe, -, hkept, hreplaced⟩ := updateFold_ok h hparent (.refl h) (.start memo) hloop
  have hstart : Draft.start memo =
      settledDraft env call (answers env s.toDatabase memo) memo [] := rfl
  rw [hstart] at hloop
  obtain ⟨rfl, hattachments⟩ := updateFold_settled h hparent (.refl h) hs hloop
  obtain rfl : t = _ := hstore
  refine ⟨congrArg (writtenMemos _) hframe.memos, hframe.users, hframe.reactions, hframe.inboxes,
    ?_, hattachments.last rfl⟩
  split
  · rename_i hmem
    exact (hreplaced hmem).2
  · rename_i hnot
    exact hkept hnot

end masks

section agreement

variable {env : Env} {call : UpdateCall} {user : UserRecord} {memo : Memo} {userID : Nat}
  {s t t' : Storage} {paths paths' : List Path}

/-- Two updates of a memo leave the same, where their masks name the same paths: all but the
attachments, and the attachments where the masks name them equally often. -/
structure MasksAgree (call : UpdateCall) (user : UserRecord) (memo : Memo) (paths paths' : List Path)
    (s t t' : Storage) : Prop where
  memos : t'.memos = t.memos
  users : t'.users = t.users
  reactions : t'.reactions = t.reactions
  inboxes : t'.inboxes = t.inboxes
  relations : ∀ r, r ∈ t'.relations ↔ r ∈ t.relations
  location : ∀ row ∈ t.memos, row.id = memo.id → row.payload.location =
    if .location ∈ paths then call.memo.location else memo.payload.location
  counted : paths.count .attachments = paths'.count .attachments → t'.attachments = t.attachments
  attachments : ∀ requested, call.attachments.mapM (requestedAttachment s.toDatabase user) =
      .ok requested → Covered memo requested s → .attachments ∈ paths →
    (t'.attachments = t.attachments ↔ paths.count .attachments = paths'.count .attachments ∨
      2 ≤ paths.count .attachments ∧ 2 ≤ paths'.count .attachments ∨
        ∀ a ∈ requested, Retained (currentAttachments s memo) requested a)

theorem Updated.location (h : Updated env call user memo s t)
    (hids : (s.memos.map (·.id)).Nodup) {row : MemoRecord} (hrow : row ∈ s.memos)
    {parent : Option String} (hmemo : row.withParent parent = memo) {row' : MemoRecord}
    (hrow' : row' ∈ t.memos) (hid : row'.id = memo.id) : row'.payload.location =
      if .location ∈ call.memo.paths then call.memo.location else memo.payload.location := by
  subst hmemo
  have honly : ∀ old ∈ s.memos, old.id = row.id → old = row := by
    intro old hold hsame
    exact List.inj_on_of_nodup_map hids hold hrow hsame
  rw [h.memos] at hrow'
  unfold writtenMemos at hrow'
  split at hrow'
  · rename_i hempty
    have hnot : .location ∉ call.memo.paths := by
      intro hmem
      have hpayload : Draft.payloadSet (settledDraft env call (answers env s.toDatabase
          (row.withParent parent)) (row.withParent parent) call.memo.paths) = true :=
        decide_eq_true (Or.inr hmem)
      simp [Draft.update, hpayload, UpdateMemo.isEmpty] at hempty
    rw [if_neg hnot, honly row' hrow' hid]
    rfl
  · obtain ⟨old, hold, rfl⟩ := List.mem_map.mp hrow'
    by_cases hsame : old.id = row.id
    · obtain rfl := honly old hold hsame
      have hmatch : old.id = (settledDraft env call (answers env s.toDatabase
          (old.withParent parent)) (old.withParent parent) call.memo.paths).memo.id := rfl
      rw [if_pos hmatch]
      by_cases hpayload : .content ∈ call.memo.paths ∨ .location ∈ call.memo.paths
      · have hset : (settledDraft env call (answers env s.toDatabase (old.withParent parent))
            (old.withParent parent) call.memo.paths).payloadSet = true := decide_eq_true hpayload
        unfold MemoRecord.updated Draft.update
        rw [hset]
        rfl
      · have hset : (settledDraft env call (answers env s.toDatabase (old.withParent parent))
            (old.withParent parent) call.memo.paths).payloadSet = false := decide_eq_false hpayload
        unfold MemoRecord.updated Draft.update
        rw [hset, if_neg fun hmem => hpayload (.inr hmem)]
        rfl
    · have hother : ¬old.id = (settledDraft env call (answers env s.toDatabase
          (row.withParent parent)) (row.withParent parent) call.memo.paths).memo.id := hsame
      rw [if_neg hother] at hid
      exact absurd hid hsame

/-- An update does not depend on the order of its mask; how often it names a path matters to the
attachments alone. -/
theorem updateMemo_masks {message message' : Api.Memo} (h : Intact s)
    (huids : (s.attachments.map (·.uid)).Nodup) (hpaths : ∀ path, path ∈ paths ↔ path ∈ paths')
    (hrun : (updateMemo env userID (call.masked paths)).run s = (.ok message, t))
    (hrun' : (updateMemo env userID (call.masked paths')).run s = (.ok message', t')) :
    ∃ user memo, checkUpdate s.toDatabase userID (call.masked paths) = .ok (user, memo) ∧
      MasksAgree call user memo paths paths' s t t' := by
  have hs : Distinct s := ⟨h.attachmentIds, huids⟩
  cases hcheck : checkUpdate s.toDatabase userID (call.masked paths) with
  | error e =>
    rw [updateMemo_refused hcheck] at hrun
    cases hrun
  | ok found =>
    obtain ⟨user, memo⟩ := found
    have hne : paths' ≠ [] := by
      intro hnil
      have hrefused : ∃ e, checkUpdate s.toDatabase userID (call.masked paths') = .error e := by
        unfold checkUpdate
        cases extractMemoUIDFromName (call.masked paths').name with
        | error e => exact ⟨_, rfl⟩
        | ok uid => exact ⟨_, if_pos hnil⟩
      obtain ⟨e, hrefused⟩ := hrefused
      rw [updateMemo_refused hrefused] at hrun'
      cases hrun'
    have hcheck' := checkUpdate_masked hcheck hne
    have hdone := updateMemo_updated h hs hcheck hrun
    have hdone' := updateMemo_updated h hs hcheck' hrun'
    have hsame : settledDraft env (call.masked paths') (answers env s.toDatabase memo) memo paths' =
        settledDraft env (call.masked paths) (answers env s.toDatabase memo) memo paths :=
      settledDraft_congr fun path => (hpaths path).symm
    obtain ⟨uid, -, hmemo, -, -⟩ := checkUpdate_ok hcheck
    obtain ⟨row, hrow, -, parent, -, hread⟩ := Database.getMemo_uid hmemo
    refine ⟨user, memo, rfl, ?_, ?_, ?_, ?_, fun r => ?_, fun row' hrow' hid => ?_, ?_, ?_⟩
    · rw [hdone.memos, hdone'.memos]
      exact congrArg (writtenMemos · s.memos) hsame
    · rw [hdone.users, hdone'.users]
    · rw [hdone.reactions, hdone'.reactions]
    · rw [hdone.inboxes, hdone'.inboxes]
    · have hrelations := hdone.relations
      have hrelations' := hdone'.relations
      by_cases hmem : .relations ∈ paths
      · rw [if_pos (show .relations ∈ (call.masked paths).memo.paths from hmem)] at hrelations
        rw [if_pos (show .relations ∈ (call.masked paths').memo.paths from
          (hpaths .relations).mp hmem)] at hrelations'
        exact (hrelations' r).trans (hrelations r).symm
      · rw [if_neg (show .relations ∉ (call.masked paths).memo.paths from hmem)] at hrelations
        rw [if_neg (show .relations ∉ (call.masked paths').memo.paths from
          fun hmem' => hmem ((hpaths .relations).mpr hmem'))] at hrelations'
        rw [hrelations, hrelations']
    · exact hdone.location h.keys.memoIds hrow hread hrow' hid
    · intro hcount
      have hrounds : AttachmentRounds env user memo call.attachments
          (paths'.count .attachments) s t := hcount ▸ hdone.attachments
      exact hrounds.unique hdone'.attachments
    · intro requested hrequested hcovered hmem
      obtain ⟨n, hn⟩ := Nat.exists_eq_add_of_lt (List.count_pos_iff.mpr hmem)
      obtain ⟨k, hk⟩ := Nat.exists_eq_add_of_lt
        (List.count_pos_iff.mpr ((hpaths .attachments).mp hmem))
      rw [Nat.zero_add] at hn hk
      have hrounds : AttachmentRounds env user memo call.attachments (n + 1) s t :=
        hn ▸ hdone.attachments
      have hrounds' : AttachmentRounds env user memo call.attachments (k + 1) s t' :=
        hk ▸ hdone'.attachments
      rw [hrounds.same_iff hs hcovered hrequested hrounds', hn, hk]
      simp only [Nat.add_right_cancel_iff, Nat.succ_le_succ_iff]

end agreement

section motion

variable {t u : Storage}

def motionPhoto (n : Nat) : AttachmentRecord := { photo n with
  memoId := if n < 2 then some 1 else none
  motionMedia := some ⟨1, n, "motion", 0, false⟩ }

def motionAlbum : Storage := { diary with attachments := (List.range 3).map motionPhoto }

def setMotion : UpdateCall := { diaryUpdate [] with attachments := ["attachments/photo2"] }

theorem motionAlbum_intact : Intact motionAlbum where
  keys := ⟨show (diary.users.map (·.id)).Nodup by decide, show (diary.memos.map (·.id)).Nodup by decide,
    show (diary.memos.map (·.uid)).Nodup by decide, List.nodup_nil⟩
  attachmentIds := by decide
  fresh := by decide

theorem motionAlbum_distinct : Distinct motionAlbum := ⟨by decide, by decide⟩

theorem check_setMotion {paths : List Path} (hpaths : paths ≠ []) :
    checkUpdate motionAlbum.toDatabase 1 (setMotion.masked paths) =
      .ok (ada, diaryMemo.withParent none) := by
  unfold checkUpdate
  have hname : extractMemoUIDFromName (setMotion.masked paths).name = .ok "diary" := extract_diary
  have hmemo : motionAlbum.getMemo { uid := some "diary" } = some (diaryMemo.withParent none) :=
    getMemo_diary
  rw [hname]
  dsimp only [Except.mapError, bind, Except.bind]
  rw [if_neg (show (setMotion.masked paths).memo.paths ≠ [] from hpaths), hmemo]
  rfl

theorem exists_round (ht : Distinct t) (hcreators : ∀ a ∈ t.attachments, a.creatorId = 1)
    (hphoto : ∃ a ∈ t.attachments, a.uid = "photo2") :
    ∃ u, (setMemoAttachmentsInternal (lenientEnv "") ada (diaryMemo.withParent none)
      setMotion.attachments).run t = (.ok (), u) ∧ Distinct u ∧
        (∀ a ∈ u.attachments, a.creatorId = 1) ∧
          ((∃ a ∈ t.attachments, a.uid = "photo2" ∧ a.memoId = none) →
            ∃ a ∈ u.attachments, a.uid = "photo2") := by
  obtain ⟨a, ha, huid⟩ := hphoto
  have hname : extractAttachmentUIDFromName "attachments/photo2" = .ok a.uid := by
    rw [huid]
    decide
  have hrequested : setMotion.attachments.mapM (requestedAttachment t.toDatabase ada) = .ok [a] := by
    have hone : requestedAttachment t.toDatabase ada "attachments/photo2" = .ok a :=
      requestedAttachment_of_mem ht.uids ha hname (.inl (hcreators a ha))
    show (requestedAttachment t.toDatabase ada "attachments/photo2" >>= fun b => _) = _
    rw [hone]
    rfl
  have hpass : AttachmentsPass (lenientEnv "") ada t (diaryMemo.withParent none)
      setMotion.attachments := by
    refine ⟨_, normalizeRequest_eq _ hrequested, fun b hb => ?_⟩
    exact ⟨.inl (hcreators b (removedAttachments_mem hb)), fun hfails => Bool.false_ne_true hfails.1⟩
  obtain ⟨rows, hrun, -⟩ := setMemoAttachments_ok ht.ids hpass
  obtain ⟨requested, -, hset, -⟩ := setMemoAttachments_set ht.ids hrun
  refine ⟨_, hrun, ht.set hset, fun b hb => ?_, fun hfree => ?_⟩
  · obtain ⟨c, hc, -, rfl⟩ := (hset.mem_attachments ht.ids).mp hb
    rw [(links_linkNormalized _ _ _ c).same (f := AttachmentRecord.creatorId) fun _ _ _ => rfl]
    exact hcreators c hc
  · obtain ⟨b, hb, hbuid, hnone⟩ := hfree
    refine ⟨_, (hset.mem_attachments ht.ids).mpr ⟨b, hb, fun hremoved => ?_, rfl⟩, ?_⟩
    · have hmemo := (mem_currentAttachments (List.mem_of_mem_filter hremoved)).2
      rw [hnone] at hmemo
      cases hmemo
    · rw [(links_linkNormalized _ _ _ b).uid]
      exact hbuid

theorem covered_motion :
    Covered (diaryMemo.withParent none) [motionPhoto 2] motionAlbum := by
  intro a ha hmemo hcurrent
  refine absurd ?_ hcurrent
  unfold currentAttachments
  have hlength : ((linkedTo motionAlbum.toDatabase (diaryMemo.withParent none).id).mergeSort
      fun a b => b.updatedTs ≤ a.updatedTs).length ≤ 100 := by
    rw [List.length_mergeSort]
    decide
  rw [listAttachments_memo, List.take_of_length_le hlength]
  exact List.mem_mergeSort.mpr (List.mem_filter.mpr ⟨ha, decide_eq_true hmemo⟩)

theorem dropped_motion : ¬Retained (currentAttachments motionAlbum (diaryMemo.withParent none))
    [motionPhoto 2] (motionPhoto 2) := by
  have hall : (currentAttachments motionAlbum (diaryMemo.withParent none)).Perm
      [motionPhoto 0, motionPhoto 1] := by
    unfold currentAttachments
    rw [listAttachments_memo]
    have hperm := List.mergeSort_perm (linkedTo motionAlbum.toDatabase
      (diaryMemo.withParent none).id) fun a b => b.updatedTs ≤ a.updatedTs
    rw [List.take_of_length_le (by rw [hperm.length_eq]; decide)]
    exact hperm
  intro hretained
  refine hretained "motion" (by decide) ⟨?_, fun hrequested => ?_⟩
  · rw [(hall.filter _).length_eq]
    decide
  · have hfirst := hrequested (motionPhoto 0)
      ((hall.filter _).mem_iff.mpr (by decide))
    exact absurd hfirst (by decide)

theorem updateMemo_rounds {n : Nat} (hrounds : AttachmentRounds (lenientEnv "") ada
      (diaryMemo.withParent none) setMotion.attachments (n + 1) motionAlbum t) :
    ∃ message t', (updateMemo (lenientEnv "") 1
      (setMotion.masked (List.replicate (n + 1) .attachments))).run motionAlbum =
        (.ok message, t') ∧ t'.attachments = t.attachments := by
  have hfold : ∀ {k s u} (d : Draft), d.memo.id = 1 → AttachmentRounds (lenientEnv "") ada
      (diaryMemo.withParent none) setMotion.attachments k s u →
        ∃ u', (Durable.fold (updateRound (lenientEnv "") setMotion ada) d
          (List.replicate k .attachments)).run s = (.ok d, u') ∧ u'.attachments = u.attachments := by
    intro k s u d hid hrounds
    have hset : setMemoAttachmentsInternal (lenientEnv "") ada d.memo setMotion.attachments =
        setMemoAttachmentsInternal (lenientEnv "") ada (diaryMemo.withParent none)
          setMotion.attachments := setMemoAttachmentsInternal_congr hid _
    induction hrounds with
    | done h => exact ⟨_, rfl, h.symm⟩
    | @round k s t u hrun hrest ih =>
      obtain ⟨u', hloop, hsame⟩ := ih
      rw [← hset] at hrun
      have hround : (updateRound (lenientEnv "") setMotion ada d .attachments).run s = (.ok d, t) :=
        updateRound_children (Durable.run_mapFailure.mpr hrun) (.inl rfl)
      exact ⟨u', (Durable.run_bind_of_ok hround).trans hloop, hsame⟩
  have hcheck : checkUpdate motionAlbum.toDatabase 1
      (setMotion.masked (List.replicate (n + 1) .attachments)) =
        .ok (ada, diaryMemo.withParent none) := check_setMotion (by simp)
  obtain ⟨u', hloop, hsame⟩ := hfold (Draft.start (diaryMemo.withParent none)) rfl hrounds
  rw [← updateRound_masked setMotion (List.replicate (n + 1) .attachments)] at hloop
  obtain ⟨hrow, hparent⟩ := checkUpdate_rows hcheck
  obtain ⟨hframe, hd, -, -⟩ := updateFold_ok motionAlbum_intact hparent (.refl motionAlbum_intact)
    (.start _) hloop
  obtain ⟨row, hmem, hid, -, hcreator⟩ := hrow
  obtain ⟨uid, -, -, huser, -⟩ := checkUpdate_ok hcheck
  obtain ⟨result, t', hfinish, hok, -⟩ := finishUpdate_run motionAlbum_intact
    (lenientEnv_snippets "") hframe ⟨row, hmem, hid, hcreator⟩ hd huser
  obtain ⟨message, rfl⟩ : ∃ message, result = .ok message := by
    cases result with
    | ok message => exact ⟨message, rfl⟩
    | error e => cases hok.mpr rfl
  have hrun : (updateMemo (lenientEnv "") 1
      (setMotion.masked (List.replicate (n + 1) .attachments))).run motionAlbum =
        (.ok message, t') := by
    rw [updateMemo_run hcheck]
    exact (Durable.run_bind_of_ok hloop).trans hfinish
  refine ⟨message, t', hrun, ?_⟩
  have hstore := updateMemo_store hcheck hloop
  rw [hrun, storeUpdateMemo_draft] at hstore
  obtain rfl : t' = _ := hstore
  exact hsame

theorem exists_rounds : ∃ t u, AttachmentRounds (lenientEnv "") ada (diaryMemo.withParent none)
    setMotion.attachments 1 motionAlbum t ∧ AttachmentRounds (lenientEnv "") ada
      (diaryMemo.withParent none) setMotion.attachments 2 motionAlbum u := by
  obtain ⟨t, hrun, ht, hcreators, hphoto⟩ := exists_round motionAlbum_distinct (by decide)
    ⟨motionPhoto 2, by decide, by decide⟩
  obtain ⟨u, hrun', -⟩ := exists_round ht hcreators (hphoto ⟨motionPhoto 2, by decide, by decide⟩)
  exact ⟨t, u, .round hrun (.done rfl), .round hrun (.round hrun' (.done rfl))⟩

theorem updateMemo_masks_motion : ∃ message t message' t',
    (updateMemo (lenientEnv "") 1 (setMotion.masked [.attachments])).run motionAlbum =
        (.ok message, t) ∧
      (updateMemo (lenientEnv "") 1 (setMotion.masked [.attachments, .attachments])).run
        motionAlbum = (.ok message', t') ∧
      ∃ user memo, checkUpdate motionAlbum.toDatabase 1 (setMotion.masked [.attachments]) =
        .ok (user, memo) ∧ MasksAgree setMotion user memo [.attachments]
          [.attachments, .attachments] motionAlbum t t' := by
  obtain ⟨t, u, honce, htwice⟩ := exists_rounds
  obtain ⟨message, t', hrun, -⟩ := updateMemo_rounds honce
  obtain ⟨message', u', hrun', -⟩ := updateMemo_rounds htwice
  exact ⟨message, t', message', u', hrun, hrun',
    updateMemo_masks motionAlbum_intact motionAlbum_distinct.uids (by simp) hrun hrun'⟩

/-- A mask that names `attachments` twice links the member that a mask with one has left out. -/
theorem attachments_twice : ∃ message t message' t',
    (updateMemo (lenientEnv "") 1 (setMotion.masked [.attachments])).run motionAlbum =
        (.ok message, t) ∧
      (updateMemo (lenientEnv "") 1 (setMotion.masked [.attachments, .attachments])).run
        motionAlbum = (.ok message', t') ∧ t'.attachments ≠ t.attachments := by
  obtain ⟨t, u, honce, htwice⟩ := exists_rounds
  obtain ⟨message, t', hrun, hsame⟩ := updateMemo_rounds honce
  obtain ⟨message', u', hrun', hsame'⟩ := updateMemo_rounds htwice
  refine ⟨message, t', message', u', hrun, hrun', ?_⟩
  have hname : extractAttachmentUIDFromName "attachments/photo2" = .ok (motionPhoto 2).uid := by
    decide
  have hone : requestedAttachment motionAlbum.toDatabase ada "attachments/photo2" =
      .ok (motionPhoto 2) :=
    requestedAttachment_of_mem motionAlbum_distinct.uids (by decide) hname (.inl rfl)
  have hrequested : setMotion.attachments.mapM (requestedAttachment motionAlbum.toDatabase ada) =
      .ok [motionPhoto 2] := by
    show (requestedAttachment motionAlbum.toDatabase ada "attachments/photo2" >>= fun b => _) = _
    rw [hone]
    rfl
  rw [hsame, hsame']
  exact AttachmentRounds.not_once motionAlbum_distinct covered_motion hrequested
    List.mem_cons_self dropped_motion honce htwice

end motion

end Memoark.Server.WriteMemos
