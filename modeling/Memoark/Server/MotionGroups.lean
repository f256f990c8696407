import Memoark.Server.ChildWrites

/-! The attachments that a request comes to, by the groups of motion photos. -/
namespace Memoark.Server.WriteMemos
open Store
open Program (Durable)

def Dropped (current requested : List AttachmentRecord) (groupId : String) : Prop :=
  2 ≤ (current.filter (motionGroup · = some groupId)).length ∧
    ¬∀ a ∈ current.filter (motionGroup · = some groupId),
      a.uid ∈ (requested.filter (motionGroup · = some groupId)).map (·.uid)

def Retained (current requested : List AttachmentRecord) (a : AttachmentRecord) : Prop :=
  ∀ groupId, motionGroup a = some groupId → ¬Dropped current requested groupId

def Reached (done : List AttachmentRecord) (a : AttachmentRecord) : Prop :=
  (motionGroup a = none → a ∈ done) ∧
    ∀ groupId, motionGroup a = some groupId → ∃ b ∈ done, motionGroup b = some groupId

def UIDsDiffer (l : List AttachmentRecord) : Prop := ∀ a ∈ l, ∀ b ∈ l, a.uid = b.uid → a = b

def unitIndex (requested : List AttachmentRecord) (a : AttachmentRecord) : Nat :=
  match motionGroup a with
  | none => requested.idxOf a
  | some groupId => requested.findIdx (motionGroup · = some groupId)

/-- The order of a request, with the members of a group at the place of the first. -/
def Precedes (requested : List AttachmentRecord) (a b : AttachmentRecord) : Prop :=
  unitIndex requested a < unitIndex requested b ∨
    unitIndex requested a = unitIndex requested b ∧ requested.idxOf a < requested.idxOf b

section rounds

variable {current requested normalized group done rest : List AttachmentRecord}
  {acc : List AttachmentRecord × List String} {a b : AttachmentRecord}

theorem UIDsDiffer.seen_iff (huids : UIDsDiffer requested) (hnormalized : normalized ⊆ requested)
    (ha : a ∈ requested) : a.uid ∈ normalized.map (·.uid) ↔ a ∈ normalized := by
  constructor
  · intro hmem
    obtain ⟨a', ha', huid⟩ := List.mem_map.mp hmem
    rw [← huids a' (hnormalized ha') a ha huid]
    exact ha'
  · exact List.mem_map_of_mem

theorem appendAttachments_spec (huids : UIDsDiffer requested) (hnormalized : normalized ⊆ requested)
    (hgroup : group ⊆ requested) : ∃ added, appendAttachments normalized group = normalized ++ added ∧
      (∀ b, b ∈ added ↔ b ∈ group ∧ b ∉ normalized) ∧
      added.Pairwise fun a b => group.idxOf a < group.idxOf b := by
  -- the loop over the rest of the group, when `added` has been appended for the front
  have hloop : ∀ back front added, front ++ back = group →
      (∀ b, b ∈ added ↔ b ∈ front ∧ b ∉ normalized) →
      added.Pairwise (fun a b => group.idxOf a < group.idxOf b) →
      ∃ added', appendAttachments (normalized ++ added) back = normalized ++ added' ∧
        (∀ b, b ∈ added' ↔ b ∈ group ∧ b ∉ normalized) ∧
        added'.Pairwise fun a b => group.idxOf a < group.idxOf b := by
    intro back
    induction back with
    | nil =>
      intro front added hsplit hmem horder
      rw [List.append_nil] at hsplit
      exact ⟨added, rfl, hsplit ▸ hmem, horder⟩
    | cons a back ih =>
      intro front added hsplit hmem horder
      have hsplit' : (front ++ [a]) ++ back = group := by rw [← hsplit, List.append_assoc]; rfl
      have ha : a ∈ group := by
        rw [← hsplit]
        exact List.mem_append_right _ List.mem_cons_self
      have hadded : added ⊆ group := by
        intro b hb
        rw [← hsplit]
        exact List.mem_append_left _ ((hmem b).mp hb).1
      have hsubset : normalized ++ added ⊆ requested :=
        List.append_subset.mpr ⟨hnormalized, fun b hb => hgroup (hadded hb)⟩
      have hstep : appendAttachments (normalized ++ added) (a :: back) =
          appendAttachments (if a ∈ normalized ++ added then normalized ++ added
            else normalized ++ added ++ [a]) back := by
        rw [appendAttachments, List.foldl_cons]
        rw [if_congr (huids.seen_iff hsubset (hgroup ha)) rfl rfl]
        rfl
      rw [hstep]
      by_cases hseen : a ∈ normalized ++ added
      · rw [if_pos hseen]
        refine ih (front ++ [a]) added hsplit' (fun b => ?_) horder
        rw [hmem b, List.mem_append, List.mem_singleton, or_and_right]
        refine (or_iff_left_of_imp ?_).symm
        rintro ⟨rfl, hnew⟩
        exact (hmem b).mp ((List.mem_append.mp hseen).resolve_left hnew)
      · obtain ⟨hnew, hnotAdded⟩ := not_or.mp (mt List.mem_append.mpr hseen)
        have hfront : a ∉ front := fun hfront => hnotAdded ((hmem a).mpr ⟨hfront, hnew⟩)
        have hidx : group.idxOf a = front.length := by
          rw [← hsplit, List.idxOf_append_of_notMem hfront, List.idxOf_cons_self, Nat.add_zero]
        rw [if_neg hseen, List.append_assoc]
        refine ih (front ++ [a]) (added ++ [a]) hsplit' (fun b => ?_) ?_
        · rw [List.mem_append, hmem b, List.mem_append, List.mem_singleton, or_and_right]
          refine or_congr_right (iff_self_and.mpr ?_)
          rintro rfl
          exact hnew
        · refine List.pairwise_append.mpr ⟨horder, List.pairwise_singleton _ a, fun b hb c hc => ?_⟩
          have hb' : b ∈ front := ((hmem b).mp hb).1
          have hlt : group.idxOf b < front.length := by
            rw [← hsplit, List.idxOf_append_of_mem hb']
            exact List.idxOf_lt_length_of_mem hb'
          rw [List.mem_singleton.mp hc, hidx]
          exact hlt
  obtain ⟨added, happend, hmem, horder⟩ := hloop group [] [] rfl (by simp) List.Pairwise.nil
  rw [List.append_nil] at happend
  exact ⟨added, happend, hmem, horder⟩

theorem idxOf_lt_of_filter {p : AttachmentRecord → Bool} {l : List AttachmentRecord}
    (ha : p a = true) (hb : p b = true) (h : (l.filter p).idxOf a < (l.filter p).idxOf b) :
    l.idxOf a < l.idxOf b := by
  induction l with
  | nil => exact absurd h (Nat.lt_irrefl _)
  | cons c l ih =>
    by_cases hca : c = a
    · subst hca
      have hne : c ≠ b := by
        rintro rfl
        exact Nat.lt_irrefl _ h
      rw [List.idxOf_cons_self, List.idxOf_cons_ne l hne]
      exact Nat.succ_pos _
    · by_cases hcb : c = b
      · subst hcb
        rw [List.filter_cons_of_pos hb, List.idxOf_cons_self] at h
        exact absurd h (Nat.not_lt_zero _)
      · rw [List.idxOf_cons_ne l hca, List.idxOf_cons_ne l hcb]
        refine Nat.succ_lt_succ (ih ?_)
        by_cases hc : p c = true
        · rw [List.filter_cons_of_pos hc, List.idxOf_cons_ne _ hca, List.idxOf_cons_ne _ hcb] at h
          exact Nat.lt_of_succ_lt_succ h
        · rwa [List.filter_cons_of_neg hc] at h

structure Normalizes (current requested done : List AttachmentRecord)
    (acc : List AttachmentRecord × List String) : Prop where
  mem : ∀ b, b ∈ acc.1 ↔ b ∈ requested ∧ Retained current requested b ∧ Reached done b
  groups : ∀ groupId, groupId ∈ acc.2 ↔ ∃ b ∈ done, motionGroup b = some groupId
  index : ∀ b ∈ acc.1, unitIndex requested b < done.length
  order : acc.1.Pairwise (Precedes requested)

theorem Normalizes.start : Normalizes current requested [] ([], []) where
  mem := by
    intro b
    refine iff_of_false List.not_mem_nil fun ⟨_, _, hnone, hsome⟩ => ?_
    cases hgroup : motionGroup b with
    | none => exact List.not_mem_nil (hnone hgroup)
    | some groupId =>
      obtain ⟨c, hc, -⟩ := hsome groupId hgroup
      exact List.not_mem_nil hc
  groups := by simp
  index := by simp
  order := List.Pairwise.nil

theorem Normalizes.append {added : List AttachmentRecord} {groups : List String}
    (h : Normalizes current requested done acc)
    (hmem : ∀ b, b ∈ acc.1 ++ added ↔
      b ∈ requested ∧ Retained current requested b ∧ Reached (done ++ [a]) b)
    (hgroups : ∀ groupId, groupId ∈ groups ↔ ∃ b ∈ done ++ [a], motionGroup b = some groupId)
    (hindex : ∀ b ∈ added, unitIndex requested b = done.length)
    (horder : added.Pairwise fun a b => requested.idxOf a < requested.idxOf b) :
    Normalizes current requested (done ++ [a]) (acc.1 ++ added, groups) := by
  have hlength : (done ++ [a]).length = done.length + 1 := by simp
  refine ⟨hmem, hgroups, fun b hb => ?_, ?_⟩
  · rw [hlength]
    rcases List.mem_append.mp hb with hb | hb
    · have hlt := h.index b hb
      omega
    · have heq := hindex b hb
      omega
  · refine List.pairwise_append.mpr ⟨h.order, ?_, fun b hb c hc => .inl ?_⟩
    · refine horder.imp_of_mem fun hb hc hlt => .inr ⟨?_, hlt⟩
      rw [hindex _ hb, hindex _ hc]
    · rw [hindex c hc]
      exact h.index b hb

theorem reached_append_none (hgroup : motionGroup a = none) :
    Reached (done ++ [a]) b ↔ Reached done b ∨ b = a := by
  constructor
  · rintro ⟨hnone, hsome⟩
    by_cases hb : b = a
    · exact .inr hb
    · refine .inl ⟨fun h => ?_, fun groupId h => ?_⟩
      · exact (List.mem_append.mp (hnone h)).resolve_right fun hmem => hb (List.mem_singleton.mp hmem)
      · obtain ⟨c, hc, hcgroup⟩ := hsome groupId h
        rcases List.mem_append.mp hc with hdone | hlast
        · exact ⟨c, hdone, hcgroup⟩
        · rw [List.mem_singleton.mp hlast, hgroup] at hcgroup
          cases hcgroup
  · rintro (⟨hnone, hsome⟩ | rfl)
    · refine ⟨fun h => List.mem_append_left _ (hnone h), fun groupId h => ?_⟩
      obtain ⟨c, hc, hcgroup⟩ := hsome groupId h
      exact ⟨c, List.mem_append_left _ hc, hcgroup⟩
    · refine ⟨fun _ => List.mem_append_right _ (List.mem_singleton_self b), fun groupId h => ?_⟩
      rw [hgroup] at h
      cases h

theorem reached_append_some {groupId : String} (hgroup : motionGroup a = some groupId) :
    Reached (done ++ [a]) b ↔ Reached done b ∨ motionGroup b = some groupId := by
  constructor
  · rintro ⟨hnone, hsome⟩
    by_cases hb : motionGroup b = some groupId
    · exact .inr hb
    · refine .inl ⟨fun h => ?_, fun groupId' h => ?_⟩
      · refine (List.mem_append.mp (hnone h)).resolve_right fun hmem => ?_
        rw [List.mem_singleton.mp hmem, hgroup] at h
        cases h
      · obtain ⟨c, hc, hcgroup⟩ := hsome groupId' h
        rcases List.mem_append.mp hc with hdone | hlast
        · exact ⟨c, hdone, hcgroup⟩
        · rw [List.mem_singleton.mp hlast, hgroup] at hcgroup
          rw [hcgroup] at hb
          exact absurd h hb
  · rintro (⟨hnone, hsome⟩ | hb)
    · refine ⟨fun h => List.mem_append_left _ (hnone h), fun groupId' h => ?_⟩
      obtain ⟨c, hc, hcgroup⟩ := hsome groupId' h
      exact ⟨c, List.mem_append_left _ hc, hcgroup⟩
    · refine ⟨fun h => ?_, fun groupId' h => ?_⟩
      · rw [hb] at h
        cases h
      · rw [hb] at h
        exact ⟨a, List.mem_append_right _ (List.mem_singleton_self a), hgroup.trans h⟩

theorem Normalizes.round (huids : UIDsDiffer requested) (h : Normalizes current requested done acc)
    (hsplit : done ++ a :: rest = requested) :
    Normalizes current requested (done ++ [a]) (normalizeRound current requested acc a) := by
  have ha : a ∈ requested := by
    rw [← hsplit]
    exact List.mem_append_right _ List.mem_cons_self
  have hsubset : acc.1 ⊆ requested := fun b hb => ((h.mem b).mp hb).1
  unfold normalizeRound
  cases hgroup : motionGroup a with
  | none =>
    obtain ⟨added, happend, hadded, horder⟩ := appendAttachments_spec huids hsubset
      (List.cons_subset.mpr ⟨ha, List.nil_subset requested⟩)
    have hretained : Retained current requested a := by
      intro groupId hsome
      rw [hgroup] at hsome
      cases hsome
    dsimp only
    rw [happend]
    refine h.append (fun b => ?_) (fun groupId => ?_) (fun b hb => ?_) ?_
    · rw [List.mem_append, hadded b, h.mem b, reached_append_none hgroup, List.mem_singleton]
      constructor
      · rintro (⟨hb, hretained, hreached⟩ | ⟨rfl, -⟩)
        · exact ⟨hb, hretained, .inl hreached⟩
        · exact ⟨ha, hretained, .inr rfl⟩
      · rintro ⟨hb, hbretained, hreached | rfl⟩
        · exact .inl ⟨hb, hbretained, hreached⟩
        · by_cases hseen : b ∈ acc.1
          · exact .inl ((h.mem b).mp hseen)
          · exact .inr ⟨rfl, fun hall => hseen ((h.mem b).mpr hall)⟩
    · rw [h.groups groupId]
      constructor
      · rintro ⟨c, hc, hcgroup⟩
        exact ⟨c, List.mem_append_left _ hc, hcgroup⟩
      · rintro ⟨c, hc, hcgroup⟩
        rcases List.mem_append.mp hc with hdone | hlast
        · exact ⟨c, hdone, hcgroup⟩
        · rw [List.mem_singleton.mp hlast, hgroup] at hcgroup
          cases hcgroup
    · obtain ⟨hb, hnew⟩ := (hadded b).mp hb
      obtain rfl := List.mem_singleton.mp hb
      have hdone : b ∉ done := by
        intro hdone
        refine hnew ((h.mem b).mpr ⟨ha, hretained, fun _ => hdone, fun groupId hsome => ?_⟩)
        rw [hgroup] at hsome
        cases hsome
      rw [unitIndex, hgroup]
      dsimp only
      rw [← hsplit, List.idxOf_append_of_notMem hdone, List.idxOf_cons_self, Nat.add_zero]
    · refine horder.imp_of_mem fun hb hc hlt => ?_
      rw [List.mem_singleton.mp ((hadded _).mp hb).1,
        List.mem_singleton.mp ((hadded _).mp hc).1] at hlt
      exact absurd hlt (Nat.lt_irrefl _)
  | some groupId =>
    have hgroups : ∀ groupId', (groupId' = groupId ∨ groupId' ∈ acc.2) ↔
        ∃ c ∈ done ++ [a], motionGroup c = some groupId' := by
      intro groupId'
      rw [h.groups groupId']
      simp only [List.mem_append, List.mem_singleton, or_and_right, exists_or, exists_eq_left,
        hgroup, Option.some.injEq]
      rw [or_comm, eq_comm]
    have hgroups' : ∀ groupId', groupId' ∈ groupId :: acc.2 ↔
        ∃ c ∈ done ++ [a], motionGroup c = some groupId' := by
      intro groupId'
      rw [List.mem_cons, hgroups groupId']
    dsimp only
    by_cases hdone : groupId ∈ acc.2
    · have hsame : ∀ b, b ∈ acc.1 ++ [] ↔
          b ∈ requested ∧ Retained current requested b ∧ Reached (done ++ [a]) b := by
        intro b
        rw [List.append_nil, h.mem b, reached_append_some hgroup]
        refine and_congr_right fun _ => and_congr_right fun _ => (or_iff_left_of_imp fun hb => ?_).symm
        refine ⟨fun hnone => ?_, fun groupId' hsome => ?_⟩
        · rw [hb] at hnone
          cases hnone
        · rw [hb] at hsome
          rw [← hsome]
          exact (h.groups groupId).mp hdone
      have hkept := h.append hsame (fun groupId' => (or_iff_right_of_imp fun heq => heq ▸ hdone).symm.trans
        (hgroups groupId')) (fun b hb => absurd hb List.not_mem_nil) List.Pairwise.nil
      rw [if_pos hdone]
      rwa [List.append_nil] at hkept
    · rw [if_neg hdone]
      by_cases hdropped : Dropped current requested groupId
      · have hsame : ∀ b, b ∈ acc.1 ++ [] ↔
            b ∈ requested ∧ Retained current requested b ∧ Reached (done ++ [a]) b := by
          intro b
          rw [List.append_nil, h.mem b, reached_append_some hgroup]
          exact and_congr_right fun _ => and_congr_right fun hretained =>
            (or_iff_left_of_imp fun hb => absurd hdropped (hretained groupId hb)).symm
        have hkept := h.append hsame hgroups' (fun b hb => absurd hb List.not_mem_nil)
          List.Pairwise.nil
        have hcond := hdropped
        unfold Dropped at hcond
        rw [if_pos hcond]
        rwa [List.append_nil] at hkept
      · have hcond := hdropped
        unfold Dropped at hcond
        rw [if_neg hcond]
        obtain ⟨added, happend, hadded, horder⟩ := appendAttachments_spec huids hsubset
          (List.filter_subset_self (p := fun c => motionGroup c = some groupId) requested)
        have hmem : ∀ b ∈ added, b ∈ requested ∧ motionGroup b = some groupId := by
          intro b hb
          have hfilter := ((hadded b).mp hb).1
          rw [List.mem_filter, decide_eq_true_eq] at hfilter
          exact hfilter
        rw [happend]
        refine h.append (fun b => ?_) hgroups' (fun b hb => ?_) ?_
        · rw [List.mem_append, hadded b, h.mem b, reached_append_some hgroup, List.mem_filter,
            decide_eq_true_eq]
          constructor
          · rintro (⟨hb, hretained, hreached⟩ | ⟨⟨hb, hbgroup⟩, -⟩)
            · exact ⟨hb, hretained, .inl hreached⟩
            · refine ⟨hb, fun groupId' hsome => ?_, .inr hbgroup⟩
              rw [hbgroup] at hsome
              rw [← Option.some.inj hsome]
              exact hdropped
          · rintro ⟨hb, hretained, hreached | hbgroup⟩
            · exact .inl ⟨hb, hretained, hreached⟩
            · by_cases hseen : b ∈ acc.1
              · exact .inl ((h.mem b).mp hseen)
              · exact .inr ⟨⟨hb, hbgroup⟩, fun hall => hseen ((h.mem b).mpr hall)⟩
        · obtain ⟨-, hbgroup⟩ := hmem b hb
          have hnone : ∀ c ∈ done, ¬decide (motionGroup c = some groupId) = true := by
            intro c hc hcgroup
            exact hdone ((h.groups groupId).mpr ⟨c, hc, of_decide_eq_true hcgroup⟩)
          have hlt : ¬done.findIdx (motionGroup · = some groupId) < done.length := by
            rw [List.findIdx_lt_length]
            rintro ⟨c, hc, hcgroup⟩
            exact hnone c hc hcgroup
          rw [unitIndex, hbgroup]
          dsimp only
          rw [← hsplit, List.findIdx_append, if_neg hlt, List.findIdx_cons,
            decide_eq_true hgroup, cond_true, Nat.zero_add]
        · refine horder.imp_of_mem fun hb hc hlt => ?_
          exact idxOf_lt_of_filter (decide_eq_true (hmem _ hb).2) (decide_eq_true (hmem _ hc).2) hlt

structure Expected (current requested expected : List AttachmentRecord) : Prop where
  mem : ∀ a, a ∈ expected ↔ a ∈ requested ∧ Retained current requested a
  order : expected.Pairwise (Precedes requested)

def normalizedAttachments (current requested : List AttachmentRecord) : List AttachmentRecord :=
  (requested.foldl (normalizeRound current requested) ([], [])).1

theorem normalized_expected (current : List AttachmentRecord) (huids : UIDsDiffer requested) :
    Expected current requested (normalizedAttachments current requested) := by
  have hloop : ∀ rest done acc, done ++ rest = requested → Normalizes current requested done acc →
      Normalizes current requested requested
        (rest.foldl (normalizeRound current requested) acc) := by
    intro rest
    induction rest with
    | nil =>
      intro done acc hsplit h
      rw [List.append_nil] at hsplit
      exact hsplit ▸ h
    | cons a rest ih =>
      intro done acc hsplit h
      refine ih (done ++ [a]) _ ?_ (h.round huids hsplit)
      rw [← hsplit, List.append_assoc]
      rfl
  have hall := hloop requested [] ([], []) rfl .start
  refine ⟨fun b => (hall.mem b).trans ?_, hall.order⟩
  exact and_congr_right fun hb =>
    and_iff_left ⟨fun _ => hb, fun groupId hgroup => ⟨b, hb, hgroup⟩⟩

theorem retained_of_subset (h : current ⊆ requested) (a : AttachmentRecord) :
    Retained current requested a := by
  intro groupId _ hdropped
  apply hdropped.2
  intro b hb
  have hgroup := List.mem_filter.mp hb
  exact List.mem_map_of_mem (List.mem_filter.mpr ⟨h hgroup.1, hgroup.2⟩)

theorem normalizedAttachments_congr {current' : List AttachmentRecord}
    (h : ∀ a ∈ requested, Retained current requested a)
    (h' : ∀ a ∈ requested, Retained current' requested a) :
    normalizedAttachments current requested = normalizedAttachments current' requested := by
  have hround : ∀ acc, ∀ a ∈ requested,
      normalizeRound current requested acc a = normalizeRound current' requested acc a := by
    intro acc a ha
    unfold normalizeRound
    cases hgroup : motionGroup a with
    | none => rfl
    | some groupId =>
      have hkept : ¬Dropped current requested groupId := h a ha groupId hgroup
      have hkept' : ¬Dropped current' requested groupId := h' a ha groupId hgroup
      unfold Dropped at hkept hkept'
      simp only [if_neg hkept, if_neg hkept']
  unfold normalizedAttachments
  rw [List.foldl_ext _ _ _ hround]

section map

variable {φ : AttachmentRecord → AttachmentRecord} (huid : ∀ a, (φ a).uid = a.uid)
  (hgroup : ∀ a, motionGroup (φ a) = motionGroup a)

section uids
include huid

theorem map_uids (l : List AttachmentRecord) : (l.map φ).map (·.uid) = l.map (·.uid) := by
  rw [List.map_map]
  exact List.map_congr_left fun a _ => huid a

theorem appendAttachments_map (l group : List AttachmentRecord) :
    appendAttachments (l.map φ) (group.map φ) = (appendAttachments l group).map φ := by
  induction group generalizing l with
  | nil => rfl
  | cons a group ih =>
    have hstep : (if (φ a).uid ∈ (l.map φ).map (·.uid) then l.map φ else l.map φ ++ [φ a]) =
        (if a.uid ∈ l.map (·.uid) then l else l ++ [a]).map φ := by
      rw [map_uids huid, huid]
      split
      · rfl
      · rw [List.map_append, List.map_singleton]
    have hrest := ih (if a.uid ∈ l.map (·.uid) then l else l ++ [a])
    rw [← hstep] at hrest
    exact hrest

end uids

section groups
include hgroup

theorem filter_group_map (l : List AttachmentRecord) (groupId : String) :
    (l.map φ).filter (motionGroup · = some groupId) =
      (l.filter (motionGroup · = some groupId)).map φ := by
  rw [List.filter_map]
  congr 2
  funext a
  rw [Function.comp_apply, hgroup]

end groups

include huid hgroup

theorem dropped_map {groupId : String} :
    Dropped (current.map φ) (requested.map φ) groupId ↔ Dropped current requested groupId := by
  unfold Dropped
  rw [filter_group_map hgroup, filter_group_map hgroup, List.length_map, map_uids huid]
  simp only [List.forall_mem_map, huid]

theorem retained_map {a : AttachmentRecord} :
    Retained (current.map φ) (requested.map φ) (φ a) ↔ Retained current requested a := by
  unfold Retained
  simp only [hgroup, dropped_map huid hgroup]

theorem normalizeRound_map (acc : List AttachmentRecord × List String) (a : AttachmentRecord) :
    normalizeRound (current.map φ) (requested.map φ) (acc.1.map φ, acc.2) (φ a) =
      ((normalizeRound current requested acc a).1.map φ,
        (normalizeRound current requested acc a).2) := by
  unfold normalizeRound
  rw [hgroup]
  cases motionGroup a with
  | none => exact congrArg (·, acc.2) (appendAttachments_map huid acc.1 [a])
  | some groupId =>
    dsimp only
    by_cases hdone : groupId ∈ acc.2
    · rw [if_pos hdone, if_pos hdone]
    · rw [if_neg hdone, if_neg hdone]
      by_cases hdropped : Dropped current requested groupId
      · have hmapped := (dropped_map huid hgroup).mpr hdropped
        unfold Dropped at hdropped hmapped
        rw [if_pos hdropped, if_pos hmapped]
      · have hmapped := mt (dropped_map huid hgroup).mp hdropped
        unfold Dropped at hdropped hmapped
        rw [if_neg hdropped, if_neg hmapped, filter_group_map hgroup,
          appendAttachments_map huid]

theorem normalizedAttachments_map (current requested : List AttachmentRecord) :
    normalizedAttachments (current.map φ) (requested.map φ) =
      (normalizedAttachments current requested).map φ := by
  have hloop : ∀ (rest : List AttachmentRecord) (acc : List AttachmentRecord × List String),
      (rest.map φ).foldl (normalizeRound (current.map φ) (requested.map φ)) (acc.1.map φ, acc.2) =
        ((rest.foldl (normalizeRound current requested) acc).1.map φ,
          (rest.foldl (normalizeRound current requested) acc).2) := by
    intro rest
    induction rest with
    | nil => exact fun acc => rfl
    | cons a rest ih =>
      intro acc
      rw [List.map_cons, List.foldl_cons, List.foldl_cons, normalizeRound_map huid hgroup]
      exact ih _
  exact congrArg Prod.fst (hloop requested ([], []))

end map

end rounds

end Memoark.Server.WriteMemos
