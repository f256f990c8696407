import Memoark.Program.Returns
import Memoark.Settings.Service

/-! When `UpdateInstanceSetting` accepts the providers that `GetInstanceSetting` answered, and
what it makes of them. -/
namespace Memoark.Settings
open Go Program

def resent (p : AIProviderConfig) : AIProviderConfig := { p with apiKey := "" }

def normalized (p : AIProviderConfig) : AIProviderConfig :=
  { p with title := trimSpace p.title, endpoint := defaultEndpoint p.type (trimSpace p.endpoint) }

theorem preparedId_resent (newId : String) (p : AIProviderConfig) :
    preparedId newId (resent p) = preparedId newId p := rfl

theorem prepareProvider_resent {existing : List AIProviderConfig} {newId : String}
    {seen : List String} {p q : AIProviderConfig} :
    prepareProvider existing newId seen (resent p) = .ok q ↔
      preparedId newId p ∉ seen ∧ trimSpace p.title ≠ "" ∧ supported p.type ∧
        (existingApiKey existing (preparedId newId p)).getD "" ≠ "" ∧
          q = { normalized p with
            id := preparedId newId p
            apiKey := (existingApiKey existing (preparedId newId p)).getD "" } := by
  have hkey : preparedApiKey existing (preparedId newId p) (resent p) =
      (existingApiKey existing (preparedId newId p)).getD "" := if_pos rfl
  have htrim : trimSpace (resent p).title = trimSpace p.title := rfl
  have htype : (resent p).type = p.type := rfl
  simp only [prepareProvider, preparedId_resent, hkey, htrim, htype]
  by_cases hseen : preparedId newId p ∈ seen
  · simp [hseen]
  · by_cases htitle : trimSpace p.title = ""
    · simp [hseen, htitle]
    · cases hsupported : supported p.type with
      | false => simp [hseen, htitle]
      | true =>
        by_cases hempty : (existingApiKey existing (preparedId newId p)).getD "" = ""
        · simp [hseen, htitle, hempty]
        · simp only [hseen, htitle, hempty, Bool.not_true, Bool.false_eq_true, if_false,
            not_false_iff, true_and, ne_eq, Except.ok.injEq, normalized]
          exact eq_comm

theorem existingApiKey_some {existing : List AIProviderConfig} {id : String}
    (h : (existingApiKey existing id).getD "" ≠ "") : ∃ r ∈ existing, r.id ≠ "" ∧ r.id = id := by
  cases hfind : existing.reverse.find? fun p => p.id ≠ "" ∧ p.id = id with
  | none =>
    rw [existingApiKey, hfind] at h
    exact absurd rfl h
  | some r =>
    have hmem := List.mem_of_find?_eq_some hfind
    have hr := List.find?_some hfind
    exact ⟨r, List.mem_reverse.mp hmem, of_decide_eq_true hr⟩

def stored (existing : List AIProviderConfig) (p : AIProviderConfig) : AIProviderConfig :=
  { normalized p with
    id := trimSpace p.id
    apiKey := (existingApiKey existing (trimSpace p.id)).getD "" }

structure Passes (existing : List AIProviderConfig) (p : AIProviderConfig) : Prop where
  id : trimSpace p.id ≠ ""
  title : trimSpace p.title ≠ ""
  type : supported p.type
  apiKey : (existingApiKey existing (trimSpace p.id)).getD "" ≠ ""

def NewIds (newIds : Nat → String) (existing : List AIProviderConfig) : Prop :=
  ∀ i, ∀ r ∈ existing, r.id ≠ newIds i

theorem prepareProvider_passes {existing : List AIProviderConfig} {newIds : Nat → String}
    (hnew : NewIds newIds existing) {i : Nat} {seen : List String} {p q : AIProviderConfig} :
    prepareProvider existing (newIds i) seen (resent p) = .ok q ↔
      Passes existing p ∧ trimSpace p.id ∉ seen ∧ q = stored existing p := by
  rw [prepareProvider_resent]
  by_cases hid : trimSpace p.id = ""
  · have hprepared : preparedId (newIds i) p = newIds i := if_pos hid
    rw [hprepared]
    constructor
    · rintro ⟨_, _, _, hkey, _⟩
      obtain ⟨r, hr, _, heq⟩ := existingApiKey_some hkey
      exact absurd heq (hnew i r hr)
    · rintro ⟨hpasses, _⟩
      exact absurd hid hpasses.id
  · have hprepared : preparedId (newIds i) p = trimSpace p.id := if_neg hid
    rw [hprepared]
    constructor
    · rintro ⟨hseen, htitle, htype, hkey, hq⟩
      exact ⟨⟨hid, htitle, htype, hkey⟩, hseen, hq⟩
    · rintro ⟨hpasses, hseen, hq⟩
      exact ⟨hseen, hpasses.title, hpasses.type, hpasses.apiKey, hq⟩

theorem prepareProviders_passes {existing : List AIProviderConfig} {newIds : Nat → String}
    (hnew : NewIds newIds existing) (i : Nat) (seen : List String)
    (ps qs : List AIProviderConfig) :
    prepareProviders existing newIds i seen (ps.map resent) = .ok qs ↔
      (∀ p ∈ ps, Passes existing p ∧ trimSpace p.id ∉ seen) ∧
        (ps.map fun p => trimSpace p.id).Nodup ∧ qs = ps.map (stored existing) := by
  induction ps generalizing i seen qs with
  | nil =>
    simp only [List.map_nil, prepareProviders, List.not_mem_nil, false_implies, implies_true,
      List.nodup_nil, true_and]
    exact ⟨fun h => (Except.ok.inj h).symm, fun h => congrArg _ h.symm⟩
  | cons p ps ih =>
    simp only [List.map_cons, prepareProviders, List.forall_mem_cons, List.nodup_cons]
    constructor
    · intro h
      obtain ⟨q, hq, h⟩ := bind_ok h
      obtain ⟨rest, hrest, h⟩ := bind_ok h
      cases h
      obtain ⟨hpasses, hseen, rfl⟩ := (prepareProvider_passes hnew).mp hq
      obtain ⟨hall, hnodup, rfl⟩ := (ih _ _ _).mp hrest
      refine ⟨⟨⟨hpasses, hseen⟩, fun r hr => ?_⟩, ⟨?_, hnodup⟩, rfl⟩
      · obtain ⟨hr, hnot⟩ := hall r hr
        exact ⟨hr, fun hmem => hnot (.tail _ hmem)⟩
      · intro hmem
        obtain ⟨r, hr, heq⟩ := List.mem_map.mp hmem
        obtain ⟨_, hnot⟩ := hall r hr
        apply hnot
        rw [heq]
        exact .head _
    · rintro ⟨⟨⟨hpasses, hseen⟩, hall⟩, ⟨hhead, hnodup⟩, rfl⟩
      have hq := (prepareProvider_passes hnew (i := i)).mpr ⟨hpasses, hseen, rfl⟩
      have hrest := (ih (i + 1) ((stored existing p).id :: seen) (ps.map (stored existing))).mpr
        ⟨fun r hr => ⟨(hall r hr).1, ?_⟩, hnodup, rfl⟩
      · rw [hq]
        simp only [bind, Except.bind, hrest]
        rfl
      · intro hmem
        rcases List.mem_cons.mp hmem with heq | hold
        · exact hhead (List.mem_map.mpr ⟨r, hr, heq⟩)
        · exact (hall r hr).2 hold

private theorem eq_of_nodup_map {α β : Type} {f : α → β} {l : List α} (h : (l.map f).Nodup) {a b : α}
    (ha : a ∈ l) (hb : b ∈ l) (heq : f a = f b) : a = b := by
  induction l with
  | nil => cases ha
  | cons c l ih =>
    rw [List.map_cons, List.nodup_cons] at h
    obtain ⟨hc, hl⟩ := h
    rcases List.mem_cons.mp ha with hac | hal
    · rcases List.mem_cons.mp hb with hbc | hbl
      · rw [hac, hbc]
      · rw [← hac, heq] at hc
        exact absurd (List.mem_map_of_mem hbl) hc
    · rcases List.mem_cons.mp hb with hbc | hbl
      · rw [← hbc, ← heq] at hc
        exact absurd (List.mem_map_of_mem hal) hc
      · exact ih hl hal hbl

structure Acceptable (ps : List AIProviderConfig) : Prop where
  id : ∀ p ∈ ps, trimSpace p.id = p.id ∧ p.id ≠ ""
  distinct : (ps.map (·.id)).Nodup
  title : ∀ p ∈ ps, trimSpace p.title ≠ ""
  type : ∀ p ∈ ps, supported p.type
  apiKey : ∀ p ∈ ps, p.apiKey ≠ ""

theorem existingApiKey_of_distinct {ps : List AIProviderConfig} (h : (ps.map (·.id)).Nodup)
    {p : AIProviderConfig} (hp : p ∈ ps) (hid : p.id ≠ "") :
    existingApiKey ps p.id = some p.apiKey := by
  cases hfind : ps.reverse.find? fun r => r.id ≠ "" ∧ r.id = p.id with
  | none =>
    have hnone := List.find?_eq_none.mp hfind p (List.mem_reverse.mpr hp)
    exact absurd (decide_eq_true ⟨hid, rfl⟩) hnone
  | some r =>
    have hr : r.id ≠ "" ∧ r.id = p.id := by simpa using List.find?_some hfind
    have hmem := List.mem_reverse.mp (List.mem_of_find?_eq_some hfind)
    obtain rfl : r = p := eq_of_nodup_map h hmem hp hr.2
    rw [existingApiKey, hfind]
    rfl

/-- Ids that pass are already trimmed: the id after trimming names an existing provider, and no
two ids are the same after trimming. -/
theorem trimSpace_id_of_passes {ps : List AIProviderConfig} (hall : ∀ p ∈ ps, Passes ps p)
    (hnodup : (ps.map fun p => trimSpace p.id).Nodup) {p : AIProviderConfig} (hp : p ∈ ps) :
    trimSpace p.id = p.id := by
  obtain ⟨r, hr, _, heq⟩ := existingApiKey_some (hall p hp).apiKey
  have htrim : trimSpace r.id = trimSpace p.id := by rw [heq, trimSpace_trimSpace]
  obtain rfl : r = p := eq_of_nodup_map hnodup hr hp htrim
  exact heq.symm

theorem passes_iff_acceptable {ps : List AIProviderConfig} :
    (∀ p ∈ ps, Passes ps p) ∧ (ps.map fun p => trimSpace p.id).Nodup ↔ Acceptable ps := by
  constructor
  · rintro ⟨hall, hnodup⟩
    have htrim {p : AIProviderConfig} (hp : p ∈ ps) := trimSpace_id_of_passes hall hnodup hp
    have hids : (ps.map fun p => trimSpace p.id) = ps.map (·.id) :=
      List.map_congr_left fun p hp => htrim hp
    rw [hids] at hnodup
    have hne {p : AIProviderConfig} (hp : p ∈ ps) : p.id ≠ "" := by
      rw [← htrim hp]
      exact (hall p hp).id
    refine ⟨fun p hp => ⟨htrim hp, hne hp⟩, hnodup, fun p hp => (hall p hp).title,
      fun p hp => (hall p hp).type, fun p hp => ?_⟩
    have hkey := (hall p hp).apiKey
    rw [htrim hp, existingApiKey_of_distinct hnodup hp (hne hp)] at hkey
    exact hkey
  · intro h
    refine ⟨fun p hp => ?_, ?_⟩
    · obtain ⟨htrim, hne⟩ := h.id p hp
      refine ⟨?_, h.title p hp, h.type p hp, ?_⟩
      · rw [htrim]
        exact hne
      · rw [htrim, existingApiKey_of_distinct h.distinct hp hne]
        exact h.apiKey p hp
    · have hids : (ps.map fun p => trimSpace p.id) = ps.map (·.id) :=
        List.map_congr_left fun p hp => (h.id p hp).1
      rw [hids]
      exact h.distinct

theorem stored_of_acceptable {ps : List AIProviderConfig} (h : Acceptable ps)
    {p : AIProviderConfig} (hp : p ∈ ps) : stored ps p = normalized p := by
  obtain ⟨htrim, hne⟩ := h.id p hp
  simp only [stored, htrim, existingApiKey_of_distinct h.distinct hp hne, Option.getD_some]
  rfl

theorem prepareProviders_resent {ps qs : List AIProviderConfig} {newIds : Nat → String}
    (hnew : NewIds newIds ps) :
    prepareProviders ps newIds 0 [] (ps.map resent) = .ok qs ↔
      Acceptable ps ∧ qs = ps.map normalized := by
  rw [prepareProviders_passes hnew, ← passes_iff_acceptable]
  constructor
  · rintro ⟨hall, hnodup, rfl⟩
    have hpasses : ∀ p ∈ ps, Passes ps p := fun p hp => (hall p hp).1
    have hacceptable := passes_iff_acceptable.mp ⟨hpasses, hnodup⟩
    exact ⟨⟨hpasses, hnodup⟩, List.map_congr_left fun p hp => stored_of_acceptable hacceptable hp⟩
  · rintro ⟨⟨hpasses, hnodup⟩, rfl⟩
    have hacceptable := passes_iff_acceptable.mp ⟨hpasses, hnodup⟩
    exact ⟨fun p hp => ⟨hpasses p hp, List.not_mem_nil⟩, hnodup,
      List.map_congr_left fun p hp => (stored_of_acceptable hacceptable hp).symm⟩

end Memoark.Settings
