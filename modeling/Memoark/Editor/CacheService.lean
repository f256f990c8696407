import Mathlib.Data.List.AList
import Memoark.Editor.Cache

/-! `cacheService` (`services/cacheService.ts`) with the timers of the window: the map from keys to
timeout ids, and the saves that the timers hold. It refines the draft cache. -/
namespace Memoark.Editor
open Memoark.System

structure Timeout where
  id : Nat
  key : String
  content : String
  metadata : DraftMetadata

structure CacheService where
  storage : String → Option Draft
  writable : Bool
  pendingSaves : AList fun _ : String => Nat
  timeouts : List Timeout
  /-- Timeout ids are positive, so that they are true in a condition. -/
  nextTimeoutId : Nat

namespace CacheService

section operations

variable (s : CacheService)

def clearTimeout (id : Nat) : CacheService :=
  { s with timeouts := s.timeouts.filter (·.id ≠ id) }

def setTimeout (key content : String) (metadata : DraftMetadata) : CacheService × Nat :=
  ({ s with
      timeouts := s.timeouts ++ [⟨s.nextTimeoutId, key, content, metadata⟩]
      nextTimeoutId := s.nextTimeoutId + 1 }, s.nextTimeoutId)

def removeEntry (key : String) : CacheService := { s with storage := update s.storage key none }

def writeEntry (now key content : String) (metadata : DraftMetadata) : Bool × CacheService :=
  if metadata.mode.getD .create = .create ∧ Js.isBlank content then
    (metadata.pending ≠ some true, s.removeEntry key)
  else if s.writable then
    (true, { s with storage := update s.storage key (some (Cache.entry now content metadata)) })
  else (false, s)

def cancel (key : String) : CacheService :=
  match s.pendingSaves.lookup key with
  | some pendingSave =>
    if pendingSave ≠ 0 then
      { s.clearTimeout pendingSave with pendingSaves := s.pendingSaves.erase key }
    else s
  | none => s

def save (key content : String) (metadata : DraftMetadata) : CacheService :=
  let s :=
    match s.pendingSaves.lookup key with
    | some pendingSave => if pendingSave ≠ 0 then s.clearTimeout pendingSave else s
    | none => s
  let (s, timeoutId) := s.setTimeout key content metadata
  { s with pendingSaves := s.pendingSaves.insert key timeoutId }

def fire (now : String) (timeout : Timeout) : CacheService :=
  let s := { s.clearTimeout timeout.id with pendingSaves := s.pendingSaves.erase timeout.key }
  (s.writeEntry now timeout.key timeout.content timeout.metadata).2

def saveNow (now key content : String) (metadata : DraftMetadata) : Bool × CacheService :=
  (s.cancel key).writeEntry now key content metadata

def loadDraft (key : String) : Option Draft := s.storage key

def clear (key : String) : CacheService := (s.cancel key).removeEntry key

def clearAll : CacheService :=
  { s with
    timeouts := s.timeouts.filter fun t => t.id ∉ s.pendingSaves.entries.map Sigma.snd
    pendingSaves := ∅ }

end operations

def toCache (s : CacheService) : Cache where
  storage := s.storage
  pendingSaves key := (s.timeouts.find? (·.key = key)).map fun t => ⟨t.content, t.metadata⟩
  writable := s.writable

structure Matched (s : CacheService) : Prop where
  positive : 0 < s.nextTimeoutId
  fresh : ∀ t ∈ s.timeouts, 0 < t.id ∧ t.id < s.nextTimeoutId
  distinct : (s.timeouts.map (·.id)).Nodup
  known : ∀ t ∈ s.timeouts, s.pendingSaves.lookup t.key = some t.id
  alive : ∀ key id, s.pendingSaves.lookup key = some id → ∃ t ∈ s.timeouts, t.key = key ∧ t.id = id

section matched

variable {s s' : CacheService} {key : String}

theorem Matched.id_iff (h : s.Matched) {id : Nat} (hid : s.pendingSaves.lookup key = some id)
    {t : Timeout} (ht : t ∈ s.timeouts) : t.id = id ↔ t.key = key := by
  constructor
  · intro heq
    obtain ⟨u, hu, hkey, huid⟩ := h.alive key id hid
    have hsame : t = u := List.inj_on_of_nodup_map h.distinct ht hu (heq.trans huid.symm)
    rw [hsame, hkey]
  · intro hkey
    have hknown := h.known t ht
    rw [hkey, hid] at hknown
    exact (Option.some.inj hknown).symm

theorem Matched.clearTimeout (h : s.Matched) {id : Nat}
    (hid : s.pendingSaves.lookup key = some id) :
    (s.clearTimeout id).timeouts = s.timeouts.filter (·.key ≠ key) := by
  refine List.filter_congr fun t ht => ?_
  simp only [ne_eq, h.id_iff hid ht]

theorem Matched.timeouts_of_none (h : s.Matched) (hnone : s.pendingSaves.lookup key = none) :
    s.timeouts.filter (·.key ≠ key) = s.timeouts := by
  rw [List.filter_eq_self]
  intro t ht
  have hne : t.key ≠ key := by
    rintro rfl
    rw [h.known t ht] at hnone
    cases hnone
  exact decide_eq_true hne

theorem Matched.id_pos (h : s.Matched) {id : Nat} (hid : s.pendingSaves.lookup key = some id) :
    id ≠ 0 := by
  obtain ⟨t, ht, -, rfl⟩ := h.alive key id hid
  have hpos := (h.fresh t ht).1
  omega

theorem Matched.without (h : s.Matched) (hnext : s'.nextTimeoutId = s.nextTimeoutId)
    (htimeouts : s'.timeouts = s.timeouts.filter (·.key ≠ key))
    (hself : s'.pendingSaves.lookup key = none)
    (hothers : ∀ k, k ≠ key → s'.pendingSaves.lookup k = s.pendingSaves.lookup k) :
    s'.Matched where
  positive := by
    rw [hnext]
    exact h.positive
  fresh t ht := by
    rw [htimeouts] at ht
    rw [hnext]
    exact h.fresh t (List.mem_of_mem_filter ht)
  distinct := by
    rw [htimeouts]
    exact h.distinct.sublist (List.filter_sublist.map _)
  known t ht := by
    rw [htimeouts] at ht
    obtain ⟨ht, hne⟩ := List.mem_filter.mp ht
    rw [hothers t.key (of_decide_eq_true hne)]
    exact h.known t ht
  alive k id hid := by
    have hk : k ≠ key := by
      rintro rfl
      rw [hself] at hid
      cases hid
    rw [hothers k hk] at hid
    obtain ⟨t, ht, rfl, rfl⟩ := h.alive k id hid
    refine ⟨t, ?_, rfl, rfl⟩
    rw [htimeouts]
    exact List.mem_filter.mpr ⟨ht, decide_eq_true hk⟩

theorem timeouts_cancel (h : s.Matched) :
    (s.cancel key).timeouts = s.timeouts.filter (·.key ≠ key) := by
  rw [cancel]
  split
  · rename_i id hid
    rw [if_pos (h.id_pos hid)]
    exact h.clearTimeout hid
  · rename_i hnone
    exact (h.timeouts_of_none hnone).symm

theorem lookup_cancel_self (h : s.Matched) : (s.cancel key).pendingSaves.lookup key = none := by
  rw [cancel]
  split
  · rename_i id hid
    rw [if_pos (h.id_pos hid)]
    exact AList.lookup_erase ..
  · assumption

theorem lookup_cancel_of_ne {k : String} (hk : k ≠ key) :
    (s.cancel key).pendingSaves.lookup k = s.pendingSaves.lookup k := by
  rw [cancel]
  split
  · split
    · exact AList.lookup_erase_ne hk
    · rfl
  · rfl

@[simp] theorem storage_cancel : (s.cancel key).storage = s.storage := by
  rw [cancel]
  split
  · split <;> rfl
  · rfl

@[simp] theorem writable_cancel : (s.cancel key).writable = s.writable := by
  rw [cancel]
  split
  · split <;> rfl
  · rfl

@[simp] theorem nextTimeoutId_cancel : (s.cancel key).nextTimeoutId = s.nextTimeoutId := by
  rw [cancel]
  split
  · split <;> rfl
  · rfl

theorem Matched.cancel (h : s.Matched) (key : String) : (s.cancel key).Matched :=
  h.without nextTimeoutId_cancel (timeouts_cancel h) (lookup_cancel_self h)
    fun _ hk => lookup_cancel_of_ne hk

theorem Matched.congr (h : s.Matched) (htimeouts : s'.timeouts = s.timeouts)
    (hpending : s'.pendingSaves = s.pendingSaves)
    (hnext : s'.nextTimeoutId = s.nextTimeoutId) : s'.Matched where
  positive := by
    rw [hnext]
    exact h.positive
  fresh := by
    rw [htimeouts, hnext]
    exact h.fresh
  distinct := by
    rw [htimeouts]
    exact h.distinct
  known := by
    rw [htimeouts, hpending]
    exact h.known
  alive := by
    rw [htimeouts, hpending]
    exact h.alive

theorem Matched.writeEntry (h : s.Matched) (now key content : String) (metadata : DraftMetadata) :
    (s.writeEntry now key content metadata).2.Matched := by
  rw [CacheService.writeEntry]
  split
  · exact h.congr rfl rfl rfl
  · split
    · exact h.congr rfl rfl rfl
    · exact h

theorem Matched.setTimeout (h : s.Matched) {content : String} {metadata : DraftMetadata}
    (hnone : ∀ t ∈ s.timeouts, t.key ≠ key) {m : AList fun _ : String => Nat}
    (hm : ∀ k, k ≠ key → m.lookup k = s.pendingSaves.lookup k) :
    Matched { (s.setTimeout key content metadata).1 with
      pendingSaves := m.insert key s.nextTimeoutId } where
  positive := Nat.succ_pos _
  fresh t ht := by
    have hpos := h.positive
    rcases List.mem_append.mp ht with ht | ht
    · obtain ⟨hlow, hhigh⟩ := h.fresh t ht
      exact ⟨hlow, Nat.lt_succ_of_lt hhigh⟩
    · rw [List.mem_singleton.mp ht]
      exact ⟨hpos, Nat.lt_succ_self _⟩
  distinct := by
    rw [CacheService.setTimeout, List.map_append]
    refine List.nodup_append.mpr ⟨h.distinct, List.nodup_singleton _, ?_⟩
    intro id hid id' hid'
    obtain ⟨t, ht, rfl⟩ := List.mem_map.mp hid
    rw [List.mem_singleton.mp hid']
    exact Nat.ne_of_lt (h.fresh t ht).2
  known t ht := by
    rcases List.mem_append.mp ht with ht | ht
    · have hne := hnone t ht
      rw [AList.lookup_insert_ne hne, hm t.key hne]
      exact h.known t ht
    · rw [List.mem_singleton.mp ht]
      exact AList.lookup_insert _
  alive k id hid := by
    by_cases hk : k = key
    · subst hk
      rw [AList.lookup_insert] at hid
      exact ⟨_, List.mem_append_right _ (List.mem_singleton_self _), rfl, Option.some.inj hid⟩
    · rw [AList.lookup_insert_ne hk, hm k hk] at hid
      obtain ⟨t, ht, hkey, htid⟩ := h.alive k id hid
      exact ⟨t, List.mem_append_left _ ht, hkey, htid⟩

theorem timeouts_save (h : s.Matched) :
    (match s.pendingSaves.lookup key with
      | some pendingSave => if pendingSave ≠ 0 then s.clearTimeout pendingSave else s
      | none => s) = { s with timeouts := s.timeouts.filter (·.key ≠ key) } := by
  cases hid : s.pendingSaves.lookup key with
  | some id =>
    rw [← h.clearTimeout hid]
    exact if_pos (h.id_pos hid)
  | none =>
    rw [h.timeouts_of_none hid]

theorem save_eq (h : s.Matched) (content : String) (metadata : DraftMetadata) :
    s.save key content metadata = { s with
      timeouts := s.timeouts.filter (·.key ≠ key) ++ [⟨s.nextTimeoutId, key, content, metadata⟩]
      pendingSaves := s.pendingSaves.insert key s.nextTimeoutId
      nextTimeoutId := s.nextTimeoutId + 1 } := by
  rw [save, timeouts_save h]
  rfl

theorem Matched.save (h : s.Matched) (key content : String) (metadata : DraftMetadata) :
    (s.save key content metadata).Matched := by
  have hnone : ∀ t ∈ (s.cancel key).timeouts, t.key ≠ key := by
    intro t ht
    rw [timeouts_cancel h] at ht
    exact of_decide_eq_true (List.mem_filter.mp ht).2
  have hset : Matched { ((s.cancel key).setTimeout key content metadata).1 with
      pendingSaves := s.pendingSaves.insert key (s.cancel key).nextTimeoutId } :=
    (h.cancel key).setTimeout hnone fun k hk => (lookup_cancel_of_ne (s := s) hk).symm
  refine hset.congr ?_ ?_ ?_
  · rw [save_eq h]
    simp only [CacheService.setTimeout, timeouts_cancel h, nextTimeoutId_cancel]
  · rw [save_eq h, nextTimeoutId_cancel]
  · rw [save_eq h]
    simp only [CacheService.setTimeout, nextTimeoutId_cancel]

theorem Matched.saveNow (h : s.Matched) (now key content : String) (metadata : DraftMetadata) :
    (s.saveNow now key content metadata).2.Matched := (h.cancel key).writeEntry _ _ _ _

theorem Matched.clear (h : s.Matched) (key : String) : (s.clear key).Matched :=
  (h.cancel key).congr rfl rfl rfl

theorem timeouts_clearAll (h : s.Matched) : s.clearAll.timeouts = [] := by
  rw [clearAll, List.filter_eq_nil_iff]
  intro t ht
  have hentry : ⟨t.key, t.id⟩ ∈ s.pendingSaves.entries := AList.mem_lookup_iff.mp (h.known t ht)
  simpa using ⟨t.key, hentry⟩

theorem Matched.clearAll (h : s.Matched) : s.clearAll.Matched where
  positive := h.positive
  fresh := by simp [timeouts_clearAll h]
  distinct := by simp [timeouts_clearAll h]
  known := by simp [timeouts_clearAll h]
  alive key id hid := by
    rw [CacheService.clearAll, AList.lookup_empty] at hid
    cases hid

theorem timeouts_fire (h : s.Matched) {t : Timeout} (ht : t ∈ s.timeouts) :
    (s.clearTimeout t.id).timeouts = s.timeouts.filter (·.key ≠ t.key) :=
  h.clearTimeout (h.known t ht)

theorem Matched.fire (h : s.Matched) (now : String) {t : Timeout} (ht : t ∈ s.timeouts) :
    (s.fire now t).Matched := by
  have hcleared : Matched { s.clearTimeout t.id with pendingSaves := s.pendingSaves.erase t.key } :=
    h.without rfl (timeouts_fire h ht) (AList.lookup_erase ..) fun _ hk => AList.lookup_erase_ne hk
  exact hcleared.writeEntry _ _ _ _

end matched

section refinement

variable {s : CacheService} {key : String}

theorem pendingSaves_filter (timeouts : List Timeout) (key : String) :
    (fun k => ((timeouts.filter (·.key ≠ key)).find? (·.key = k)).map
      fun t => (⟨t.content, t.metadata⟩ : PendingSave)) =
      update (fun k => (timeouts.find? (·.key = k)).map fun t => ⟨t.content, t.metadata⟩) key
        none := by
  funext k
  rw [List.find?_filter]
  by_cases hk : k = key
  · subst hk
    rw [update_self, Option.map_eq_none_iff, List.find?_eq_none]
    simp
  · rw [update_of_ne hk]
    congr 2
    funext t
    by_cases htk : t.key = k
    · simp [htk, hk]
    · simp [htk]

theorem toCache_writeEntry (now content : String) (metadata : DraftMetadata) :
    (s.writeEntry now key content metadata).1 = (s.toCache.writeEntry now key content metadata).1 ∧
      (s.writeEntry now key content metadata).2.toCache =
        (s.toCache.writeEntry now key content metadata).2 := by
  rw [writeEntry, Cache.writeEntry]
  split
  · exact ⟨rfl, rfl⟩
  · have hwritable : s.toCache.writable = s.writable := rfl
    rw [hwritable]
    split <;> exact ⟨rfl, rfl⟩

theorem toCache_cancel (h : s.Matched) : (s.cancel key).toCache = s.toCache.clearTimeout key := by
  simp only [toCache, timeouts_cancel h, storage_cancel, writable_cancel, pendingSaves_filter,
    Cache.clearTimeout]

theorem toCache_save (h : s.Matched) (content : String) (metadata : DraftMetadata) :
    (s.save key content metadata).toCache = s.toCache.save key content metadata := by
  rw [save_eq h, toCache, Cache.save, toCache]
  congr 1
  funext k
  have hfilter := congrFun (pendingSaves_filter s.timeouts key) k
  dsimp only at hfilter ⊢
  rw [List.find?_append, Option.map_or, hfilter]
  by_cases hk : k = key
  · subst hk
    simp
  · have hne : key ≠ k := Ne.symm hk
    simp [hk, hne]

theorem toCache_saveNow (h : s.Matched) (now content : String) (metadata : DraftMetadata) :
    (s.saveNow now key content metadata).1 = (s.toCache.saveNow now key content metadata).1 ∧
      (s.saveNow now key content metadata).2.toCache =
        (s.toCache.saveNow now key content metadata).2 := by
  rw [saveNow, Cache.saveNow, ← toCache_cancel h]
  exact toCache_writeEntry now content metadata

theorem toCache_clear (h : s.Matched) : (s.clear key).toCache = s.toCache.clear key := by
  rw [clear, Cache.clear, ← toCache_cancel h]
  rfl

theorem find?_timeouts (h : s.Matched) {t : Timeout} (ht : t ∈ s.timeouts) :
    s.timeouts.find? (·.key = t.key) = some t := by
  cases hfind : s.timeouts.find? (·.key = t.key) with
  | none =>
    have hne := List.find?_eq_none.mp hfind t ht
    simp at hne
  | some u =>
    have hu : u ∈ s.timeouts := List.mem_of_find?_eq_some hfind
    have hkey : u.key = t.key := by simpa using List.find?_some hfind
    have hid : u.id = t.id := (h.id_iff (h.known t ht) hu).mpr hkey
    rw [List.inj_on_of_nodup_map h.distinct hu ht hid]

theorem pendingSaves_toCache (h : s.Matched) {t : Timeout} (ht : t ∈ s.timeouts) :
    s.toCache.pendingSaves t.key = some ⟨t.content, t.metadata⟩ := by
  have hmap := congrArg (Option.map fun t : Timeout => (⟨t.content, t.metadata⟩ : PendingSave))
    (find?_timeouts h ht)
  exact hmap

theorem toCache_fire (h : s.Matched) (now : String) {t : Timeout} (ht : t ∈ s.timeouts) :
    s.toCache.timeout now t.key = some (s.fire now t).toCache := by
  have hcleared : CacheService.toCache { s.clearTimeout t.id with
      pendingSaves := s.pendingSaves.erase t.key } = s.toCache.clearTimeout t.key := by
    rw [toCache, Cache.clearTimeout, toCache, timeouts_fire h ht, pendingSaves_filter]
    rfl
  rw [Cache.timeout, pendingSaves_toCache h ht, fire, ← hcleared]
  exact congrArg some (toCache_writeEntry now t.content t.metadata).2.symm

theorem toCache_clearAll (h : s.Matched) :
    s.clearAll.toCache = { s.toCache with pendingSaves := fun _ => none } := by
  rw [toCache, timeouts_clearAll h]
  rfl

end refinement

end CacheService

end Memoark.Editor
