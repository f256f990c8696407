import Memoark.Editor.CacheService

/-! Runs of the debounced draft cache: the editors' calls, and the timers of the window that fire
between them. What a key holds is told from the calls alone. -/
namespace Memoark.Editor
open Memoark.System

/-- A call of `cacheService`, or a timer that fires. -/
inductive CacheEvent where
  | save (key content : String) (metadata : DraftMetadata)
  | saveNow (now key content : String) (metadata : DraftMetadata)
  | clear (key : String)
  | clearAll
  | timeout (now key : String) (id : Nat)

namespace CacheEvent

def key? : CacheEvent → Option String
  | .save key .. | .saveNow _ key .. | .clear key | .timeout _ key _ => some key
  | .clearAll => none

def written (now content : String) (metadata : DraftMetadata) : Option Draft :=
  if metadata.mode.getD .create = .create ∧ Js.isBlank content then none
  else some (Cache.entry now content metadata)

def firing (key : String) : List CacheEvent → Option String
  | [] => none
  | .timeout now k _ :: later => if k = key then some now else firing key later
  | .clearAll :: _ => none
  | .save .. :: later | .saveNow .. :: later | .clear _ :: later => firing key later

/-- The entry that a call leaves for a key, given what comes after it. -/
def effect (key : String) (later : List CacheEvent) : CacheEvent → Option (Option Draft)
  | .save k content metadata =>
    if k = key then (firing key later).map fun now => written now content metadata else none
  | .saveNow now k content metadata => if k = key then some (written now content metadata) else none
  | .clear k => if k = key then some none else none
  | .clearAll | .timeout .. => none

def determined (key : String) : Option Draft → List CacheEvent → Option Draft
  | stored, [] => stored
  | stored, event :: later => determined key ((event.effect key later).getD stored) later

def Quiet (key : String) (events : List CacheEvent) : Prop :=
  ∀ event ∈ events, event.key? ≠ some key ∧ event ≠ .clearAll

section lemmas

variable {key : String}

theorem firing_append_of_ne {event : CacheEvent} (h : ∀ now id, event ≠ .timeout now key id)
    (later : List CacheEvent) : firing key (later ++ [event]) = firing key later := by
  induction later with
  | nil =>
    cases event with
    | timeout now k id =>
      have hk : k ≠ key := by
        rintro rfl
        exact h now id rfl
      exact if_neg hk
    | _ => rfl
  | cons head later ih =>
    cases head with
    | timeout now k id =>
      rw [List.cons_append, firing, firing, ih]
    | clearAll => rfl
    | _ => exact ih

theorem effect_append_of_ne {event : CacheEvent} (h : ∀ now id, event ≠ .timeout now key id)
    (later : List CacheEvent) (call : CacheEvent) :
    call.effect key (later ++ [event]) = call.effect key later := by
  cases call with
  | save k content metadata => rw [effect, effect, firing_append_of_ne h]
  | _ => rfl

theorem determined_append_of_ne {event : CacheEvent} (h : ∀ now id, event ≠ .timeout now key id)
    (stored : Option Draft) (events : List CacheEvent) :
    determined key stored (events ++ [event]) =
      (event.effect key []).getD (determined key stored events) := by
  induction events generalizing stored with
  | nil => rfl
  | cons head events ih =>
    rw [List.cons_append, determined, determined, effect_append_of_ne h]
    exact ih _

theorem effect_of_ne {event : CacheEvent} (h : event.key? ≠ some key)
    (later : List CacheEvent) : event.effect key later = none := by
  cases event with
  | save k content metadata => exact if_neg fun hk => h (congrArg some hk)
  | saveNow now k content metadata => exact if_neg fun hk => h (congrArg some hk)
  | clear k => exact if_neg fun hk => h (congrArg some hk)
  | clearAll => rfl
  | timeout now k id => rfl

theorem determined_of_quiet {events : List CacheEvent} (h : Quiet key events)
    (later : List CacheEvent) (stored : Option Draft) :
    determined key stored (events ++ later) = determined key stored later := by
  induction events with
  | nil => rfl
  | cons head events ih =>
    rw [List.cons_append, determined, effect_of_ne (h head List.mem_cons_self).1]
    exact ih fun event hevent => h event (List.mem_cons_of_mem _ hevent)

theorem firing_of_quiet {events : List CacheEvent} (h : Quiet key events) (now : String) (id : Nat) :
    firing key (events ++ [.timeout now key id]) = some now := by
  induction events with
  | nil => exact if_pos rfl
  | cons head events ih =>
    have ih := ih fun event hevent => h event (List.mem_cons_of_mem _ hevent)
    obtain ⟨hkey, hall⟩ := h head List.mem_cons_self
    cases head with
    | timeout t k i => exact (if_neg fun hk => hkey (congrArg some hk)).trans ih
    | clearAll => exact absurd rfl hall
    | _ => exact ih

theorem determined_timeout {after : List CacheEvent} (h : Quiet key after) (now : String) (id : Nat)
    (content : String) (metadata : DraftMetadata) (stored : Option Draft)
    (before : List CacheEvent) :
    determined key stored
        (before ++ .save key content metadata :: after ++ [.timeout now key id]) =
      written now content metadata := by
  induction before generalizing stored with
  | nil =>
    rw [List.nil_append, List.cons_append, determined, effect, if_pos rfl, firing_of_quiet h]
    exact determined_of_quiet h _ _
  | cons head before ih => exact ih _

theorem Quiet.append {events : List CacheEvent} (h : Quiet key events) {event : CacheEvent}
    (hkey : event.key? ≠ some key) (hall : event ≠ .clearAll) : Quiet key (events ++ [event]) := by
  intro e he
  rcases List.mem_append.mp he with he | he
  · exact h e he
  · rw [List.mem_singleton.mp he]
    exact ⟨hkey, hall⟩

end lemmas

end CacheEvent

open CacheEvent

namespace Cache

def step (c : Cache) : CacheEvent → Option Cache
  | .save key content metadata => some (c.save key content metadata)
  | .saveNow now key content metadata => some (c.saveNow now key content metadata).2
  | .clear key => some (c.clear key)
  | .clearAll => some { c with pendingSaves := fun _ => none }
  | .timeout now key _ => c.timeout now key

structure Determined (stored : String → Option Draft) (events : List CacheEvent) (c : Cache) :
    Prop where
  writable : c.writable = true
  storage : ∀ key, c.storage key = determined key (stored key) events
  pendingSaves : ∀ key pendingSave, c.pendingSaves key = some pendingSave →
    ∃ before after, events = before ++ .save key pendingSave.content pendingSave.metadata :: after ∧
      Quiet key after

section determined

variable {stored : String → Option Draft} {events : List CacheEvent} {c c' : Cache}

theorem writeEntry_eq (h : c.writable = true) (now key content : String)
    (metadata : DraftMetadata) : (c.writeEntry now key content metadata).2 =
      { c with storage := update c.storage key (written now content metadata) } := by
  rw [writeEntry, written, if_pos h]
  split <;> rfl

theorem Determined.pending_append (h : c.Determined stored events) {key : String}
    {pendingSave : PendingSave} (hpending : c.pendingSaves key = some pendingSave)
    {event : CacheEvent} (hkey : event.key? ≠ some key) (hall : event ≠ .clearAll) :
    ∃ before after, events ++ [event] =
      before ++ .save key pendingSave.content pendingSave.metadata :: after ∧ Quiet key after := by
  obtain ⟨before, after, rfl, hquiet⟩ := h.pendingSaves key pendingSave hpending
  refine ⟨before, after ++ [event], ?_, hquiet.append hkey hall⟩
  rw [List.append_assoc, List.cons_append]

theorem Determined.writeOne (h : c.Determined stored events) {event : CacheEvent} {key : String}
    {value : Option Draft} (hkey : event.key? = some key)
    (hvalue : determined key (stored key) (events ++ [event]) = value) :
    Determined stored (events ++ [event])
      { c with
        storage := update c.storage key value
        pendingSaves := update c.pendingSaves key none } where
  writable := h.writable
  storage k := by
    show update c.storage key value k = _
    by_cases hk : k = key
    · subst hk
      rw [update_self, hvalue]
    · have hne : event.key? ≠ some k := by
        rw [hkey]
        exact fun heq => hk (Option.some.inj heq).symm
      have htimeout : ∀ now id, event ≠ .timeout now k id := by
        rintro now id rfl
        exact hne rfl
      rw [update_of_ne hk, determined_append_of_ne htimeout, effect_of_ne hne]
      exact h.storage k
  pendingSaves k pendingSave hpending := by
    change update c.pendingSaves key none k = _ at hpending
    by_cases hk : k = key
    · subst hk
      rw [update_self] at hpending
      cases hpending
    · rw [update_of_ne hk] at hpending
      refine h.pending_append hpending ?_ ?_
      · rw [hkey]
        exact fun heq => hk (Option.some.inj heq).symm
      · rintro rfl
        cases hkey

theorem Determined.save (h : c.Determined stored events) (key content : String)
    (metadata : DraftMetadata) :
    Determined stored (events ++ [.save key content metadata]) (c.save key content metadata) where
  writable := h.writable
  storage k := by
    rw [determined_append_of_ne (by rintro _ _ ⟨⟩), storage_save, h.storage k]
    by_cases hk : key = k
    · rw [effect, if_pos hk]
      rfl
    · rw [effect, if_neg hk]
      rfl
  pendingSaves k pendingSave hpending := by
    change update c.pendingSaves key (some ⟨content, metadata⟩) k = _ at hpending
    by_cases hk : k = key
    · subst hk
      rw [update_self] at hpending
      obtain rfl := Option.some.inj hpending
      exact ⟨events, [], rfl, List.forall_mem_nil _⟩
    · rw [update_of_ne hk] at hpending
      refine h.pending_append hpending ?_ ?_
      · exact fun heq => hk (Option.some.inj heq).symm
      · rintro ⟨⟩

theorem Determined.saveNow (h : c.Determined stored events) (now key content : String)
    (metadata : DraftMetadata) :
    Determined stored (events ++ [.saveNow now key content metadata])
      (c.saveNow now key content metadata).2 := by
  have hvalue : determined key (stored key) (events ++ [.saveNow now key content metadata]) =
      written now content metadata := by
    rw [determined_append_of_ne (by rintro _ _ ⟨⟩), effect, if_pos rfl]
    rfl
  have hwritable : (c.clearTimeout key).writable = true := h.writable
  rw [Cache.saveNow, writeEntry_eq hwritable]
  exact h.writeOne rfl hvalue

theorem Determined.clear (h : c.Determined stored events) (key : String) :
    Determined stored (events ++ [.clear key]) (c.clear key) := by
  have hvalue : determined key (stored key) (events ++ [.clear key]) = none := by
    rw [determined_append_of_ne (by rintro _ _ ⟨⟩), effect, if_pos rfl]
    rfl
  exact h.writeOne rfl hvalue

theorem Determined.timeout (h : c.Determined stored events) {now key : String} (id : Nat)
    (hstep : c.timeout now key = some c') :
    Determined stored (events ++ [.timeout now key id]) c' := by
  rw [Cache.timeout] at hstep
  cases hpending : c.pendingSaves key with
  | none =>
    rw [hpending] at hstep
    cases hstep
  | some pendingSave =>
    rw [hpending] at hstep
    obtain ⟨before, after, hevents, hquiet⟩ := h.pendingSaves key pendingSave hpending
    have hvalue : determined key (stored key) (events ++ [.timeout now key id]) =
        written now pendingSave.content pendingSave.metadata := by
      rw [hevents]
      exact determined_timeout hquiet now id _ _ _ before
    have hwritable : (c.clearTimeout key).writable = true := h.writable
    have hc' := Option.some.inj hstep
    rw [writeEntry_eq hwritable] at hc'
    rw [← hc']
    exact h.writeOne rfl hvalue

theorem Determined.clearAll (h : c.Determined stored events) :
    Determined stored (events ++ [.clearAll]) { c with pendingSaves := fun _ => none } where
  writable := h.writable
  storage k := by
    rw [determined_append_of_ne (by rintro _ _ ⟨⟩)]
    exact h.storage k
  pendingSaves _ _ hpending := by cases hpending

theorem Determined.step (h : c.Determined stored events) {event : CacheEvent}
    (hstep : c.step event = some c') : Determined stored (events ++ [event]) c' := by
  cases event with
  | save key content metadata =>
    obtain rfl := Option.some.inj hstep
    exact h.save key content metadata
  | saveNow now key content metadata =>
    obtain rfl := Option.some.inj hstep
    exact h.saveNow now key content metadata
  | clear key =>
    obtain rfl := Option.some.inj hstep
    exact h.clear key
  | clearAll =>
    obtain rfl := Option.some.inj hstep
    exact h.clearAll
  | timeout now key id => exact h.timeout id hstep

end determined

end Cache

namespace CacheService

def step (s : CacheService) : CacheEvent → Option CacheService
  | .save key content metadata => some (s.save key content metadata)
  | .saveNow now key content metadata => some (s.saveNow now key content metadata).2
  | .clear key => some (s.clear key)
  | .clearAll => some s.clearAll
  | .timeout now key id =>
    (s.timeouts.find? fun t => t.id = id ∧ t.key = key).map (s.fire now)

/-- A page that has just been loaded, with whatever `localStorage` holds. -/
def cacheService : LabelledSystem CacheService CacheEvent where
  init s := s.writable = true ∧ s.pendingSaves = ∅ ∧ s.timeouts = [] ∧ 0 < s.nextTimeoutId
  step := step

section steps

variable {s s' : CacheService} {event : CacheEvent}

theorem step_timeout {now key : String} {id : Nat}
    (h : s.step (.timeout now key id) = some s') :
    ∃ t ∈ s.timeouts, t.id = id ∧ t.key = key ∧ s' = s.fire now t := by
  obtain ⟨t, hfind, rfl⟩ := Option.map_eq_some_iff.mp h
  have ht : t.id = id ∧ t.key = key := by simpa using List.find?_some hfind
  exact ⟨t, List.mem_of_find?_eq_some hfind, ht.1, ht.2, rfl⟩

theorem Matched.step (h : s.Matched) (hstep : s.step event = some s') : s'.Matched := by
  cases event with
  | save key content metadata =>
    obtain rfl := Option.some.inj hstep
    exact h.save key content metadata
  | saveNow now key content metadata =>
    obtain rfl := Option.some.inj hstep
    exact h.saveNow now key content metadata
  | clear key =>
    obtain rfl := Option.some.inj hstep
    exact h.clear key
  | clearAll =>
    obtain rfl := Option.some.inj hstep
    exact h.clearAll
  | timeout now key id =>
    obtain ⟨t, ht, -, -, rfl⟩ := step_timeout hstep
    exact h.fire now ht

theorem toCache_step (h : s.Matched) (hstep : s.step event = some s') :
    s.toCache.step event = some s'.toCache := by
  cases event with
  | save key content metadata =>
    obtain rfl := Option.some.inj hstep
    exact congrArg some (toCache_save h content metadata).symm
  | saveNow now key content metadata =>
    obtain rfl := Option.some.inj hstep
    exact congrArg some (toCache_saveNow h now content metadata).2.symm
  | clear key =>
    obtain rfl := Option.some.inj hstep
    exact congrArg some (toCache_clear h).symm
  | clearAll =>
    obtain rfl := Option.some.inj hstep
    exact congrArg some (toCache_clearAll h).symm
  | timeout now key id =>
    obtain ⟨t, ht, -, rfl, rfl⟩ := step_timeout hstep
    exact toCache_fire h now ht

section frame

variable {key k : String}

theorem filter_timeouts (timeouts : List Timeout) (hk : key ≠ k) :
    (timeouts.filter (·.key ≠ key)).filter (·.key = k) = timeouts.filter (·.key = k) := by
  rw [List.filter_filter]
  refine List.filter_congr fun t _ => ?_
  by_cases htk : t.key = k
  · simp [htk, Ne.symm hk]
  · simp [htk]

@[simp] theorem timeouts_writeEntry (now content : String) (metadata : DraftMetadata) :
    (s.writeEntry now key content metadata).2.timeouts = s.timeouts := by
  rw [writeEntry]
  split
  · rfl
  · split <;> rfl

@[simp] theorem storage_save (content : String) (metadata : DraftMetadata) :
    (s.save key content metadata).storage = s.storage := by
  unfold save
  cases hid : s.pendingSaves.lookup key with
  | none => rfl
  | some id => cases id <;> rfl

theorem storage_writeEntry (now content : String) (metadata : DraftMetadata) (hk : key ≠ k) :
    (s.writeEntry now key content metadata).2.storage k = s.storage k := by
  rw [writeEntry]
  split
  · exact update_of_ne hk.symm
  · split
    · exact update_of_ne hk.symm
    · rfl

theorem timeouts_step (h : s.Matched) (hstep : s.step event = some s')
    (hkey : event.key? ≠ some k) (hall : event ≠ .clearAll) :
    s'.timeouts.filter (·.key = k) = s.timeouts.filter (·.key = k) := by
  cases event with
  | save key content metadata =>
    have hk : key ≠ k := fun heq => hkey (congrArg some heq)
    obtain rfl := Option.some.inj hstep
    rw [save_eq h, List.filter_append, filter_timeouts _ hk, List.filter_singleton]
    simp [hk]
  | saveNow now key content metadata =>
    have hk : key ≠ k := fun heq => hkey (congrArg some heq)
    obtain rfl := Option.some.inj hstep
    rw [saveNow, timeouts_writeEntry, timeouts_cancel h, filter_timeouts _ hk]
  | clear key =>
    have hk : key ≠ k := fun heq => hkey (congrArg some heq)
    obtain rfl := Option.some.inj hstep
    show ((s.cancel key).timeouts.filter _) = _
    rw [timeouts_cancel h, filter_timeouts _ hk]
  | clearAll => exact absurd rfl hall
  | timeout now key id =>
    have hk : key ≠ k := fun heq => hkey (congrArg some heq)
    obtain ⟨t, ht, -, rfl, rfl⟩ := step_timeout hstep
    rw [fire, timeouts_writeEntry, timeouts_fire h ht, filter_timeouts _ hk]

theorem storage_step (hstep : s.step event = some s') (hkey : event.key? ≠ some k) :
    s'.loadDraft k = s.loadDraft k := by
  cases event with
  | save key content metadata =>
    obtain rfl := Option.some.inj hstep
    show (s.save key content metadata).storage k = s.storage k
    rw [storage_save]
  | saveNow now key content metadata =>
    have hk : key ≠ k := fun heq => hkey (congrArg some heq)
    obtain rfl := Option.some.inj hstep
    rw [loadDraft, saveNow, storage_writeEntry _ _ _ hk, storage_cancel]
    rfl
  | clear key =>
    have hk : k ≠ key := fun heq => hkey (congrArg some heq.symm)
    obtain rfl := Option.some.inj hstep
    show update (s.cancel key).storage key none k = s.storage k
    rw [update_of_ne hk, storage_cancel]
  | clearAll =>
    obtain rfl := Option.some.inj hstep
    rfl
  | timeout now key id =>
    have hk : key ≠ k := fun heq => hkey (congrArg some heq)
    obtain ⟨t, ht, -, rfl, rfl⟩ := step_timeout hstep
    exact storage_writeEntry _ _ _ hk

end frame

end steps

section runs

variable {s₀ s : CacheService} {events : List CacheEvent}

theorem matched_init (h : cacheService.init s) : s.Matched := by
  obtain ⟨-, hpending, htimeouts, hpositive⟩ := h
  constructor
  · exact hpositive
  · simp [htimeouts]
  · simp [htimeouts]
  · simp [htimeouts]
  · intro key id hid
    rw [hpending, AList.lookup_empty] at hid
    cases hid

theorem run_determined (h₀ : cacheService.init s₀) (hrun : cacheService.run s₀ events = some s) :
    s.Matched ∧ s.toCache.Determined s₀.storage events := by
  refine LabelledSystem.run_history
    (I := fun events s => s.Matched ∧ s.toCache.Determined s₀.storage events) hrun ?_ ?_
  · refine ⟨matched_init h₀, h₀.1, fun _ => rfl, ?_⟩
    intro key pendingSave hpending
    have hnone : s₀.toCache.pendingSaves key = none := by
      rw [toCache, h₀.2.2.1]
      rfl
    rw [hnone] at hpending
    cases hpending
  · intro before s event s' hs hstep
    exact ⟨hs.1.step hstep, hs.2.step (toCache_step hs.1 hstep)⟩

theorem Matched.timeouts_length (h : s.Matched) (key : String) :
    (s.timeouts.filter (·.key = key)).length ≤ 1 := by
  have hsame : ∀ t ∈ s.timeouts.filter (·.key = key), ∀ u ∈ s.timeouts.filter (·.key = key),
      t.id = u.id := by
    intro t ht u hu
    obtain ⟨ht, htk⟩ := List.mem_filter.mp ht
    obtain ⟨hu, huk⟩ := List.mem_filter.mp hu
    refine (h.id_iff (h.known u hu) ht).mpr ?_
    rw [of_decide_eq_true htk, of_decide_eq_true huk]
  have hdistinct : ((s.timeouts.filter (·.key = key)).map (·.id)).Nodup :=
    h.distinct.sublist (List.filter_sublist.map _)
  cases hfilter : s.timeouts.filter (·.key = key) with
  | nil => exact Nat.zero_le 1
  | cons t rest =>
    cases rest with
    | nil => exact Nat.le_refl 1
    | cons u rest =>
      rw [hfilter] at hsame hdistinct
      have htu : t.id = u.id := hsame t (by simp) u (by simp)
      simp [htu] at hdistinct

/-- In every run a key has at most one timer, whose save is the last thing that happened to the
key; its entry is determined by the last call with an effect, and calls about other keys change
neither. -/
theorem cacheService_determined (h₀ : cacheService.init s₀)
    (hrun : cacheService.run s₀ events = some s) :
    (∀ key, (s.timeouts.filter (·.key = key)).length ≤ 1) ∧
      (∀ t ∈ s.timeouts, ∃ before after,
        events = before ++ .save t.key t.content t.metadata :: after ∧ Quiet t.key after) ∧
      (∀ key, s.loadDraft key = determined key (s₀.loadDraft key) events) ∧
      ∀ event s', s.step event = some s' → ∀ key, event.key? ≠ some key →
        s'.loadDraft key = s.loadDraft key ∧
          (event ≠ .clearAll →
            s'.timeouts.filter (·.key = key) = s.timeouts.filter (·.key = key)) := by
  obtain ⟨hmatched, hdetermined⟩ := run_determined h₀ hrun
  refine ⟨hmatched.timeouts_length, ?_, hdetermined.storage, ?_⟩
  · intro t ht
    have hpending : s.toCache.pendingSaves t.key = some ⟨t.content, t.metadata⟩ :=
      pendingSaves_toCache hmatched ht
    exact hdetermined.pendingSaves t.key _ hpending
  · intro event s' hstep key hkey
    exact ⟨storage_step hstep hkey, timeouts_step hmatched hstep hkey⟩

def noMetadata : DraftMetadata where
  mode := none
  memoName := none
  baseUpdateTime := none
  savedAt := none
  requestId := none
  pending := none
  attemptedAt := none

def noDrafts : CacheService where
  storage _ := none
  writable := true
  pendingSaves := ∅
  timeouts := []
  nextTimeoutId := 1

/-- Two editors save, one is cleared, and the timer of the other fires. -/
theorem cacheService_determined_twoEditors :
    ∃ s, cacheService.run noDrafts [.save "ann-a" "one" noMetadata, .save "ann-b" "two" noMetadata,
        .clear "ann-a", .timeout "now" "ann-b" 2] = some s ∧
      s.loadDraft "ann-a" = none ∧ s.loadDraft "ann-b" = written "now" "two" noMetadata := by
  obtain ⟨s, hrun⟩ : ∃ s, cacheService.run noDrafts [.save "ann-a" "one" noMetadata,
      .save "ann-b" "two" noMetadata, .clear "ann-a", .timeout "now" "ann-b" 2] = some s := ⟨_, rfl⟩
  obtain ⟨-, -, hdetermined, -⟩ :=
    cacheService_determined ⟨rfl, rfl, rfl, Nat.one_pos⟩ hrun
  refine ⟨s, hrun, ?_, ?_⟩
  · exact hdetermined "ann-a"
  · exact hdetermined "ann-b"

end runs

end CacheService

end Memoark.Editor
