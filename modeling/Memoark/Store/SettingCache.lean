import Memoark.System.Runs

/-! The typed getters and `UpsertInstanceSetting` of `store/instance_setting.go` on one key,
split into their cache and database steps. -/
namespace Memoark.Store.SettingCache
open Memoark.System

/-- A call in progress. A getter remembers the newest write that an upsert had returned when
the getter started. -/
inductive Call (α : Type) where
  | idle
  | getting (floor : Nat)
  /-- The cache had no entry: `ListInstanceSettings` is next. -/
  | listing (floor : Nat)
  /-- A row has been read; `ListInstanceSettings` caches it. -/
  | listed (floor : Nat) (setting : Version α)
  /-- The getter has its value and caches it with the defaults filled in. -/
  | filling (floor : Nat) (setting : Version α)
  | yielding (floor : Nat) (setting : Version α)
  | yielded (floor : Nat) (setting : Version α)
  | upserting (value : α)
  /-- The row is written; the cache is next. -/
  | written (setting : Version α)
  | cached (setting : Version α)

inductive Label (α : Type) where
  | startGet (call : Nat)
  | cacheGet (call : Nat)
  | databaseList (call : Nat)
  | cacheListed (call : Nat)
  | cacheFilled (call : Nat)
  | returnGet (call : Nat)
  | startUpsert (call : Nat) (value : α)
  | databaseUpsert (call : Nat)
  | cacheUpserted (call : Nat)
  | returnUpsert (call : Nat)
  /-- A database error ends a call. -/
  | fail (call : Nat)
  /-- The entry expires, is evicted, or is between the delete and the store of a `Set`. -/
  | expire

structure State (α : Type) where
  row : Option (Version α)
  cache : Option (Version α)
  calls : Nat → Call α
  /-- The number of database writes. -/
  writes : Nat
  /-- The newest write that its upsert has put into the cache. -/
  installed : Nat
  /-- The newest write whose upsert has returned. -/
  acknowledged : Nat

variable {α : Type}

/-- Before the first call; a row and a cache entry may be there from earlier. -/
structure Init (s : State α) : Prop where
  row : ∀ setting, s.row = some setting → setting.number = 0
  cache : ∀ setting, s.cache = some setting → setting.number = 0
  calls : ∀ c, s.calls c = .idle
  writes : s.writes = 0
  installed : s.installed = 0
  acknowledged : s.acknowledged = 0

/-- What a typed getter makes of the setting it got: an empty message when there is none, and
the defaults. -/
structure Getter (α : Type) where
  empty : α
  fill : α → α

def Getter.filled (g : Getter α) (setting : Version α) : Version α :=
  { setting with value := g.fill setting.value }

def step (g : Getter α) (s : State α) : Label α → Option (State α)
  | .startGet c =>
    match s.calls c with
    | .idle => some { s with calls := update s.calls c (.getting s.acknowledged) }
    | _ => none
  | .cacheGet c =>
    match s.calls c, s.cache with
    | .getting floor, some setting =>
      some { s with calls := update s.calls c (.filling floor setting) }
    | .getting floor, none => some { s with calls := update s.calls c (.listing floor) }
    | _, _ => none
  | .databaseList c =>
    match s.calls c, s.row with
    | .listing floor, some setting =>
      some { s with calls := update s.calls c (.listed floor setting) }
    | .listing floor, none =>
      some { s with calls := update s.calls c (.filling floor ⟨0, g.empty⟩) }
    | _, _ => none
  | .cacheListed c =>
    match s.calls c with
    | .listed floor setting =>
      some { s with cache := some setting, calls := update s.calls c (.filling floor setting) }
    | _ => none
  | .cacheFilled c =>
    match s.calls c with
    | .filling floor setting =>
      some { s with
        cache := some (g.filled setting)
        calls := update s.calls c (.yielding floor (g.filled setting)) }
    | _ => none
  | .returnGet c =>
    match s.calls c with
    | .yielding floor setting =>
      some { s with calls := update s.calls c (.yielded floor setting) }
    | _ => none
  | .startUpsert c value =>
    match s.calls c with
    | .idle => some { s with calls := update s.calls c (.upserting value) }
    | _ => none
  | .databaseUpsert c =>
    match s.calls c with
    | .upserting value =>
      some { s with
        row := some ⟨s.writes + 1, value⟩
        writes := s.writes + 1
        calls := update s.calls c (.written ⟨s.writes + 1, value⟩) }
    | _ => none
  | .cacheUpserted c =>
    match s.calls c with
    | .written setting =>
      some { s with
        cache := some setting
        installed := max s.installed setting.number
        calls := update s.calls c (.cached setting) }
    | _ => none
  | .returnUpsert c =>
    match s.calls c with
    | .cached setting =>
      some { s with
        acknowledged := max s.acknowledged setting.number
        calls := update s.calls c .idle }
    | _ => none
  | .fail c =>
    match s.calls c with
    | .listing _ => some { s with calls := update s.calls c .idle }
    | .upserting _ => some { s with calls := update s.calls c .idle }
    | _ => none
  | .expire => some { s with cache := none }

def system (g : Getter α) : LabelledSystem (State α) (Label α) := ⟨Init, step g⟩

/-- Every getter that has returned yields a value at least as new as every write whose upsert
had returned when the getter started. -/
def TakesEffect (s : State α) : Prop :=
  ∀ c floor setting, s.calls c = .yielded floor setting → floor ≤ setting.number

def cacheWrite (s : State α) : Label α → Option (Version α)
  | .cacheListed c =>
    match s.calls c with
    | .listed _ setting => some setting
    | _ => none
  | .cacheFilled c =>
    match s.calls c with
    | .filling _ setting => some setting
    | _ => none
  | .cacheUpserted c =>
    match s.calls c with
    | .written setting => some setting
    | _ => none
  | _ => none

/-- No step writes a setting into the cache that is older than one an upsert has put there. -/
def NoStaleWrite (s : State α) (l : Label α) : Prop :=
  match cacheWrite s l with
  | some setting => s.installed ≤ setting.number
  | none => True

def Call.Sound (installed writes : Nat) : Call α → Prop
  | .idle => True
  | .getting floor => floor ≤ installed
  | .listing floor => floor ≤ installed
  | .listed floor setting => floor ≤ setting.number
  | .filling floor setting => floor ≤ setting.number
  | .yielding floor setting => floor ≤ setting.number
  | .yielded floor setting => floor ≤ setting.number
  | .upserting _ => True
  | .written setting => setting.number ≤ writes
  | .cached setting => setting.number ≤ installed

theorem Call.Sound.mono {installed installed' writes writes' : Nat} {call : Call α}
    (h : call.Sound installed writes) (hi : installed ≤ installed') (hw : writes ≤ writes') :
    call.Sound installed' writes' := by
  cases call with
  | getting floor | listing floor | cached setting => exact Nat.le_trans h hi
  | written setting => exact Nat.le_trans h hw
  | _ => exact h

/-- The cache is never older than what an upsert has put there. -/
structure Inv (s : State α) : Prop where
  row : ∀ setting, s.row = some setting → setting.number = s.writes
  noRow : s.row = none → s.writes = 0
  cache : ∀ setting, s.cache = some setting → s.installed ≤ setting.number
  installed : s.installed ≤ s.writes
  acknowledged : s.acknowledged ≤ s.installed
  calls : ∀ c, (s.calls c).Sound s.installed s.writes

theorem Inv.of_init {s : State α} (h : Init s) : Inv s := by
  obtain ⟨hrow, hcache, hcalls, hw, hi, ha⟩ := h
  refine ⟨fun v hv => ?_, fun _ => hw, fun v hv => ?_, ?_, ?_, fun c => ?_⟩
  · rw [hrow v hv, hw]
  · omega
  · omega
  · omega
  · rw [hcalls c]
    trivial

theorem Inv.move {s : State α} (h : Inv s) {c : Nat} {call : Call α}
    (hc : call.Sound s.installed s.writes) : Inv { s with calls := update s.calls c call } :=
  { h with calls := forall_update hc h.calls }

theorem Inv.store {s : State α} (h : Inv s) {c : Nat} {call : Call α} (setting : Version α)
    (hs : s.installed ≤ setting.number) (hc : call.Sound s.installed s.writes) :
    Inv { s with cache := some setting, calls := update s.calls c call } := by
  refine { h with cache := ?_, calls := forall_update hc h.calls }
  intro v hv
  obtain rfl : setting = v := by simpa using hv
  exact hs

theorem Inv.step {g : Getter α} {s s' : State α} {l : Label α} (h : Inv s)
    (hl : NoStaleWrite s l) (hs : step g s l = some s') : Inv s' := by
  cases l with
  | startGet c =>
    simp only [SettingCache.step] at hs
    split at hs <;> cases hs
    exact h.move h.acknowledged
  | cacheGet c =>
    simp only [SettingCache.step] at hs
    have hc := h.calls c
    split at hs <;> cases hs
    · rename_i hcall hcache
      rw [hcall] at hc
      exact h.move (Nat.le_trans hc (h.cache _ hcache))
    · rename_i hcall hcache
      rw [hcall] at hc
      exact h.move hc
  | databaseList c =>
    simp only [SettingCache.step] at hs
    have hc := h.calls c
    split at hs <;> cases hs
    · rename_i hcall hrow
      rw [hcall] at hc
      have hle : s.installed ≤ _ := Nat.le_trans h.installed (Nat.le_of_eq (h.row _ hrow).symm)
      exact h.move (Nat.le_trans hc hle)
    · rename_i hcall hrow
      rw [hcall] at hc
      have hle : s.installed ≤ 0 := h.noRow hrow ▸ h.installed
      exact h.move (Nat.le_trans hc hle)
  | cacheListed c =>
    simp only [SettingCache.step] at hs
    have hc := h.calls c
    split at hs <;> cases hs
    rename_i hcall
    rw [hcall] at hc
    simp only [NoStaleWrite, cacheWrite, hcall] at hl
    exact h.store _ hl hc
  | cacheFilled c =>
    simp only [SettingCache.step] at hs
    have hc := h.calls c
    split at hs <;> cases hs
    rename_i floor setting hcall
    rw [hcall] at hc
    simp only [NoStaleWrite, cacheWrite, hcall] at hl
    exact h.store (g.filled setting) hl hc
  | returnGet c =>
    simp only [SettingCache.step] at hs
    have hc := h.calls c
    split at hs <;> cases hs
    rename_i hcall
    rw [hcall] at hc
    exact h.move hc
  | startUpsert c value =>
    simp only [SettingCache.step] at hs
    split at hs <;> cases hs
    exact h.move trivial
  | databaseUpsert c =>
    simp only [SettingCache.step] at hs
    split at hs <;> cases hs
    have hi := h.installed
    refine ⟨fun v hv => ?_, nofun, h.cache, by simp only; omega, h.acknowledged,
      forall_update (Nat.le_refl _) fun j => (h.calls j).mono (Nat.le_refl _) (Nat.le_succ _)⟩
    obtain rfl := Option.some.inj hv
    rfl
  | cacheUpserted c =>
    simp only [SettingCache.step] at hs
    have hc := h.calls c
    split at hs <;> cases hs
    rename_i setting hcall
    rw [hcall] at hc
    simp only [NoStaleWrite, cacheWrite, hcall] at hl
    refine ⟨h.row, h.noRow, fun v hv => ?_, Nat.max_le.mpr ⟨h.installed, hc⟩,
      Nat.le_trans h.acknowledged (Nat.le_max_left _ _),
      forall_update (Nat.le_max_right _ _) fun j =>
        (h.calls j).mono (Nat.le_max_left _ _) (Nat.le_refl _)⟩
    obtain rfl := Option.some.inj hv
    exact Nat.max_le.mpr ⟨hl, Nat.le_refl _⟩
  | returnUpsert c =>
    simp only [SettingCache.step] at hs
    have hc := h.calls c
    split at hs <;> cases hs
    rename_i hcall
    rw [hcall] at hc
    exact { h with
      acknowledged := Nat.max_le.mpr ⟨h.acknowledged, hc⟩
      calls := forall_update trivial h.calls }
  | fail c =>
    simp only [SettingCache.step] at hs
    split at hs <;> cases hs
    · exact h.move trivial
    · exact h.move trivial
  | expire =>
    cases hs
    exact { h with cache := nofun }

/-- Settings take effect at once along every run without a stale cache write. -/
theorem takesEffect_of_noStaleWrite (g : Getter α) {s : State α}
    (h : (system g).Reaches NoStaleWrite s) : TakesEffect s := by
  have hinv : Inv s := h.invariant (fun _ => Inv.of_init) fun _ _ _ hi hc hs => hi.step hc hs
  intro c floor setting hc
  have hsound := hinv.calls c
  rw [hc] at hsound
  exact hsound

def fresh : State Bool := ⟨none, none, fun _ => .idle, 0, 0, 0⟩

def flagGetter : Getter Bool := ⟨false, id⟩

theorem init_fresh : Init fresh := ⟨nofun, nofun, fun _ => rfl, rfl, rfl, rfl⟩

def upsertThenGet : List (Label Bool) :=
  [.startUpsert 0 true, .databaseUpsert 0, .cacheUpserted 0, .returnUpsert 0,
    .startGet 1, .cacheGet 1, .cacheFilled 1, .returnGet 1]

/-- A getter after an upsert, with nothing between them. -/
theorem takesEffect_upsertThenGet : ∃ s, (system flagGetter).run fresh upsertThenGet = some s ∧
    s.calls 1 = .yielded 1 ⟨1, true⟩ ∧ TakesEffect s := by
  have hm : (system flagGetter).Meets NoStaleWrite fresh upsertThenGet :=
    ⟨trivial, trivial, Nat.zero_le 1, trivial, trivial, trivial, Nat.le_refl 1, trivial, trivial⟩
  exact ⟨_, rfl, rfl, takesEffect_of_noStaleWrite flagGetter (.run (.init init_fresh) hm rfl)⟩

/-- Call 0 reads the empty row, call 1 writes `true` and returns, then call 0 fills the cache
with what it read; call 2, which starts afterwards, yields the old value. -/
theorem getter_overwrites_newer_setting :
    ∃ s, (system flagGetter).Reaches (fun _ _ => True) s ∧
      s.calls 2 = .yielded 1 ⟨0, false⟩ ∧ ¬TakesEffect s := by
  have hrun : ∃ s, (system flagGetter).run fresh
      [.startGet 0, .cacheGet 0, .databaseList 0,
        .startUpsert 1 true, .databaseUpsert 1, .cacheUpserted 1, .returnUpsert 1,
        .cacheFilled 0, .returnGet 0,
        .startGet 2, .cacheGet 2, .cacheFilled 2, .returnGet 2] = some s ∧
      s.calls 2 = .yielded 1 ⟨0, false⟩ := ⟨_, rfl, rfl⟩
  obtain ⟨s, hs, hc⟩ := hrun
  refine ⟨s, .run (.init init_fresh) (LabelledSystem.meets_true _ _) hs, hc, fun h => ?_⟩
  exact absurd (h 2 1 _ hc) (by decide)

end Memoark.Store.SettingCache
