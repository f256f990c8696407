import Memoark.Store.RowCache

/-! What the getters of users and user settings return while rows change. -/
namespace Memoark.Store.RowCache
open Memoark.System Memoark.System.Version

variable {α : Type}

def Call.Sound (installed db : Key → Version (Option α)) : Call α → Prop
  | .getting floor _ => AllAsNew floor installed
  | .listing floor _ => AllAsNew floor installed
  | .finding floor _ _ => AllAsNew floor installed
  | .filling floor _ result => ∀ k v, result = some (k, v) → AsNew (floor k) v
  | .yielded floor result => ∀ k v, result = some (k, v) → AsNew (floor k) v
  | .storing key version => AsNew version.row (db key)
  | .removing keys written => ∀ k v, written k = some v →
      AsNew v (db k) ∧ (k ∈ keys ∨ AsNew v (installed k))
  | _ => True

theorem Call.Sound.mono {installed installed' db db' : Key → Version (Option α)} {call : Call α}
    (h : call.Sound installed db) (hi : AllAsNew installed installed') (hdb : AllAsNew db db') :
    call.Sound installed' db' := by
  cases call with
  | getting floor key => exact AllAsNew.trans h hi
  | listing floor key => exact AllAsNew.trans h hi
  | finding floor find getter => exact AllAsNew.trans h hi
  | storing key version => exact AsNew.trans h (hdb key)
  | removing keys written =>
    intro k v hw
    obtain ⟨hle, hinstalled⟩ := h k v hw
    exact ⟨hle.trans (hdb k), hinstalled.imp_right fun hle => hle.trans (hi k)⟩
  | _ => exact h

/-- The cache is nowhere older than what the mutations have made of it. -/
structure Inv (s : State α) : Prop where
  cache : ∀ k v, s.cache k = some v → AsNew (s.installed k) v.row
  installed : AllAsNew s.installed s.db
  acknowledged : AllAsNew s.acknowledged s.installed
  calls : ∀ c, (s.calls c).Sound s.installed s.db

theorem Inv.of_init {s : State α} (h : Init s) : Inv s where
  cache := by
    intro k v hv
    rw [h.installed, h.cache k v hv]
    exact .refl _
  installed := by
    rw [h.installed]
    exact .refl _
  acknowledged := by
    rw [h.acknowledged, h.installed]
    exact .refl _
  calls := by
    intro c
    rw [h.calls c]
    trivial

section steps

variable {s s' : State α} {c : Nat}

theorem Inv.move (h : Inv s) {call : Call α} (hc : call.Sound s.installed s.db) :
    Inv (s.move c call) :=
  { h with calls := forall_update hc h.calls }

theorem Inv.write (h : Inv s) {db : Key → Version (Option α)} {call : Call α}
    (hdb : AllAsNew s.db db) (hc : call.Sound s.installed db) :
    Inv { s with db := db, calls := update s.calls c call } where
  cache := h.cache
  installed := h.installed.trans hdb
  acknowledged := h.acknowledged
  calls := forall_update hc fun j => (h.calls j).mono (.refl _) hdb

theorem Inv.cacheEntry (h : Inv s) {installed : Key → Version (Option α)} {k : Key}
    {entry : Option (Version α)} {call : Call α} (hi : AllAsNew s.installed installed)
    (hframe : ∀ j, j ≠ k → installed j = s.installed j) (hle : AllAsNew installed s.db)
    (hentry : ∀ v, entry = some v → AsNew (installed k) v.row)
    (hc : call.Sound installed s.db) :
    Inv { s with
      cache := update s.cache k entry
      installed := installed
      calls := update s.calls c call } where
  cache := by
    intro j v (hv : update s.cache k entry j = some v)
    change AsNew (installed j) v.row
    by_cases hj : j = k
    · subst hj
      rw [update_self] at hv
      exact hentry v hv
    · rw [update_of_ne hj] at hv
      rw [hframe j hj]
      exact h.cache j v hv
  installed := hle
  acknowledged := h.acknowledged.trans hi
  calls := forall_update hc fun j => (h.calls j).mono hi (.refl _)

theorem Inv.start (h : Inv s) {call : Call α} (hs : start s c call = some s')
    (hc : call.Sound s.installed s.db) : Inv s' := by
  unfold RowCache.start at hs
  split at hs <;> cases hs
  exact h.move hc

theorem Inv.cacheGet (h : Inv s) (hs : step s (.cacheGet c) = some s') : Inv s' := by
  have hc := h.calls c
  simp only [step] at hs
  split at hs
  · rename_i floor key hcall
    rw [hcall] at hc
    split at hs <;> cases hs
    · rename_i version hcache
      refine h.move fun k v hresult => ?_
      cases hresult
      exact (hc key).trans (h.cache key version hcache)
    · exact h.move hc
  · cases hs

theorem Inv.floor_le (h : Inv s) {floor : Key → Version (Option α)}
    (hfloor : AllAsNew floor s.installed) : AllAsNew floor s.db := hfloor.trans h.installed

theorem Inv.database (h : Inv s) {keys : List Key} (hl : Undelayed s (.database c keys))
    (hs : step s (.database c keys) = some s') : Inv s' := by
  have hc := h.calls c
  simp only [step] at hs
  cases hcall : s.calls c with
  | listing floor key =>
    rw [hcall] at hc hs
    cases hs
    refine h.move fun k v hresult => ?_
    cases hresult
    exact h.floor_le hc key
  | finding floor find getter =>
    rw [hcall] at hc hs
    obtain ⟨_, ⟨⟩⟩ := Option.ite_none_right_eq_some.mp hs
    refine h.move fun k v hresult => ?_
    obtain ⟨r, hr, hkv⟩ := Option.map_eq_some_iff.mp hresult
    obtain ⟨_, hr⟩ := Option.ite_none_right_eq_some.mp hr
    have hrow := rowsOf_spec (List.mem_of_mem_head? hr)
    cases hkv
    rw [hrow]
    exact h.floor_le hc r.1
  | updating id change =>
    rw [hcall] at hs
    simp only [databaseStep] at hs
    split at hs <;> cases hs
    refine h.write (AllAsNew.update (.next rfl)) ?_
    simp only [Call.Sound, update_self]
    exact .refl _
  | upserting userID key value =>
    rw [hcall] at hs
    cases hs
    refine h.write (AllAsNew.update (.next rfl)) ?_
    simp only [Call.Sound, update_self]
    exact .refl _
  | deletingUser id =>
    rw [hcall] at hs
    obtain ⟨_, ⟨⟩⟩ := Option.ite_none_right_eq_some.mp hs
    refine h.write (le_overwrite_deleteRows _ _) fun k v hw => ⟨?_, .inl (deleteRows_spec hw).1⟩
    rw [overwrite_of_some hw]
    exact .refl _
  | listingSettings find =>
    rw [hcall] at hs
    obtain ⟨_, ⟨⟩⟩ := Option.ite_none_right_eq_some.mp hs
    exact h.move trivial
  | fillingSettings find rows existing =>
    rw [hcall] at hs
    cases rows with
    | nil =>
      obtain ⟨_, ⟨⟩⟩ := Option.ite_none_right_eq_some.mp hs
      simp only [Undelayed, hcall] at hl
      refine h.write (le_overwrite_deleteRows _ _) fun k v hw => ?_
      obtain ⟨hk, hsome, _⟩ := deleteRows_spec hw
      refine ⟨?_, .inl (hl k hk hsome)⟩
      rw [overwrite_of_some hw]
      exact .refl _
    | cons r rows => cases hs
  | _ =>
    rw [hcall] at hs
    cases hs

theorem Inv.fill (h : Inv s) {r : Key × Version α} {call : Call α}
    (hr : AsNew (s.installed r.1) r.2.row) (hc : call.Sound s.installed s.db) :
    Inv { s with cache := update s.cache r.1 (some r.2), calls := update s.calls c call } :=
  h.cacheEntry (.refl _) (fun _ _ => rfl) h.installed (fun v hv => by cases hv; exact hr) hc

theorem Inv.cacheStep (h : Inv s) (hl : Undelayed s (.cacheStep c))
    (hs : step s (.cacheStep c) = some s') : Inv s' := by
  have hc := h.calls c
  simp only [step] at hs
  cases hcall : s.calls c with
  | filling floor rows result =>
    rw [hcall] at hc hs
    cases rows with
    | nil => cases hs
    | cons r rows =>
      cases hs
      exact h.fill (hl r (by rw [hcall]; rfl)) hc
  | fillingSettings find rows existing =>
    rw [hcall] at hs
    cases rows with
    | nil => cases hs
    | cons r rows =>
      cases hs
      exact h.fill (hl r (by rw [hcall]; rfl)) trivial
  | storing key version =>
    rw [hcall] at hc hs
    cases hs
    have hnew : AsNew (s.installed key) version.row := hl (key, version) (by rw [hcall]; rfl)
    have hle : AllAsNew (newestOf s.installed (single key version.row)) s.db := by
      refine newestOf_le h.installed fun k v hw => ?_
      obtain ⟨rfl, rfl⟩ := single_spec hw
      exact hc
    refine h.cacheEntry (le_newestOf _ _) (fun j hj => ?_) hle (fun v hv => ?_) fun k v hw => ?_
    · simp only [newestOf, single, if_neg hj]
    · cases hv
      simp only [newestOf, single, if_pos]
      exact hnew.newest (.refl _)
    · obtain ⟨rfl, rfl⟩ := single_spec hw
      exact ⟨hc, .inr (written_le_newestOf hw)⟩
  | removing keys written =>
    rw [hcall] at hc hs
    cases keys with
    | nil => cases hs
    | cons key keys =>
      cases hs
      have hle : AllAsNew (newestOf s.installed (written.only key)) s.db := by
        refine newestOf_le h.installed fun k v hw => ?_
        obtain ⟨_, hw⟩ := Option.ite_none_right_eq_some.mp hw
        exact (hc k v hw).1
      refine h.cacheEntry (le_newestOf _ _) (fun j hj => ?_) hle nofun fun k v hw => ?_
      · simp only [newestOf, Written.only, if_neg hj]
      · obtain ⟨hdb, hk⟩ := hc k v hw
        refine ⟨hdb, ?_⟩
        rcases hk with hk | hk
        · rcases List.mem_cons.mp hk with rfl | hk
          · exact .inr (written_le_newestOf (by rw [Written.only, if_pos rfl, hw]))
          · exact .inl hk
        · exact .inr (hk.trans (le_newestOf _ _ k))
  | _ =>
    rw [hcall] at hs
    cases hs

theorem Inv.finish (h : Inv s) (hs : step s (.finish c) = some s') : Inv s' := by
  have hc := h.calls c
  simp only [step] at hs
  cases hcall : s.calls c with
  | filling floor rows result =>
    rw [hcall] at hc hs
    cases rows with
    | nil =>
      cases hs
      exact h.move hc
    | cons r rows => cases hs
  | removing keys written =>
    rw [hcall] at hc hs
    cases keys with
    | nil =>
      cases hs
      have hle : AllAsNew (newestOf s.acknowledged written) s.installed := by
        refine newestOf_le h.acknowledged fun k v hw => ?_
        exact (hc k v hw).2.resolve_left List.not_mem_nil
      exact { h with acknowledged := hle, calls := forall_update trivial h.calls }
    | cons key keys => cases hs
  | _ =>
    rw [hcall] at hs
    cases hs

theorem Inv.step {l : Label α} (h : Inv s) (hl : Undelayed s l) (hs : step s l = some s') :
    Inv s' := by
  cases l with
  | startGet c key => exact h.start hs h.acknowledged
  | startFind c find getter => exact h.start hs h.acknowledged
  | startUpdateUser c id change => exact h.start hs trivial
  | startUpsertUserSetting c userID key value => exact h.start hs trivial
  | startDeleteUser c id => exact h.start hs trivial
  | startDeleteUserSettings c delete => exact h.start hs trivial
  | cacheGet c => exact h.cacheGet hs
  | database c keys => exact h.database hl hs
  | cacheStep c => exact h.cacheStep hl hs
  | finish c => exact h.finish hs
  | fail c =>
    obtain ⟨_, ⟨⟩⟩ := Option.ite_none_right_eq_some.mp hs
    exact h.move trivial
  | expire key =>
    cases hs
    refine { h with cache := fun k v (hv : update s.cache key none k = some v) => ?_ }
    by_cases hk : k = key
    · subst hk
      rw [update_self] at hv
      cases hv
    · rw [update_of_ne hk] at hv
      exact h.cache k v hv

end steps

/-- Along every run without a delayed cache write the getters return nothing older than the
mutations that had returned. -/
theorem coherent_of_undelayed {s : State α} (h : system.Reaches Undelayed s) : Coherent s := by
  have hinv : Inv s := h.invariant (fun _ => Inv.of_init) fun _ _ _ hi hl hs => hi.step hl hs
  intro c floor key v hcall
  have hsound := hinv.calls c
  rw [hcall] at hsound
  exact hsound key v rfl

def stored : State String where
  db := fun k => if k = .user 1 then ⟨0, some "steven"⟩ else ⟨0, none⟩
  cache := fun _ => none
  calls := fun _ => .idle
  installed := fun k => if k = .user 1 then ⟨0, some "steven"⟩ else ⟨0, none⟩
  acknowledged := fun k => if k = .user 1 then ⟨0, some "steven"⟩ else ⟨0, none⟩

theorem init_stored : Init stored := ⟨nofun, fun _ => rfl, rfl, rfl⟩

def renameThenGet : List (Label String) :=
  [.startUpdateUser 0 1 fun _ => "bob", .database 0 [], .cacheStep 0, .finish 0,
    .startGet 1 (.user 1), .cacheGet 1, .finish 1]

/-- A getter after an update, with nothing between them. -/
theorem coherent_renameThenGet : ∃ s floor, system.run stored renameThenGet = some s ∧
    s.calls 1 = .yielded floor (some (.user 1, ⟨1, some "bob"⟩)) ∧ Coherent s := by
  have hm : system.Meets Undelayed stored renameThenGet := by
    refine ⟨trivial, trivial, fun r hr => ?_, trivial, trivial, trivial, trivial, trivial⟩
    cases hr
    exact .inl (by decide)
  exact ⟨_, _, rfl, rfl, coherent_of_undelayed (.run (.init init_stored) hm rfl)⟩

/-- Call 0 reads the user, call 1 deletes the user and returns, then call 0 caches what it has
read; call 2, which starts afterwards, returns the deleted user. -/
theorem getter_returns_deleted_user : ∃ s floor, system.Reaches (fun _ _ => True) s ∧
    s.calls 2 = .yielded floor (some (.user 1, ⟨0, some "steven"⟩)) ∧
    floor (.user 1) = ⟨1, none⟩ ∧ ¬Coherent s := by
  have hrun : ∃ s floor, system.run stored
      [.startGet 0 (.user 1), .cacheGet 0, .database 0 [],
        .startDeleteUser 1 1, .database 1 [], .cacheStep 1, .finish 1,
        .cacheStep 0, .cacheStep 0, .finish 0,
        .startGet 2 (.user 1), .cacheGet 2, .finish 2] = some s ∧
      s.calls 2 = .yielded floor (some (.user 1, ⟨0, some "steven"⟩)) ∧
      floor (.user 1) = ⟨1, none⟩ := ⟨_, _, rfl, rfl, rfl⟩
  obtain ⟨s, floor, hs, hcall, hfloor⟩ := hrun
  refine ⟨s, floor, .run (.init init_stored) (LabelledSystem.meets_true _ _) hs, hcall, hfloor,
    fun h => ?_⟩
  have hnew := h 2 floor (.user 1) _ hcall
  rw [hfloor] at hnew
  exact absurd hnew (by decide)

end Memoark.Store.RowCache
