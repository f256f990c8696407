import Memoark.Migration.Execution

/-! Which stopped migrations the next run recovers from. -/
namespace Memoark.Migration
open Memoark.Program

section recovery

variable {semver : Semver} {profile : Profile} {t : Tables} {db : Database}
  {backups : List (String × String)}

/-- What a migration of `before` should end with: the target version, and on top of the
statements executed before either the full schema or each script for a later version than the
recorded one, once and in the order of the versions. -/
structure Upgraded (semver : Semver) (profile : Profile) (before : Option Tables) (after : Tables) :
    Prop where
  not_older : semver.IsVersionGreaterOrEqualThan after.setting.schemaVersion
    (GetCurrentSchemaVersion semver profile.driver) = true
  not_newer : semver.IsVersionGreaterOrEqualThan (GetCurrentSchemaVersion semver profile.driver)
    after.setting.schemaVersion = true
  executed : match before with
    | none => after.executed = [.latest]
    | some t => ∃ scripts : List MigrationFile,
      after.executed = t.executed ++ scripts.map .script ∧
      (∀ f, f ∈ scripts ↔ f ∈ migrationFS profile.driver ∧ semver.IsVersionGreaterThan
        (getSchemaVersionOfMigrateScript f) t.setting.schemaVersion = true) ∧
      scripts.Pairwise fun f g => semver.IsVersionGreaterThan (getSchemaVersionOfMigrateScript g)
        (getSchemaVersionOfMigrateScript f) = true

theorem getSchemaVersionOrDefault_of_not_empty {v : String} (h : isVersionEmpty v = false) :
    getSchemaVersionOrDefault v = v := by
  rw [getSchemaVersionOrDefault, if_neg]
  rintro rfl
  exact absurd h (by decide)

theorem mem_pendingScripts (ht : t.Supported semver profile) {f : MigrationFile} :
    f ∈ pendingScripts semver profile t.setting.schemaVersion
      (GetCurrentSchemaVersion semver profile.driver) ↔
    f ∈ migrationFS profile.driver ∧ semver.IsVersionGreaterThan
      (getSchemaVersionOfMigrateScript f) t.setting.schemaVersion = true := by
  rw [pendingScripts, List.mem_filter, sortedFilePaths_eq, shouldApplyMigration,
    getSchemaVersionOrDefault_of_not_empty ht.1, Bool.and_eq_true]
  constructor
  · rintro ⟨hf, hgt, -⟩
    exact ⟨hf, hgt⟩
  · rintro ⟨hf, hgt⟩
    exact ⟨hf, hgt, target_ge_script semver hf⟩

theorem minor_of_pending (ht : t.Supported semver profile) {f : MigrationFile}
    (hf : semver.IsVersionGreaterThan (getSchemaVersionOfMigrateScript f)
      t.setting.schemaVersion = true) : 22 ≤ f.minor := by
  have hgt : semver.IsVersionGreaterThan (getSchemaVersionOfMigrateScript f)
      (releaseText 22 0) = true := by
    rw [← minimum_eq]
    exact Semver.gt_of_gt_of_ge hf ht.2.1
  rw [getSchemaVersionOfMigrateScript, Semver.gt_release_iff] at hgt
  omega

theorem pendingScripts_ordered (ht : t.Supported semver profile) :
    (pendingScripts semver profile t.setting.schemaVersion
      (GetCurrentSchemaVersion semver profile.driver)).Pairwise fun f g =>
        semver.IsVersionGreaterThan (getSchemaVersionOfMigrateScript g)
          (getSchemaVersionOfMigrateScript f) = true := by
  have hsub : (pendingScripts semver profile t.setting.schemaVersion
      (GetCurrentSchemaVersion semver profile.driver)).Sublist (migrationFS profile.driver) := by
    rw [pendingScripts, sortedFilePaths_eq]
    exact List.filter_sublist
  refine ((migrationFS_ordered profile.driver).sublist hsub).imp_of_mem ?_
  intro f g hf hg hord
  have hf := minor_of_pending ht ((mem_pendingScripts ht).mp hf).2
  have hg := minor_of_pending ht ((mem_pendingScripts ht).mp hg).2
  have hord := hord hf hg
  rw [getSchemaVersionOfMigrateScript, getSchemaVersionOfMigrateScript, Semver.gt_release_iff]
  omega

theorem upgraded_upgradedTables {tables : Option Tables} (hs : Supported semver profile tables) :
    Upgraded semver profile tables (upgradedTables semver profile tables) where
  not_older := Semver.ge_iff_not_gt.mpr upgradedTables_current
  not_newer := Semver.ge_iff_not_gt.mpr (upgradedTables_supported hs).2.2
  executed := by
    cases tables with
    | none => rfl
    | some t =>
      have ht := hs t rfl
      refine ⟨pendingScripts semver profile t.setting.schemaVersion
        (GetCurrentSchemaVersion semver profile.driver), ?_,
        fun f => mem_pendingScripts ht, pendingScripts_ordered ht⟩
      rw [upgradedTables]
      split
      · rfl
      · -- A script for a later version would make the target later, too.
        rename_i hcurrent
        have hnil : pendingScripts semver profile t.setting.schemaVersion
            (GetCurrentSchemaVersion semver profile.driver) = [] := by
          rw [List.eq_nil_iff_forall_not_mem]
          intro f hf
          obtain ⟨hf, hgt⟩ := (mem_pendingScripts ht).mp hf
          exact hcurrent (Semver.gt_of_ge_of_gt (target_ge_script semver hf) hgt)
        rw [hnil, List.map_nil, List.append_nil]

theorem Upgraded.seeded {tables : Option Tables} {t : Tables}
    (h : Upgraded semver profile tables t) :
    Upgraded semver profile tables (profile.seeded t) := by
  rw [Profile.seeded]
  split
  · exact ⟨h.not_older, h.not_newer, h.executed⟩
  · exact h

/-- The tables between recoverable writes: the old ones or the migrated ones. -/
def Stage (semver : Semver) (profile : Profile) (before tables : Option Tables) : Prop :=
  tables = before ∨ tables = some (upgradedTables semver profile before)

section stage

variable {before tables : Option Tables}

theorem Stage.supported (h : Stage semver profile before tables)
    (hs : Supported semver profile before) : Supported semver profile tables := by
  rcases h with rfl | rfl
  · exact hs
  · rintro t ⟨⟩
    exact upgradedTables_supported hs

theorem Stage.seedable (h : Stage semver profile before tables)
    (hdemo : Seedable profile before) : Seedable profile tables := by
  rcases h with rfl | rfl
  · exact hdemo
  · rintro hseeds t ⟨⟩
    exact upgradedTables_seedable hdemo hseeds

theorem Stage.upgradedTables_eq (h : Stage semver profile before tables) :
    upgradedTables semver profile tables = upgradedTables semver profile before := by
  rcases h with rfl | rfl
  · rfl
  · exact upgradedTables_again

end stage

theorem interrupted_stage {db db' : Database} (hs : Supported semver profile db.tables)
    (hdemo : Seedable profile db.tables)
    (h : Durable.Interrupted Recoverable (Migrate semver profile) db db') :
    Stage semver profile db.tables db'.tables := by
  refine Durable.Interrupted.invariant (I := fun s => Stage semver profile db.tables s.tables) h
    (Or.inl rfl) ?_
  intro s hstage label s' hw hrec
  obtain ⟨ws, backups', hrun, hws⟩ :=
    Migrate_executes _ (hstage.supported hs) (hstage.seedable hdemo)
  rw [hrun.writes] at hw
  rcases hws _ hw hrec with h | h
  · rw [h]
    exact hstage
  · rw [hstage.upgradedTables_eq] at h
    exact Or.inr h

/-- An initialized database at a version that `Migrate` does not start from is refused, with
nothing written. -/
theorem Migrate_refuses (backups : List (String × String))
    (ht : ¬t.Supported semver profile) :
    ∃ e, (Migrate semver profile).Executes ⟨some t, backups⟩ [] (.error e)
      ⟨some t, backups⟩ := by
  have hcheck := checkMinimumUpgradeVersion_executes semver profile t backups
  by_cases hmodern : isVersionEmpty t.setting.schemaVersion = false ∧
      semver.IsVersionGreaterOrEqualThan t.setting.schemaVersion "0.22.0" = true
  · have hgt : semver.IsVersionGreaterThan t.setting.schemaVersion
        (GetCurrentSchemaVersion semver profile.driver) = true := by
      by_contra hgt
      exact ht ⟨hmodern.1, hmodern.2, by simpa using hgt⟩
    rw [if_pos hmodern] at hcheck
    refine ⟨downgradeError t.setting.schemaVersion (GetCurrentSchemaVersion semver profile.driver),
      (preMigrate_of_initialized hcheck).mapError.bind_read
      (GetInstanceBasicSetting_executes.mapError.bind_read ?_)⟩
    simp only [hmodern.1, hgt, Bool.not_false, Bool.and_self, if_true]
    exact Durable.Executes.fail.bind_error
  · rw [if_neg hmodern] at hcheck
    exact ⟨_, (preMigrate_of_initialized hcheck).mapError.bind_error⟩

/-- A run recovers from any number of stopped runs, none of which stopped right after a commit of
statements or seeds; and what the code does not migrate it does not touch. -/
theorem migrate_recovers (semver : Semver) (profile : Profile) (db : Database) :
    (Supported semver profile db.tables → Seedable profile db.tables → ∀ db',
      Durable.Interrupted Recoverable (Migrate semver profile) db db' →
        ∃ db'' t, (Migrate semver profile).run db' = (.ok (), db'') ∧ db''.tables = some t ∧
          Upgraded semver profile db.tables t) ∧
    (¬Supported semver profile db.tables →
      ∃ e, (Migrate semver profile).run db = (.error e, db) ∧
        (Migrate semver profile).writes db = []) := by
  constructor
  · intro hs hdemo db' h
    have hstage := interrupted_stage hs hdemo h
    obtain ⟨ws, backups', hrun, -⟩ :=
      Migrate_executes _ (hstage.supported hs) (hstage.seedable hdemo)
    rw [hstage.upgradedTables_eq] at hrun
    exact ⟨_, _, hrun.run, rfl, (upgraded_upgradedTables hs).seeded⟩
  · intro hs
    obtain ⟨tables, backups⟩ := db
    cases tables with
    | none => exact absurd nofun hs
    | some t =>
      have ht : ¬t.Supported semver profile := fun ht => hs (by rintro t ⟨⟩; exact ht)
      obtain ⟨e, hrun⟩ := Migrate_refuses backups ht
      exact ⟨e, hrun.run, hrun.writes⟩

/-- Whatever the point at which a run is stopped, the next run succeeds and leaves what it should. -/
def CrashSafe (semver : Semver) (profile : Profile) (db : Database) : Prop :=
  ∀ last db', Durable.Stopped (Migrate semver profile) db last db' →
    ∃ db'' t, (Migrate semver profile).run db' = (.ok (), db'') ∧ db''.tables = some t ∧
      Upgraded semver profile db.tables t

theorem not_crashSafe_of_error {e : String} {last : Option Write} {db db' db'' : Database}
    (hstop : Durable.Stopped (Migrate semver profile) db last db')
    (hrun : (Migrate semver profile).run db' = (.error e, db'')) :
    ¬CrashSafe semver profile db := by
  intro h
  obtain ⟨_, _, hok, -⟩ := h last db' hstop
  rw [hrun] at hok
  cases hok

theorem unsupported_not_crashSafe (ht : ¬t.Supported semver profile) :
    ¬CrashSafe semver profile ⟨some t, backups⟩ := by
  obtain ⟨e, hrun⟩ := Migrate_refuses backups ht
  exact not_crashSafe_of_error .start hrun.run

/-- Stopped after the commit of the full schema, a new database has no version and is taken for
an old one. -/
theorem fresh_not_crashSafe (hdemo : Seedable profile none) :
    ¬CrashSafe semver profile ⟨none, backups⟩ := by
  have hrun := Migrate_of_current (preMigrate_fresh semver profile backups)
    (upgradedTables_supported nofun) upgradedTables_current
    (seedDemo_executes (upgradedTables_seedable hdemo))
  have hstop : Durable.Stopped (Migrate semver profile) ⟨none, backups⟩ (some .schema)
      ⟨some ⟨none, [.latest], false⟩, backups⟩ := by
    refine .after ?_
    rw [hrun.writes]
    exact List.mem_cons_self
  have hunsupported : ¬Tables.Supported semver profile ⟨none, [.latest], false⟩ := by
    rintro ⟨hempty, -⟩
    exact absurd hempty (by decide)
  obtain ⟨e, hrefuse⟩ := Migrate_refuses backups hunsupported
  exact not_crashSafe_of_error hstop hrefuse.run

theorem latest_script_mem (driver : Driver) :
    ∃ f ∈ migrationFS driver, f.minor = 28 ∧ f.patch = 0 := by
  cases driver <;> exact ⟨⟨28, 0, "user_identity"⟩, by decide +kernel, rfl, rfl⟩

theorem pendingScripts_ne_nil (ht : t.Supported semver profile)
    (hpending : semver.IsVersionGreaterThan (GetCurrentSchemaVersion semver profile.driver)
      t.setting.schemaVersion = true) :
    pendingScripts semver profile t.setting.schemaVersion
      (GetCurrentSchemaVersion semver profile.driver) ≠ [] := by
  obtain ⟨f, hf, hminor, hpatch⟩ := latest_script_mem profile.driver
  have hgt : semver.IsVersionGreaterThan (getSchemaVersionOfMigrateScript f)
      t.setting.schemaVersion = true := by
    rw [getSchemaVersionOfMigrateScript, hminor, hpatch, ← GetCurrentSchemaVersion_eq semver]
    exact hpending
  exact List.ne_nil_of_mem ((mem_pendingScripts ht).mpr ⟨hf, hgt⟩)

theorem not_upgraded_twice {t' : Tables} {scripts : List MigrationFile} (hne : scripts ≠ [])
    (ht' : t'.executed = t.executed ++ scripts.map .script ++ scripts.map .script) :
    ¬Upgraded semver profile (some t) t' := by
  rintro ⟨-, -, scripts', hexec, -, hord⟩
  rw [ht', List.append_assoc, List.append_cancel_left_eq, ← List.map_append] at hexec
  have hscripts : scripts ++ scripts = scripts' :=
    (List.map_injective_iff.mpr fun f g h => by simpa using h) hexec
  rw [← hscripts, List.pairwise_append] at hord
  obtain ⟨f, hf⟩ := List.exists_mem_of_ne_nil scripts hne
  have hself := hord.2.2 f hf f hf
  rw [Semver.not_gt_self] at hself
  cases hself

/-- Stopped after the commit of the scripts, an upgrade executes them again in the next run. -/
theorem pending_not_crashSafe (ht : t.Supported semver profile)
    (hdemo : Seedable profile (some t))
    (hpending : semver.IsVersionGreaterThan (GetCurrentSchemaVersion semver profile.driver)
      t.setting.schemaVersion = true) : ¬CrashSafe semver profile ⟨some t, backups⟩ := by
  obtain ⟨ws₁, backups', hbackup, -⟩ := createPreMigrationBackup_executes profile (some t) backups
    t.setting.schemaVersion (GetCurrentSchemaVersion semver profile.driver)
  have hrun := Migrate_of_pending (preMigrate_supported _ ht) ht hpending hbackup
    applyMigrations_executes (seedDemo_executes fun hseeds => hdemo hseeds t rfl)
  have hstop : Durable.Stopped (Migrate semver profile) ⟨some t, backups⟩ (some .scripts)
      ⟨some (t.withScripts (pendingScripts semver profile t.setting.schemaVersion
        (GetCurrentSchemaVersion semver profile.driver))), backups'⟩ := by
    refine .after ?_
    rw [hrun.writes]
    simp
  intro hsafe
  obtain ⟨db'', t'', hok, htables, hupgraded⟩ := hsafe _ _ hstop
  have hs' : Supported semver profile (some (t.withScripts (pendingScripts semver profile
      t.setting.schemaVersion (GetCurrentSchemaVersion semver profile.driver)))) := by
    rintro _ ⟨⟩
    exact ht
  have hdemo' : Seedable profile (some (t.withScripts (pendingScripts semver profile
      t.setting.schemaVersion (GetCurrentSchemaVersion semver profile.driver)))) := by
    rintro hseeds _ ⟨⟩
    exact hdemo hseeds t rfl
  obtain ⟨ws, backups'', hagain, -⟩ := Migrate_executes ⟨_, backups'⟩ hs' hdemo'
  rw [hagain.run] at hok
  obtain rfl : _ = db'' := congrArg Prod.snd hok
  obtain rfl := Option.some.inj htables
  refine not_upgraded_twice (pendingScripts_ne_nil ht hpending) ?_ hupgraded
  rw [upgradedTables_of_pending (t := t.withScripts _) hpending, Profile.seeded]
  split <;> rfl

theorem seedDemo_fails (backups : List (String × String))
    (hseeds : profile.seeds = true) (hrows : t.demoRows = true) :
    ∃ e, (seedDemo profile).Executes ⟨some t, backups⟩ [] (.error e) ⟨some t, backups⟩ := by
  obtain ⟨hdemo, hdriver⟩ : profile.demo = true ∧ profile.driver = .sqlite := by
    simpa [Profile.seeds] using hseeds
  have hseed : (seed profile).Executes ⟨some t, backups⟩ []
      (.error (errorsWrap "seed error: seed/sqlite/01__dump.sql"
        (errorsWrap "failed to execute statement" "UNIQUE constraint failed: user.id")))
      ⟨some t, backups⟩ := by
    rw [seed, if_neg (not_not.mpr hdriver)]
    refine Durable.Executes.get.bind_read ?_
    rw [if_pos (by exact hrows)]
    exact .fail
  rw [seedDemo, if_pos hdemo]
  exact ⟨_, hseed.mapError⟩

theorem seeded_not_crashSafe (ht : t.Supported semver profile)
    (hcurrent : semver.IsVersionGreaterThan (GetCurrentSchemaVersion semver profile.driver)
      t.setting.schemaVersion = false)
    (hseeds : profile.seeds = true) (hrows : t.demoRows = false) :
    ¬CrashSafe semver profile ⟨some t, backups⟩ := by
  have hrun := Migrate_of_current (preMigrate_supported backups ht) ht hcurrent
    (seedDemo_executes fun _ => hrows)
  have hstop : Durable.Stopped (Migrate semver profile) ⟨some t, backups⟩ (some .seed)
      ⟨some (profile.seeded t), backups⟩ := by
    refine .after ?_
    rw [hrun.writes, if_pos hseeds]
    exact List.mem_cons_self
  have hseeded : profile.seeded t = { t with demoRows := true } := by
    rw [Profile.seeded, if_pos hseeds]
  have ht' : (profile.seeded t).Supported semver profile := by
    rw [hseeded]
    exact ht
  obtain ⟨e, hfail⟩ := seedDemo_fails (t := profile.seeded t) backups hseeds
    (by rw [hseeded])
  have hagain := Migrate_of_current (preMigrate_supported _ ht') ht'
    (by rw [hseeded]; exact hcurrent) hfail
  exact not_crashSafe_of_error hstop hagain.run

end recovery

def Database.atRelease (minor patch : Nat) : Database :=
  ⟨some ⟨some ⟨"", releaseText minor patch⟩, [], false⟩, []⟩

theorem atRelease_supported (semver : Semver) (profile : Profile) {minor patch : Nat}
    (hempty : isVersionEmpty (releaseText minor patch) = false) (hmin : 22 ≤ minor)
    (hmax : minor < 28 ∨ minor = 28 ∧ patch ≤ 1) :
    Tables.Supported semver profile ⟨some ⟨"", releaseText minor patch⟩, [], false⟩ := by
  refine ⟨hempty, ?_, ?_⟩
  · change semver.IsVersionGreaterOrEqualThan (releaseText minor patch) "0.22.0" = true
    rw [minimum_eq, Semver.ge_iff_not_gt, Bool.eq_false_iff, ne_eq, Semver.gt_release_iff]
    omega
  · change semver.IsVersionGreaterThan (releaseText minor patch) _ = false
    rw [GetCurrentSchemaVersion_eq, Bool.eq_false_iff, ne_eq, Semver.gt_release_iff]
    omega

theorem atRelease_unsupported (semver : Semver) (profile : Profile) {minor patch : Nat}
    (hmin : minor < 22) :
    ¬Tables.Supported semver profile ⟨some ⟨"", releaseText minor patch⟩, [], false⟩ := by
  rintro ⟨-, hge, -⟩
  change semver.IsVersionGreaterOrEqualThan (releaseText minor patch) "0.22.0" = true at hge
  rw [minimum_eq, Semver.ge_iff_not_gt, Bool.eq_false_iff, ne_eq, Semver.gt_release_iff] at hge
  omega

/-- A version before the minimum is refused by design; a new database and an upgrade are not safe
between a commit and the version written after it, a demo not after its seed. -/
theorem migrate_not_crashSafe :
    ¬CrashSafe .byNumbers ⟨.mysql, false⟩ (.atRelease 21 2) ∧
    ¬CrashSafe .byNumbers ⟨.mysql, false⟩ ⟨none, []⟩ ∧
    ¬CrashSafe .byNumbers ⟨.mysql, false⟩ (.atRelease 27 5) ∧
    ¬CrashSafe .byNumbers ⟨.sqlite, true⟩ (.atRelease 28 1) := by
  refine ⟨?_, ?_, ?_, ?_⟩
  · exact unsupported_not_crashSafe (atRelease_unsupported _ _ (by decide))
  · exact fresh_not_crashSafe nofun
  · refine pending_not_crashSafe (atRelease_supported _ _ (by decide +kernel) (by decide)
      (by decide)) nofun ?_
    rw [GetCurrentSchemaVersion_eq]
    exact Semver.gt_release_iff.mpr (by decide)
  · refine seeded_not_crashSafe (atRelease_supported _ _ (by decide +kernel) (by decide)
      (by decide)) ?_ rfl rfl
    rw [GetCurrentSchemaVersion_eq]
    exact Semver.not_gt_self

/-- The process stops after the backup of an upgrade from 0.27.5; and a start that is refused. -/
theorem migrate_recovers_upgrade :
    (∃ db'' t, (Migrate .byNumbers ⟨.sqlite, false⟩).run
        ⟨(Database.atRelease 27 5).tables, [("0.27.5", "0.28.1")]⟩ = (.ok (), db'') ∧
      db''.tables = some t ∧
      Upgraded .byNumbers ⟨.sqlite, false⟩ (Database.atRelease 27 5).tables t) ∧
    ∃ e, (Migrate .byNumbers ⟨.sqlite, false⟩).run (.atRelease 21 2) =
        (.error e, .atRelease 21 2) ∧
      (Migrate .byNumbers ⟨.sqlite, false⟩).writes (.atRelease 21 2) = [] := by
  have hs : Tables.Supported .byNumbers ⟨.sqlite, false⟩
      ⟨some ⟨"", releaseText 27 5⟩, [], false⟩ :=
    atRelease_supported _ _ (by decide +kernel) (by decide) (by decide)
  have hpending : Semver.byNumbers.IsVersionGreaterThan
      (GetCurrentSchemaVersion .byNumbers .sqlite) (releaseText 27 5) = true := by
    rw [GetCurrentSchemaVersion_eq]
    exact Semver.gt_release_iff.mpr (by decide)
  have htexts : (getSchemaVersionOrDefault (releaseText 27 5),
      GetCurrentSchemaVersion .byNumbers .sqlite) = ("0.27.5", "0.28.1") := by
    rw [GetCurrentSchemaVersion_eq]
    decide +kernel
  have hbackup : (createPreMigrationBackup ⟨.sqlite, false⟩ (releaseText 27 5)
      (GetCurrentSchemaVersion .byNumbers .sqlite)).Executes (Database.atRelease 27 5)
      [(.backup, ⟨(Database.atRelease 27 5).tables, [("0.27.5", "0.28.1")]⟩)] (.ok ())
      ⟨(Database.atRelease 27 5).tables, [("0.27.5", "0.28.1")]⟩ := by
    rw [← htexts]
    exact .commit
  have hrun := Migrate_of_pending (preMigrate_supported [] hs) hs hpending hbackup
    applyMigrations_executes (seedDemo_executes nofun)
  have hstop : Durable.Stopped (Migrate .byNumbers ⟨.sqlite, false⟩) (.atRelease 27 5)
      (some .backup) ⟨(Database.atRelease 27 5).tables, [("0.27.5", "0.28.1")]⟩ := by
    refine .after ?_
    rw [Database.atRelease, hrun.writes]
    exact List.mem_cons_self
  constructor
  · exact (migrate_recovers .byNumbers ⟨.sqlite, false⟩ (.atRelease 27 5)).1
      (by rintro t ⟨⟩; exact hs) nofun _ (.again .none hstop (Or.inr rfl))
  · exact (migrate_recovers .byNumbers ⟨.sqlite, false⟩ (.atRelease 21 2)).2 fun h =>
      atRelease_unsupported _ _ (by decide) (h _ rfl)

end Memoark.Migration
