import Mathlib.Data.List.Chain
import Memoark.Migration.Migrator

/-! The order in which the embedded scripts are applied, the version they lead to, and what a run of
`Migrate` writes, from each database that it starts from. -/
namespace Memoark.Migration

def laterNumbers (n : Nat × Nat) (f : MigrationFile) : Nat × Nat :=
  if n.1 < f.minor ∨ n.1 = f.minor ∧ n.2 < f.patch + 1 then (f.minor, f.patch + 1) else n

/-- The scripts of a driver: their paths are in order, from `0.22` on that is the order of their
versions, and the last version is `0.28.1`. -/
theorem migrationFS_facts (driver : Driver) :
    ((migrationFS driver).map (·.path driver)).IsChain (· ≤ ·) ∧
      ((migrationFS driver).Pairwise fun f g => 22 ≤ f.minor → 22 ≤ g.minor →
        f.minor < g.minor ∨ f.minor = g.minor ∧ f.patch < g.patch) ∧
      (∀ f ∈ migrationFS driver, f.minor < 28 ∨ f.minor = 28 ∧ f.patch = 0) ∧
      (migrationFS driver).foldl laterNumbers (0, 0) = (28, 1) := by
  cases driver <;> decide +kernel

theorem sortedFilePaths_eq (driver : Driver) : sortedFilePaths driver = migrationFS driver := by
  have hchain := (migrationFS_facts driver).1
  have hsorted : ((migrationFS driver).map (·.path driver)).Pairwise (· ≤ ·) :=
    List.isChain_iff_pairwise.mp hchain
  apply List.mergeSort_of_pairwise
  simpa only [decide_eq_true_eq] using List.pairwise_map.mp hsorted

theorem migrationFS_ordered (driver : Driver) : (migrationFS driver).Pairwise fun f g =>
    22 ≤ f.minor → 22 ≤ g.minor → f.minor < g.minor ∨ f.minor = g.minor ∧ f.patch < g.patch :=
  (migrationFS_facts driver).2.1

theorem migrationFS_le (driver : Driver) : ∀ f ∈ migrationFS driver,
    f.minor < 28 ∨ f.minor = 28 ∧ f.patch = 0 :=
  (migrationFS_facts driver).2.2.1

theorem default_eq : defaultSchemaVersion = releaseText 0 0 := by rfl

theorem minimum_eq : "0.22.0" = releaseText 22 0 := by rfl

variable (semver : Semver)

theorem foldl_release (files : List MigrationFile) (n : Nat × Nat) :
    files.foldl
      (fun currentSchemaVersion f =>
        if semver.IsVersionGreaterThan (getSchemaVersionOfMigrateScript f)
          currentSchemaVersion then getSchemaVersionOfMigrateScript f
        else currentSchemaVersion)
      (releaseText n.1 n.2) =
    releaseText (files.foldl laterNumbers n).1 (files.foldl laterNumbers n).2 := by
  induction files generalizing n with
  | nil => rfl
  | cons f files ih =>
    rw [List.foldl_cons, List.foldl_cons, ← ih]
    congr 1
    simp only [getSchemaVersionOfMigrateScript, Semver.gt_release_iff, laterNumbers]
    split <;> rfl

theorem GetCurrentSchemaVersion_eq (driver : Driver) :
    GetCurrentSchemaVersion semver driver = releaseText 28 1 := by
  have hlast := (migrationFS_facts driver).2.2.2
  rw [GetCurrentSchemaVersion, default_eq, foldl_release semver _ (0, 0), hlast]

theorem isVersionEmpty_target (driver : Driver) :
    isVersionEmpty (GetCurrentSchemaVersion semver driver) = false := by
  rw [GetCurrentSchemaVersion_eq]
  rfl

theorem target_ge_minimum (driver : Driver) :
    semver.IsVersionGreaterOrEqualThan (GetCurrentSchemaVersion semver driver) "0.22.0" = true := by
  rw [GetCurrentSchemaVersion_eq, minimum_eq]
  exact Semver.ge_of_gt (Semver.gt_release_iff.mpr (by decide))

theorem target_ge_script {driver : Driver} {f : MigrationFile} (hf : f ∈ migrationFS driver) :
    semver.IsVersionGreaterOrEqualThan (GetCurrentSchemaVersion semver driver)
      (getSchemaVersionOfMigrateScript f) = true := by
  rw [GetCurrentSchemaVersion_eq, Semver.ge_iff_not_gt, Bool.eq_false_iff,
    getSchemaVersionOfMigrateScript, ne_eq, Semver.gt_release_iff]
  have h := migrationFS_le driver f hf
  omega

open Memoark.Program

section runs

variable (semver : Semver) (profile : Profile)

namespace Tables

def setting (t : Tables) : InstanceBasicSetting := t.basicSetting.getD ⟨"", ""⟩

def atVersion (t : Tables) (schemaVersion : String) : Tables :=
  { t with basicSetting := some { t.setting with schemaVersion := schemaVersion } }

def withScripts (t : Tables) (scripts : List MigrationFile) : Tables :=
  { t with executed := t.executed ++ scripts.map .script }

/-- The version it is at can be upgraded from, and is not newer than the target. -/
def Supported (t : Tables) : Prop :=
  isVersionEmpty t.setting.schemaVersion = false ∧
    semver.IsVersionGreaterOrEqualThan t.setting.schemaVersion "0.22.0" = true ∧
    semver.IsVersionGreaterThan t.setting.schemaVersion
      (GetCurrentSchemaVersion semver profile.driver) = false

end Tables

variable {semver profile} {t : Tables} {db : Database} {backups : List (String × String)}

theorem GetInstanceBasicSetting_executes :
    GetInstanceBasicSetting.Executes ⟨some t, backups⟩ [] (.ok t.setting) ⟨some t, backups⟩ :=
  ⟨rfl, rfl⟩

theorem updateCurrentSchemaVersion_executes {v : String} :
    (updateCurrentSchemaVersion v).Executes ⟨some t, backups⟩
      [(.version, ⟨some (t.atVersion v), backups⟩)] (.ok ()) ⟨some (t.atVersion v), backups⟩ :=
  ⟨rfl, rfl⟩

/-- Passed exactly by the versions from `0.22.0` on; a refusal writes nothing. -/
theorem checkMinimumUpgradeVersion_executes (semver : Semver) (profile : Profile) (t : Tables)
    (backups : List (String × String)) :
    (checkMinimumUpgradeVersion semver profile).Executes ⟨some t, backups⟩ []
      (if isVersionEmpty t.setting.schemaVersion = false ∧
          semver.IsVersionGreaterOrEqualThan t.setting.schemaVersion "0.22.0" = true then .ok ()
        else .error (tooOldError t.setting.schemaVersion
          (GetCurrentSchemaVersion semver profile.driver)))
      ⟨some t, backups⟩ := by
  refine GetInstanceBasicSetting_executes.mapError.bind_read ?_
  have hcheck : (!isVersionEmpty t.setting.schemaVersion &&
      semver.IsVersionGreaterOrEqualThan t.setting.schemaVersion "0.22.0") = true ↔
      isVersionEmpty t.setting.schemaVersion = false ∧
        semver.IsVersionGreaterOrEqualThan t.setting.schemaVersion "0.22.0" = true := by
    rw [Bool.and_eq_true, Bool.not_eq_true']
  simp only [hcheck]
  by_cases hmodern : isVersionEmpty t.setting.schemaVersion = false ∧
      semver.IsVersionGreaterOrEqualThan t.setting.schemaVersion "0.22.0" = true
  · rw [if_pos hmodern, if_pos hmodern]
    exact .pure
  · rw [if_neg hmodern, if_neg hmodern]
    by_cases hempty : isVersionEmpty t.setting.schemaVersion = true
    · rw [if_pos hempty]
      exact Durable.Executes.bind_read (a := true) ⟨rfl, rfl⟩ .fail
    · rw [if_neg hempty]
      exact .fail

/-- The end of `Migrate`, with the schema at its version. -/
def seedDemo (profile : Profile) : Migrator Unit :=
  if profile.demo then (seed profile).mapError (errorsWrap "failed to seed") else return

section migrate

variable {ws ws' : List (Write × Database)} {r : Except String Unit} {db' : Database}

theorem createPreMigrationBackup_executes (profile : Profile) (tables : Option Tables)
    (backups : List (String × String)) (source target : String) :
    ∃ ws backups', (createPreMigrationBackup profile source target).Executes ⟨tables, backups⟩ ws
      (.ok ()) ⟨tables, backups'⟩ ∧ ∀ w ∈ ws, w.1 = .backup ∧ w.2.tables = tables := by
  by_cases hdriver : profile.driver ≠ .sqlite
  · refine ⟨[], backups, ?_, nofun⟩
    rw [createPreMigrationBackup, if_pos hdriver]
    exact .pure
  · refine ⟨[(.backup, ⟨tables, backups ++ [(getSchemaVersionOrDefault source, target)]⟩)],
      backups ++ [(getSchemaVersionOrDefault source, target)], ?_, ?_⟩
    · rw [createPreMigrationBackup, if_neg hdriver]
      exact .commit
    · intro w hw
      obtain rfl := List.mem_singleton.mp hw
      exact ⟨rfl, rfl⟩

theorem applyMigrations_executes {source target : String} :
    (applyMigrations semver profile source target).Executes ⟨some t, backups⟩
      [(.scripts, ⟨some (t.withScripts (pendingScripts semver profile source target)), backups⟩),
        (.version, ⟨some ((t.withScripts (pendingScripts semver profile source target)).atVersion
          target), backups⟩)]
      (.ok ()) ⟨some ((t.withScripts (pendingScripts semver profile source target)).atVersion
        target), backups⟩ :=
  Durable.Executes.commit.bind updateCurrentSchemaVersion_executes.mapError

theorem Migrate_of_current
    (hpre : (preMigrate semver profile).Executes db ws (.ok ()) ⟨some t, backups⟩)
    (ht : t.Supported semver profile)
    (hcurrent : semver.IsVersionGreaterThan (GetCurrentSchemaVersion semver profile.driver)
      t.setting.schemaVersion = false)
    (hseed : (seedDemo profile).Executes ⟨some t, backups⟩ ws' r db') :
    (Migrate semver profile).Executes db (ws ++ ws') r db' := by
  obtain ⟨hempty, -, hgt⟩ := ht
  refine hpre.mapError.bind (GetInstanceBasicSetting_executes.mapError.bind_read ?_)
  simp only [hempty, hgt, hcurrent, Bool.not_false, Bool.and_false, Bool.or_self,
    Bool.false_eq_true, if_false]
  exact hseed

theorem Migrate_of_pending
    (hpre : (preMigrate semver profile).Executes ⟨some t, backups⟩ [] (.ok ()) ⟨some t, backups⟩)
    (ht : t.Supported semver profile)
    (hpending : semver.IsVersionGreaterThan (GetCurrentSchemaVersion semver profile.driver)
      t.setting.schemaVersion = true)
    {ws₁ ws₂ ws₃ : List (Write × Database)} {backups' : List (String × String)} {t' : Tables}
    (hbackup : (createPreMigrationBackup profile t.setting.schemaVersion
      (GetCurrentSchemaVersion semver profile.driver)).Executes ⟨some t, backups⟩ ws₁ (.ok ())
      ⟨some t, backups'⟩)
    (happly : (applyMigrations semver profile t.setting.schemaVersion
      (GetCurrentSchemaVersion semver profile.driver)).Executes ⟨some t, backups'⟩ ws₂ (.ok ())
      ⟨some t', backups'⟩)
    (hseed : (seedDemo profile).Executes ⟨some t', backups'⟩ ws₃ r db') :
    (Migrate semver profile).Executes ⟨some t, backups⟩ (ws₁ ++ (ws₂ ++ ws₃)) r db' := by
  obtain ⟨hempty, -, hgt⟩ := ht
  refine hpre.mapError.bind_read (GetInstanceBasicSetting_executes.mapError.bind_read ?_)
  simp only [hempty, hgt, hpending, Bool.not_false, Bool.and_false, Bool.or_true,
    Bool.false_eq_true, if_false, if_true]
  exact hbackup.mapError.bind (happly.mapError.bind hseed)

end migrate

/-- A demo on SQLite seeds the database at the end of each run. -/
def Profile.seeds (profile : Profile) : Bool := profile.demo && profile.driver == .sqlite

def Profile.seeded (profile : Profile) (t : Tables) : Tables :=
  if profile.seeds then { t with demoRows := true } else t

theorem seedDemo_executes (h : profile.seeds = true → t.demoRows = false) :
    (seedDemo profile).Executes ⟨some t, backups⟩
      (if profile.seeds then [(.seed, ⟨some (profile.seeded t), backups⟩)] else []) (.ok ())
      ⟨some (profile.seeded t), backups⟩ := by
  by_cases hdemo : profile.demo = true
  · by_cases hdriver : profile.driver ≠ .sqlite
    · have hseeds : ¬profile.seeds = true := by simp [Profile.seeds, hdriver]
      rw [seedDemo, if_pos hdemo, seed, if_pos hdriver, Profile.seeded, if_neg hseeds,
        if_neg hseeds]
      exact Durable.Executes.pure.mapError
    · have hseeds : profile.seeds = true := by
        simpa [Profile.seeds, hdemo] using hdriver
      have hrows : (some t).any (·.demoRows) ≠ true := by simp [h hseeds]
      have hseed : (seed profile).Executes ⟨some t, backups⟩
          [(.seed, ⟨some { t with demoRows := true }, backups⟩)] (.ok ())
          ⟨some { t with demoRows := true }, backups⟩ := by
        rw [seed, if_neg hdriver]
        refine Durable.Executes.get.bind_read ?_
        rw [if_neg hrows]
        exact .commit
      rw [seedDemo, if_pos hdemo, Profile.seeded, if_pos hseeds, if_pos hseeds]
      exact hseed.mapError
  · have hseeds : ¬profile.seeds = true := by simp [Profile.seeds, hdemo]
    rw [seedDemo, if_neg hdemo, Profile.seeded, if_neg hseeds, if_neg hseeds]
    exact .pure

/-- The tables that a migration of `tables` ends with, before a seed. -/
def upgradedTables (semver : Semver) (profile : Profile) : Option Tables → Tables
  | none => Tables.atVersion ⟨none, [.latest], false⟩
      (GetCurrentSchemaVersion semver profile.driver)
  | some t =>
    if semver.IsVersionGreaterThan (GetCurrentSchemaVersion semver profile.driver)
        t.setting.schemaVersion then
      (t.withScripts (pendingScripts semver profile t.setting.schemaVersion
        (GetCurrentSchemaVersion semver profile.driver))).atVersion
          (GetCurrentSchemaVersion semver profile.driver)
    else t

theorem upgradedTables_of_pending
    (hpending : semver.IsVersionGreaterThan (GetCurrentSchemaVersion semver profile.driver)
      t.setting.schemaVersion = true) :
    upgradedTables semver profile (some t) =
      (t.withScripts (pendingScripts semver profile t.setting.schemaVersion
        (GetCurrentSchemaVersion semver profile.driver))).atVersion
          (GetCurrentSchemaVersion semver profile.driver) := by
  rw [upgradedTables, if_pos hpending]

theorem supported_atVersion {v : String} (h : v = GetCurrentSchemaVersion semver profile.driver) :
    (t.atVersion v).Supported semver profile := by
  subst h
  exact ⟨isVersionEmpty_target semver _, target_ge_minimum semver _, Semver.not_gt_self⟩

def Supported (semver : Semver) (profile : Profile) (tables : Option Tables) : Prop :=
  ∀ t, tables = some t → t.Supported semver profile

/-- The rows that a run inserts as a seed are not there yet. -/
def Seedable (profile : Profile) (tables : Option Tables) : Prop :=
  profile.seeds = true → ∀ t, tables = some t → t.demoRows = false

section upgraded

variable {tables : Option Tables}

theorem upgradedTables_supported (hs : Supported semver profile tables) :
    (upgradedTables semver profile tables).Supported semver profile := by
  cases tables with
  | none => exact supported_atVersion rfl
  | some t =>
    rw [upgradedTables]
    split
    · exact supported_atVersion rfl
    · exact hs t rfl

theorem upgradedTables_current :
    semver.IsVersionGreaterThan (GetCurrentSchemaVersion semver profile.driver)
      (upgradedTables semver profile tables).setting.schemaVersion = false := by
  cases tables with
  | none => exact Semver.not_gt_self
  | some t =>
    rw [upgradedTables]
    split
    · exact Semver.not_gt_self
    · rename_i h
      exact Bool.eq_false_iff.mpr h

theorem upgradedTables_seedable (h : Seedable profile tables) (hseeds : profile.seeds = true) :
    (upgradedTables semver profile tables).demoRows = false := by
  cases tables with
  | none => rfl
  | some t =>
    rw [upgradedTables]
    split
    · exact h hseeds t rfl
    · exact h hseeds t rfl

theorem upgradedTables_again :
    upgradedTables semver profile (some (upgradedTables semver profile tables)) =
      upgradedTables semver profile tables := by
  rw [upgradedTables, if_neg (Bool.eq_false_iff.mp upgradedTables_current)]

end upgraded

theorem preMigrate_of_initialized {r : Except String Unit}
    (hcheck : (checkMinimumUpgradeVersion semver profile).Executes ⟨some t, backups⟩ [] r
      ⟨some t, backups⟩) :
    (preMigrate semver profile).Executes ⟨some t, backups⟩ [] r ⟨some t, backups⟩ :=
  Durable.Executes.bind_read (a := true) ⟨rfl, rfl⟩ hcheck

theorem preMigrate_supported (backups : List (String × String))
    (ht : t.Supported semver profile) :
    (preMigrate semver profile).Executes ⟨some t, backups⟩ [] (.ok ()) ⟨some t, backups⟩ := by
  have hcheck := checkMinimumUpgradeVersion_executes semver profile t backups
  rw [if_pos ⟨ht.1, ht.2.1⟩] at hcheck
  exact preMigrate_of_initialized hcheck

theorem preMigrate_fresh (semver : Semver) (profile : Profile)
    (backups : List (String × String)) :
    (preMigrate semver profile).Executes ⟨none, backups⟩
      [(.schema, ⟨some ⟨none, [.latest], false⟩, backups⟩),
        (.version, ⟨some (upgradedTables semver profile none), backups⟩)]
      (.ok ()) ⟨some (upgradedTables semver profile none), backups⟩ := by
  have ht : (upgradedTables semver profile none).Supported semver profile :=
    upgradedTables_supported nofun
  have hcheck := checkMinimumUpgradeVersion_executes semver profile
    (upgradedTables semver profile none) backups
  rw [if_pos ⟨ht.1, ht.2.1⟩] at hcheck
  refine Durable.Executes.bind_read (a := false) ⟨rfl, rfl⟩ ?_
  exact Durable.Executes.commit.bind (updateCurrentSchemaVersion_executes.mapError.bind hcheck)

/-- The last writes of the stopped runs that the next run recovers from: a backup or a version,
but no commit of statements. -/
def Recoverable : Option Write → Prop
  | none => True
  | some label => label = .version ∨ label = .backup

theorem Migrate_executes (db : Database) (hs : Supported semver profile db.tables)
    (hdemo : Seedable profile db.tables) :
    ∃ ws backups', (Migrate semver profile).Executes db ws (.ok ())
      ⟨some (profile.seeded (upgradedTables semver profile db.tables)), backups'⟩ ∧
      ∀ w ∈ ws, Recoverable (some w.1) →
        w.2.tables = db.tables ∨ w.2.tables = some (upgradedTables semver profile db.tables) := by
  have hseed : ∀ backups', ∃ ws, (seedDemo profile).Executes
      ⟨some (upgradedTables semver profile db.tables), backups'⟩ ws (.ok ())
      ⟨some (profile.seeded (upgradedTables semver profile db.tables)), backups'⟩ ∧
      ∀ w ∈ ws, ¬Recoverable (some w.1) := by
    intro backups'
    refine ⟨_, seedDemo_executes (upgradedTables_seedable hdemo), ?_⟩
    intro w hw
    split at hw
    · obtain rfl := List.mem_singleton.mp hw
      simp [Recoverable]
    · cases hw
  obtain ⟨tables, backups⟩ := db
  cases tables with
  | none =>
    obtain ⟨ws, hseed, hws⟩ := hseed backups
    refine ⟨_, backups, Migrate_of_current (preMigrate_fresh semver profile backups)
      (upgradedTables_supported hs)
      upgradedTables_current hseed, ?_⟩
    intro w hw hrec
    rw [List.mem_append] at hw
    rcases hw with hw | hw
    · simp only [List.mem_cons, List.not_mem_nil, or_false] at hw
      rcases hw with rfl | rfl
      · simp [Recoverable] at hrec
      · exact Or.inr rfl
    · exact absurd hrec (hws w hw)
  | some t =>
    have ht := hs t rfl
    by_cases hpending : semver.IsVersionGreaterThan
        (GetCurrentSchemaVersion semver profile.driver) t.setting.schemaVersion = true
    · obtain ⟨ws₁, backups', hbackup, hws₁⟩ := createPreMigrationBackup_executes profile
        (some t) backups t.setting.schemaVersion (GetCurrentSchemaVersion semver profile.driver)
      obtain ⟨ws₃, hseed, hws₃⟩ := hseed backups'
      have hup := upgradedTables_of_pending hpending
      simp only [hup] at hseed ⊢
      refine ⟨_, backups', Migrate_of_pending (preMigrate_supported _ ht) ht hpending hbackup
        applyMigrations_executes hseed, ?_⟩
      intro w hw hrec
      simp only [List.mem_append, List.mem_cons, List.not_mem_nil, or_false] at hw
      rcases hw with hw | (rfl | rfl) | hw
      · exact Or.inl (hws₁ w hw).2
      · simp [Recoverable] at hrec
      · exact Or.inr rfl
      · exact absurd hrec (hws₃ w hw)
    · obtain ⟨ws, hseed, hws⟩ := hseed backups
      have hup : upgradedTables semver profile (some t) = t := by
        rw [upgradedTables, if_neg hpending]
      simp only [hup] at hseed ⊢
      refine ⟨ws, backups, Migrate_of_current (preMigrate_supported _ ht) ht
        (Bool.eq_false_iff.mpr hpending) hseed, ?_⟩
      intro w hw hrec
      exact absurd hrec (hws w hw)

end runs

end Memoark.Migration
