import Mathlib.Data.Char
import Mathlib.Data.List.Lex
import Memoark.Migration.Version
import Memoark.Program.Durable

/-! `store/migrator.go`: what `Store.Migrate` reads from the database and writes to it. A
transaction is one write, with all statements executed in it; the statements themselves are
taken to succeed, except those of the seed, whose rows have fixed ids. -/
namespace Memoark.Migration
open Memoark.Program

inductive Driver where
  | sqlite | mysql | postgres
  deriving DecidableEq

/-- The script `migration/<driver>/0.<minor>/<patch>__<description>.sql`. -/
structure MigrationFile where
  minor : Nat
  patch : Nat
  description : String
  deriving DecidableEq

def migrationFS : Driver → List MigrationFile
  | .sqlite =>
   [⟨10, 0, "activity"⟩, ⟨11, 0, "user_avatar"⟩, ⟨11, 1, "idp"⟩, ⟨11, 2, "storage"⟩,
    ⟨12, 0, "user_setting"⟩, ⟨12, 1, "system_setting"⟩, ⟨12, 3, "resource_internal_path"⟩,
    ⟨12, 4, "resource_public_id"⟩, ⟨13, 0, "memo_relation"⟩, ⟨13, 1, "remove_memo_organizer_id"⟩,
    ⟨14, 0, "drop_resource_public_id"⟩, ⟨14, 1, "create_indexes"⟩, ⟨15, 0, "drop_user_open_id"⟩,
    ⟨16, 0, "add_memo_id_to_resource"⟩, ⟨16, 1, "drop_shortcut_table"⟩, ⟨17, 0, "inbox"⟩,
    ⟨17, 1, "delete_activities"⟩, ⟨18, 0, "webhook"⟩, ⟨18, 1, "user_setting"⟩,
    ⟨19, 0, "add_resource_name"⟩, ⟨2, 0, "user_role"⟩, ⟨2, 1, "memo_visibility"⟩,
    ⟨20, 0, "reaction"⟩, ⟨21, 0, "user_description"⟩, ⟨21, 1, "rename_uid"⟩,
    ⟨22, 0, "resource_storage_type"⟩, ⟨22, 1, "memo_tags"⟩, ⟨22, 2, "memo_payload"⟩,
    ⟨22, 3, "drop_tag"⟩, ⟨23, 0, "reactions"⟩, ⟨24, 0, "memo"⟩, ⟨24, 1, "memo_pinned"⟩,
    ⟨25, 0, "remove_webhook"⟩, ⟨26, 0, "rename_resource_to_attachment"⟩,
    ⟨26, 1, "drop_memo_organizer"⟩, ⟨26, 2, "drop_indexes"⟩, ⟨26, 3, "alter_user_role"⟩,
    ⟨26, 4, "migrate_host_to_admin"⟩, ⟨27, 0, "migrate_storage_setting"⟩, ⟨27, 1, "add_idp_uid"⟩,
    ⟨27, 2, "migrate_inbox_message_payload"⟩, ⟨27, 3, "drop_activity"⟩, ⟨27, 4, "memo_share"⟩,
    ⟨28, 0, "user_identity"⟩, ⟨3, 0, "memo_visibility_protected"⟩, ⟨4, 0, "user_setting"⟩,
    ⟨5, 0, "regenerate_foreign_keys"⟩, ⟨5, 1, "memo_resource"⟩, ⟨5, 2, "system_setting"⟩,
    ⟨5, 3, "resource_extermal_link"⟩, ⟨6, 0, "recreate_triggers"⟩, ⟨7, 0, "remove_fk"⟩,
    ⟨7, 1, "remove_triggers"⟩, ⟨8, 0, "migration_history"⟩, ⟨8, 1, "user_username"⟩,
    ⟨9, 0, "tag"⟩]
  | .mysql =>
   [⟨17, 0, "inbox"⟩, ⟨17, 1, "delete_activity"⟩, ⟨18, 0, "extend_text"⟩, ⟨18, 1, "webhook"⟩,
    ⟨18, 2, "user_setting"⟩, ⟨19, 0, "add_resource_name"⟩, ⟨20, 0, "reaction"⟩,
    ⟨21, 0, "user_description"⟩, ⟨21, 1, "rename_uid"⟩, ⟨22, 0, "resource_storage_type"⟩,
    ⟨22, 1, "memo_tags"⟩, ⟨22, 2, "memo_payload"⟩, ⟨22, 3, "drop_tag"⟩, ⟨23, 0, "reactions"⟩,
    ⟨24, 0, "memo"⟩, ⟨24, 1, "memo_pinned"⟩, ⟨24, 2, "s3_reference_length"⟩,
    ⟨25, 0, "remove_webhook"⟩, ⟨26, 0, "rename_resource_to_attachment"⟩,
    ⟨26, 1, "drop_memo_organizer"⟩, ⟨26, 2, "migrate_host_to_admin"⟩,
    ⟨27, 0, "migrate_storage_setting"⟩, ⟨27, 1, "add_idp_uid"⟩,
    ⟨27, 2, "migrate_inbox_message_payload"⟩, ⟨27, 3, "drop_activity"⟩, ⟨27, 4, "memo_share"⟩,
    ⟨28, 0, "user_identity"⟩]
  | .postgres =>
   [⟨19, 0, "add_resource_name"⟩, ⟨20, 0, "reaction"⟩, ⟨21, 0, "user_description"⟩,
    ⟨21, 1, "rename_uid"⟩, ⟨22, 0, "resource_storage_type"⟩, ⟨22, 1, "memo_tags"⟩,
    ⟨22, 2, "memo_payload"⟩, ⟨22, 3, "drop_tag"⟩, ⟨23, 0, "reactions"⟩, ⟨24, 0, "memo"⟩,
    ⟨24, 1, "memo_pinned"⟩, ⟨25, 0, "remove_webhook"⟩, ⟨26, 0, "rename_resource_to_attachment"⟩,
    ⟨26, 1, "drop_memo_organizer"⟩, ⟨26, 2, "migrate_host_to_admin"⟩,
    ⟨27, 0, "migrate_storage_setting"⟩, ⟨27, 1, "add_idp_uid"⟩,
    ⟨27, 2, "migrate_inbox_message_payload"⟩, ⟨27, 3, "drop_activity"⟩, ⟨27, 4, "memo_share"⟩,
    ⟨28, 0, "user_identity"⟩]

def Driver.name : Driver → List Char
  | .sqlite => "sqlite".toList
  | .mysql => "mysql".toList
  | .postgres => "postgres".toList

def MigrationFile.path (driver : Driver) (f : MigrationFile) : List Char :=
  "migration/".toList ++ driver.name ++ "/0.".toList ++ Nat.toDigits 10 f.minor ++
    '/' :: (if f.patch < 10 then ['0'] else []) ++ Nat.toDigits 10 f.patch ++
    "__".toList ++ f.description.toList ++ ".sql".toList

def sortedFilePaths (driver : Driver) : List MigrationFile :=
  (migrationFS driver).mergeSort fun f g => f.path driver ≤ g.path driver

def defaultSchemaVersion : String := "0.0.0"

def getSchemaVersionOrDefault (schemaVersion : String) : String :=
  if schemaVersion = "" then defaultSchemaVersion else schemaVersion

def isVersionEmpty (schemaVersion : String) : Bool :=
  schemaVersion == "" || schemaVersion == defaultSchemaVersion

def getSchemaVersionOfMigrateScript (f : MigrationFile) : String :=
  releaseText f.minor (f.patch + 1)

section program

variable (semver : Semver)

def shouldApplyMigration (fileVersion currentDBVersion targetVersion : String) : Bool :=
  semver.IsVersionGreaterThan fileVersion (getSchemaVersionOrDefault currentDBVersion) &&
    semver.IsVersionGreaterOrEqualThan targetVersion fileVersion

def GetCurrentSchemaVersion (driver : Driver) : String :=
  (migrationFS driver).foldl
    (fun currentSchemaVersion f =>
      if semver.IsVersionGreaterThan (getSchemaVersionOfMigrateScript f) currentSchemaVersion then
        getSchemaVersionOfMigrateScript f
      else currentSchemaVersion)
    defaultSchemaVersion

structure InstanceBasicSetting where
  secretKey : String
  schemaVersion : String
  deriving DecidableEq

inductive SchemaStatement where
  | latest
  | script (f : MigrationFile)
  deriving DecidableEq

/-- What an initialized database holds: the BASIC row of `system_setting`, the schema statements
executed so far, and whether rows with the ids of the seed are there. -/
structure Tables where
  basicSetting : Option InstanceBasicSetting
  executed : List SchemaStatement
  demoRows : Bool
  deriving DecidableEq

/-- No tables before the memo table is there. `backups` are the files written next to it. -/
structure Database where
  tables : Option Tables
  backups : List (String × String)
  deriving DecidableEq

namespace Database

def changeTables (db : Database) (f : Tables → Tables) : Database :=
  { db with tables := db.tables.map f }

def upsertBasicSetting (db : Database) (setting : InstanceBasicSetting) : Database :=
  db.changeTables fun t => { t with basicSetting := some setting }

end Database

inductive Write where
  | schema | scripts | version | backup | seed
  deriving DecidableEq

structure Profile where
  driver : Driver
  demo : Bool

abbrev Migrator := Durable Database Write String

def errorsWrap (message err : String) : String := message ++ ": " ++ err

def IsInitialized : Migrator Bool := do
  let db ← Durable.get
  return db.tables.isSome

def GetInstanceBasicSetting : Migrator InstanceBasicSetting := do
  let db ← Durable.get
  match db.tables with
  | none => .fail "no such table: system_setting"
  | some t => return t.basicSetting.getD ⟨"", ""⟩

def updateCurrentSchemaVersion (schemaVersion : String) : Migrator Unit := do
  let instanceBasicSetting ← GetInstanceBasicSetting.mapError
    (errorsWrap "failed to get instance basic setting")
  Durable.commit .version
    (·.upsertBasicSetting { instanceBasicSetting with schemaVersion := schemaVersion })

def tooOldError (schemaVersion currentVersion : String) : String :=
  "Your Memos installation is too old to upgrade directly.\n\n" ++
  "Your current version: " ++ schemaVersion ++ "\n" ++
  "Target version: " ++ currentVersion ++ "\n" ++
  "Minimum required: v0.22.0 (May 2024)\n\n" ++
  "Upgrade path:\n" ++
  "1. First upgrade to v0.25.3: https://github.com/usememos/memos/releases/tag/v0.25.3\n" ++
  "2. Start the server and verify it works\n" ++
  "3. Then upgrade to the latest version\n\n" ++
  "This is required because schema version tracking was moved from migration_history\n" ++
  "to system_setting in v0.22.0. The intermediate upgrade handles this migration safely."

variable (profile : Profile)

def checkMinimumUpgradeVersion : Migrator Unit := do
  let instanceBasicSetting ← GetInstanceBasicSetting.mapError
    (errorsWrap "failed to get instance basic setting")
  let schemaVersion := instanceBasicSetting.schemaVersion
  let tooOld : Migrator Unit :=
    .fail (tooOldError schemaVersion (GetCurrentSchemaVersion semver profile.driver))
  if !isVersionEmpty schemaVersion &&
      semver.IsVersionGreaterOrEqualThan schemaVersion "0.22.0" then
    return
  else if isVersionEmpty schemaVersion then
    let initialized ← IsInitialized
    if initialized then tooOld else return
  else tooOld

def preMigrate : Migrator Unit := do
  let initialized ← IsInitialized
  if !initialized then
    Durable.commit .schema fun db => { db with tables := some ⟨none, [.latest], false⟩ }
    (updateCurrentSchemaVersion (GetCurrentSchemaVersion semver profile.driver)).mapError
      (errorsWrap "failed to update current schema version")
  checkMinimumUpgradeVersion semver profile

def createPreMigrationBackup (sourceSchemaVersion targetSchemaVersion : String) :
    Migrator Unit :=
  if profile.driver ≠ .sqlite then return
  else Durable.commit .backup fun db =>
    { db with
      backups := db.backups ++
        [(getSchemaVersionOrDefault sourceSchemaVersion, targetSchemaVersion)] }

/-- The scripts that the loop of `applyMigrations` executes. -/
def pendingScripts (currentSchemaVersion targetSchemaVersion : String) : List MigrationFile :=
  (sortedFilePaths profile.driver).filter fun f =>
    shouldApplyMigration semver (getSchemaVersionOfMigrateScript f) currentSchemaVersion
      targetSchemaVersion

def applyMigrations (currentSchemaVersion targetSchemaVersion : String) : Migrator Unit := do
  let scripts := pendingScripts semver profile currentSchemaVersion targetSchemaVersion
  -- All scripts run in one transaction; the version is written after its commit.
  Durable.commit .scripts
    (·.changeTables fun t => { t with executed := t.executed ++ scripts.map .script })
  (updateCurrentSchemaVersion targetSchemaVersion).mapError
    (errorsWrap "failed to update current schema version")

def seed : Migrator Unit := do
  if profile.driver ≠ .sqlite then return
  else
    let db ← Durable.get
    -- The rows of the seed are inserted with fixed ids, so they cannot be there already.
    if db.tables.any (·.demoRows) then
      .fail (errorsWrap "seed error: seed/sqlite/01__dump.sql"
        (errorsWrap "failed to execute statement" "UNIQUE constraint failed: user.id"))
    else Durable.commit .seed (·.changeTables fun t => { t with demoRows := true })

def downgradeError (databaseVersion currentVersion : String) : String :=
  "cannot downgrade schema version from " ++ databaseVersion ++ " to " ++ currentVersion

def Migrate : Migrator Unit := do
  (preMigrate semver profile).mapError (errorsWrap "failed to pre-migrate")
  let instanceBasicSetting ← GetInstanceBasicSetting.mapError
    (errorsWrap "failed to get instance basic setting")
  let schemaVersion := instanceBasicSetting.schemaVersion
  let currentSchemaVersion := GetCurrentSchemaVersion semver profile.driver
  if !isVersionEmpty schemaVersion &&
      semver.IsVersionGreaterThan schemaVersion currentSchemaVersion then
    Durable.fail (downgradeError schemaVersion currentSchemaVersion)
  let migrationPending := isVersionEmpty schemaVersion ||
    semver.IsVersionGreaterThan currentSchemaVersion schemaVersion
  if migrationPending then
    (createPreMigrationBackup profile schemaVersion currentSchemaVersion).mapError
      (errorsWrap "failed to create pre-migration backup")
    (applyMigrations semver profile schemaVersion currentSchemaVersion).mapError
      (errorsWrap "failed to apply migrations")
  if profile.demo then
    (seed profile).mapError (errorsWrap "failed to seed")

end program

end Memoark.Migration
