/-! Instance settings and their rows, `store/instance_setting.go`. The cache of the store holds
the rows with their defaults and is left out. -/
namespace Memoark.Settings

/-- `INSTANCE_SETTING_KEY_UNSPECIFIED` is the absence of a key. -/
inductive Key where
  | BASIC
  | GENERAL
  | STORAGE
  | MEMO_RELATED
  | TAGS
  | NOTIFICATION
  | AI
  deriving DecidableEq

def Key.toString : Key → String
  | .BASIC => "BASIC"
  | .GENERAL => "GENERAL"
  | .STORAGE => "STORAGE"
  | .MEMO_RELATED => "MEMO_RELATED"
  | .TAGS => "TAGS"
  | .NOTIFICATION => "NOTIFICATION"
  | .AI => "AI"

def Key.ofString (s : String) : Option Key :=
  [Key.BASIC, .GENERAL, .STORAGE, .MEMO_RELATED, .TAGS, .NOTIFICATION, .AI].find? fun key =>
    key.toString = s

structure BasicSetting where
  secretKey : String
  schemaVersion : String
  deriving DecidableEq

structure CustomProfile where
  title : String
  description : String
  logoUrl : String

structure GeneralSetting where
  disallowUserRegistration : Bool
  disallowPasswordAuth : Bool
  additionalScript : String
  additionalStyle : String
  customProfile : Option CustomProfile
  weekStartDayOffset : Int
  disallowChangeUsername : Bool
  disallowChangeNickname : Bool

inductive StorageType where
  | STORAGE_TYPE_UNSPECIFIED
  | DATABASE
  | LOCAL
  | S3
  | other (number : Int)
  deriving DecidableEq

structure StorageS3Config where
  accessKeyId : String
  accessKeySecret : String
  endpoint : String
  region : String
  bucket : String
  usePathStyle : Bool

structure StorageSetting where
  storageType : StorageType
  filepathTemplate : String
  uploadSizeLimitMb : Int
  s3Config : Option StorageS3Config

structure MemoRelatedSetting where
  contentLengthLimit : Int
  enableDoubleClickEdit : Bool
  reactions : List String

structure Color where
  red : Float32
  green : Float32
  blue : Float32
  alpha : Option Float32

structure TagMetadata where
  backgroundColor : Option Color
  blurContent : Bool

structure TagsSetting where
  tags : List (String × TagMetadata)

structure EmailSetting where
  enabled : Bool
  smtpHost : String
  smtpPort : Int
  smtpUsername : String
  smtpPassword : String
  fromEmail : String
  fromName : String
  replyTo : String
  useTls : Bool
  useSsl : Bool

structure NotificationSetting where
  email : Option EmailSetting

inductive AIProviderType where
  | AI_PROVIDER_TYPE_UNSPECIFIED
  | OPENAI
  | GEMINI
  | other (number : Int)
  deriving DecidableEq

structure AIProviderConfig where
  id : String
  title : String
  type : AIProviderType
  endpoint : String
  apiKey : String

structure TranscriptionConfig where
  providerId : String
  model : String
  language : String
  prompt : String

structure AISetting where
  providers : List AIProviderConfig
  transcription : Option TranscriptionConfig

/-- The `oneof value` of a setting; a pointer in it may be nil. -/
inductive Value where
  | basicSetting (setting : Option BasicSetting)
  | generalSetting (setting : Option GeneralSetting)
  | storageSetting (setting : Option StorageSetting)
  | memoRelatedSetting (setting : Option MemoRelatedSetting)
  | tagsSetting (setting : Option TagsSetting)
  | notificationSetting (setting : Option NotificationSetting)
  | aiSetting (setting : Option AISetting)

structure InstanceSetting where
  key : Option Key
  value : Value

def InstanceSetting.getBasicSetting (s : InstanceSetting) : Option BasicSetting :=
  match s.value with
  | .basicSetting setting => setting
  | _ => none

def InstanceSetting.getGeneralSetting (s : InstanceSetting) : Option GeneralSetting :=
  match s.value with
  | .generalSetting setting => setting
  | _ => none

def InstanceSetting.getStorageSetting (s : InstanceSetting) : Option StorageSetting :=
  match s.value with
  | .storageSetting setting => setting
  | _ => none

def InstanceSetting.getMemoRelatedSetting (s : InstanceSetting) : Option MemoRelatedSetting :=
  match s.value with
  | .memoRelatedSetting setting => setting
  | _ => none

def InstanceSetting.getTagsSetting (s : InstanceSetting) : Option TagsSetting :=
  match s.value with
  | .tagsSetting setting => setting
  | _ => none

def InstanceSetting.getNotificationSetting (s : InstanceSetting) : Option NotificationSetting :=
  match s.value with
  | .notificationSetting setting => setting
  | _ => none

def InstanceSetting.getAiSetting (s : InstanceSetting) : Option AISetting :=
  match s.value with
  | .aiSetting setting => setting
  | _ => none

def BasicSetting.zero : BasicSetting := ⟨"", ""⟩

def GeneralSetting.zero : GeneralSetting := ⟨false, false, "", "", none, 0, false, false⟩

def StorageSetting.zero : StorageSetting := ⟨.STORAGE_TYPE_UNSPECIFIED, "", 0, none⟩

def MemoRelatedSetting.zero : MemoRelatedSetting := ⟨0, false, []⟩

def TagsSetting.zero : TagsSetting := ⟨[]⟩

def EmailSetting.zero : EmailSetting := ⟨false, "", 0, "", "", "", "", "", false, false⟩

def NotificationSetting.zero : NotificationSetting := ⟨none⟩

def AISetting.zero : AISetting := ⟨[], none⟩

structure Rows where
  basic : Option BasicSetting
  general : Option GeneralSetting
  storage : Option StorageSetting
  memoRelated : Option MemoRelatedSetting
  tags : Option TagsSetting
  notification : Option NotificationSetting
  ai : Option AISetting

/-- The key says which message is written; one of another kind is written as a nil message. -/
def upsertInstanceSetting (rows : Rows) (upsert : InstanceSetting) : Option Rows :=
  match upsert.key with
  | some .BASIC => some { rows with basic := some (upsert.getBasicSetting.getD .zero) }
  | some .GENERAL => some { rows with general := some (upsert.getGeneralSetting.getD .zero) }
  | some .STORAGE => some { rows with storage := some (upsert.getStorageSetting.getD .zero) }
  | some .MEMO_RELATED =>
    some { rows with memoRelated := some (upsert.getMemoRelatedSetting.getD .zero) }
  | some .TAGS => some { rows with tags := some (upsert.getTagsSetting.getD .zero) }
  | some .NOTIFICATION =>
    some { rows with notification := some (upsert.getNotificationSetting.getD .zero) }
  | some .AI => some { rows with ai := some (upsert.getAiSetting.getD .zero) }
  | none => none

def defaultContentLengthLimit : Int := 8 * 1024

def defaultReactions : List String := ["👍", "👎", "❤️", "🎉", "😄", "😕", "😢", "😡"]

def defaultInstanceUploadSizeLimitMb : Int := 30

def defaultInstanceFilepathTemplate : String :=
  "assets/\x7btimestamp\x7d_\x7buuid\x7d_\x7bfilename\x7d"

def MemoRelatedSetting.fill (s : MemoRelatedSetting) : MemoRelatedSetting :=
  { s with
    contentLengthLimit :=
      if s.contentLengthLimit < defaultContentLengthLimit then defaultContentLengthLimit
      else s.contentLengthLimit
    reactions := if s.reactions.isEmpty then defaultReactions else s.reactions }

def NotificationSetting.fill (s : NotificationSetting) : NotificationSetting :=
  ⟨some (s.email.getD .zero)⟩

def StorageSetting.fill (s : StorageSetting) : StorageSetting :=
  { s with
    storageType := if s.storageType = .STORAGE_TYPE_UNSPECIFIED then .LOCAL else s.storageType
    uploadSizeLimitMb :=
      if s.uploadSizeLimitMb = 0 then defaultInstanceUploadSizeLimitMb else s.uploadSizeLimitMb
    filepathTemplate :=
      if s.filepathTemplate = "" then defaultInstanceFilepathTemplate else s.filepathTemplate }

def Rows.getInstanceBasicSetting (rows : Rows) : BasicSetting := rows.basic.getD .zero

def Rows.getInstanceGeneralSetting (rows : Rows) : GeneralSetting := rows.general.getD .zero

def Rows.getInstanceStorageSetting (rows : Rows) : StorageSetting := (rows.storage.getD .zero).fill

def Rows.getInstanceMemoRelatedSetting (rows : Rows) : MemoRelatedSetting :=
  (rows.memoRelated.getD .zero).fill

def Rows.getInstanceTagsSetting (rows : Rows) : TagsSetting := rows.tags.getD .zero

def Rows.getInstanceNotificationSetting (rows : Rows) : NotificationSetting :=
  (rows.notification.getD .zero).fill

def Rows.getInstanceAISetting (rows : Rows) : AISetting := rows.ai.getD .zero

theorem MemoRelatedSetting.fill_fill (s : MemoRelatedSetting) : s.fill.fill = s.fill := by
  have hlimit : ¬s.fill.contentLengthLimit < defaultContentLengthLimit := by
    simp only [MemoRelatedSetting.fill]
    split <;> omega
  have hreactions : s.fill.reactions.isEmpty = false := by
    simp only [MemoRelatedSetting.fill]
    split
    · rfl
    · rename_i h
      simpa using h
  rw [MemoRelatedSetting.fill, if_neg hlimit, hreactions]
  rfl

theorem StorageSetting.fill_fill (s : StorageSetting) : s.fill.fill = s.fill := by
  have htype : s.fill.storageType ≠ .STORAGE_TYPE_UNSPECIFIED := by
    simp only [StorageSetting.fill]
    split
    · exact nofun
    · assumption
  have hsize : s.fill.uploadSizeLimitMb ≠ 0 := by
    simp only [StorageSetting.fill]
    split
    · exact nofun
    · assumption
  have htemplate : s.fill.filepathTemplate ≠ "" := by
    simp only [StorageSetting.fill]
    split
    · decide
    · assumption
  rw [StorageSetting.fill, if_neg htype, if_neg hsize, if_neg htemplate]

end Memoark.Settings
