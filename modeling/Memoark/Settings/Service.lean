import Memoark.Go.Strings
import Memoark.Settings.Store

/-! `GetInstanceSetting` and `UpdateInstanceSetting` of
`server/router/api/v1/instance_service.go`. The API messages have the fields of the stored ones,
but for the AI providers. -/
namespace Memoark.Settings
open Go

inductive Role where
  | ADMIN
  | USER
  deriving DecidableEq

namespace Api

structure AIProviderConfig where
  id : String
  title : String
  type : AIProviderType
  endpoint : String
  apiKey : String
  apiKeySet : Bool
  apiKeyHint : List UInt8

structure AISetting where
  providers : List AIProviderConfig
  transcription : Option TranscriptionConfig

inductive Value where
  | generalSetting (setting : GeneralSetting)
  | storageSetting (setting : StorageSetting)
  | memoRelatedSetting (setting : MemoRelatedSetting)
  | tagsSetting (setting : TagsSetting)
  | notificationSetting (setting : NotificationSetting)
  | aiSetting (setting : AISetting)

structure InstanceSetting where
  name : String
  value : Option Value

def InstanceSetting.getGeneralSetting (s : InstanceSetting) : Option GeneralSetting :=
  match s.value with
  | some (.generalSetting setting) => some setting
  | _ => none

def InstanceSetting.getStorageSetting (s : InstanceSetting) : Option StorageSetting :=
  match s.value with
  | some (.storageSetting setting) => some setting
  | _ => none

def InstanceSetting.getMemoRelatedSetting (s : InstanceSetting) : Option MemoRelatedSetting :=
  match s.value with
  | some (.memoRelatedSetting setting) => some setting
  | _ => none

def InstanceSetting.getTagsSetting (s : InstanceSetting) : Option TagsSetting :=
  match s.value with
  | some (.tagsSetting setting) => some setting
  | _ => none

def InstanceSetting.getNotificationSetting (s : InstanceSetting) : Option NotificationSetting :=
  match s.value with
  | some (.notificationSetting setting) => some setting
  | _ => none

def InstanceSetting.getAiSetting (s : InstanceSetting) : Option AISetting :=
  match s.value with
  | some (.aiSetting setting) => some setting
  | _ => none

end Api

def namePrefix : String := "instance/settings/"

def extractInstanceSettingKeyFromName (name : String) : Except String String :=
  if !namePrefix.toList.isPrefixOf name.toList then
    .error s!"invalid instance setting name: expected prefix {quoted namePrefix}, got {quoted name}"
  else
    let key := name.toList.drop namePrefix.toList.length
    if key.isEmpty then
      .error s!"invalid instance setting name: empty setting key in {quoted name}"
    else if '/' ∈ key then
      .error s!"invalid instance setting name: setting key cannot contain '/' in {quoted name}"
    else .ok (String.ofList key)

def instanceSettingName (key : Key) : String :=
  String.ofList (namePrefix.toList ++ key.toString.toList)

/-- `AccessKeySecret` is never returned. -/
def convertInstanceStorageSettingFromStore (s : StorageSetting) : StorageSetting :=
  { s with s3Config := s.s3Config.map fun config => { config with accessKeySecret := "" } }

/-- `SmtpPassword` is never returned. -/
def convertInstanceNotificationSettingFromStore (s : NotificationSetting) : NotificationSetting :=
  ⟨s.email.map fun email => { email with smtpPassword := "" }⟩

def maskAPIKey (apiKey : String) : List UInt8 :=
  let bytes := apiKey.toByteArray.toList
  if bytes.isEmpty then []
  else if bytes.length ≤ 8 then "...".toByteArray.toList
  else bytes.take 4 ++ "...".toByteArray.toList ++ bytes.drop (bytes.length - 4)

def convertAIProviderFromStore (p : AIProviderConfig) : Api.AIProviderConfig where
  id := p.id
  title := p.title
  type := p.type
  endpoint := p.endpoint
  apiKey := ""
  apiKeySet := p.apiKey ≠ ""
  apiKeyHint := maskAPIKey p.apiKey

def convertInstanceAISettingFromStore (s : AISetting) : Api.AISetting where
  providers := s.providers.map convertAIProviderFromStore
  transcription := s.transcription

def convertAIProviderToStore (p : Api.AIProviderConfig) : AIProviderConfig :=
  ⟨p.id, p.title, p.type, p.endpoint, p.apiKey⟩

def convertInstanceAISettingToStore (s : Api.AISetting) : AISetting where
  providers := s.providers.map convertAIProviderToStore
  transcription := s.transcription

def answeredValue (rows : Rows) : Key → Option Api.Value
  | .BASIC => none
  | .GENERAL => some (.generalSetting rows.getInstanceGeneralSetting)
  | .STORAGE =>
    some (.storageSetting (convertInstanceStorageSettingFromStore rows.getInstanceStorageSetting))
  | .MEMO_RELATED => some (.memoRelatedSetting rows.getInstanceMemoRelatedSetting)
  | .TAGS => some (.tagsSetting rows.getInstanceTagsSetting)
  | .NOTIFICATION =>
    some (.notificationSetting
      (convertInstanceNotificationSettingFromStore rows.getInstanceNotificationSetting))
  | .AI => some (.aiSetting (convertInstanceAISettingFromStore rows.getInstanceAISetting))

def checkReader (key : Key) (user : Option Role) : Except String Unit :=
  match key, user with
  | .STORAGE, none | .NOTIFICATION, none | .AI, none => .error "user not authenticated"
  | .STORAGE, some .USER | .NOTIFICATION, some .USER => .error "permission denied"
  | _, _ => .ok ()

def redact (user : Option Role) : Option Api.Value → Option Api.Value
  | some (.aiSetting ai) =>
    if user = some .ADMIN then some (.aiSetting ai)
    else
      some (.aiSetting { ai with
        transcription := ai.transcription.map fun t => ⟨t.providerId, "", "", ""⟩ })
  | v => v

def unsupportedKey : String :=
  "unsupported instance setting key: INSTANCE_SETTING_KEY_UNSPECIFIED"

def getInstanceSetting (rows : Rows) (user : Option Role) (name : String) :
    Except String Api.InstanceSetting := do
  let keyString ← (extractInstanceSettingKeyFromName name).mapError
    ("invalid instance setting name: " ++ ·)
  match Key.ofString keyString with
  | none => throw unsupportedKey
  | some key =>
    checkReader key user
    pure ⟨instanceSettingName key, redact user (answeredValue rows key)⟩

def convertInstanceSettingToStore (s : Api.InstanceSetting) : InstanceSetting :=
  let key := (extractInstanceSettingKeyFromName s.name).toOption.bind Key.ofString
  let value : Value :=
    match key with
    | some .STORAGE => .storageSetting s.getStorageSetting
    | some .MEMO_RELATED => .memoRelatedSetting s.getMemoRelatedSetting
    | some .TAGS => .tagsSetting s.getTagsSetting
    | some .NOTIFICATION => .notificationSetting s.getNotificationSetting
    | some .AI => .aiSetting (s.getAiSetting.map convertInstanceAISettingToStore)
    | _ => .generalSetting s.getGeneralSetting
  ⟨key, value⟩

def validateInstanceColorComponent (name : String) (value : Float32) : Except String Unit := do
  if value.isNaN || value.isInf then throw s!"{name} must be a finite number"
  if value < 0 || value > 1 then throw s!"{name} must be between 0 and 1"

def validateInstanceColor (color : Color) : Except String Unit := do
  validateInstanceColorComponent "red" color.red
  validateInstanceColorComponent "green" color.green
  validateInstanceColorComponent "blue" color.blue
  match color.alpha with
  | some alpha => validateInstanceColorComponent "alpha" alpha
  | none => pure ()

def validateInstanceTagsSetting (compiles : String → Bool) :
    Option TagsSetting → Except String Unit
  | none => throw "tags setting is required"
  | some s => s.tags.forM fun (tag, metadata) => do
    if trimSpace tag = "" then throw "tag key cannot be empty"
    if !compiles tag then throw s!"tag key {quoted tag} is not a valid regex pattern"
    match metadata.backgroundColor with
    | some color =>
      (validateInstanceColor color).mapError (s!"background_color for {quoted tag}: " ++ ·)
    | none => pure ()

def validateInstanceSetting (compiles : String → Bool) (s : Api.InstanceSetting) :
    Except String Unit := do
  let key ← extractInstanceSettingKeyFromName s.name
  if key = Key.TAGS.toString then validateInstanceTagsSetting compiles s.getTagsSetting

def sameSMTPConnectionIdentity (s existing : EmailSetting) : Bool :=
  trimSpace s.smtpHost = trimSpace existing.smtpHost && s.smtpPort = existing.smtpPort &&
    trimSpace s.smtpUsername = trimSpace existing.smtpUsername && s.useTls = existing.useTls &&
    s.useSsl = existing.useSsl

def smtpPasswordRequired : String :=
  "smtp password is required when changing SMTP host, port, username, or encryption settings"

def keepSmtpPassword (rows : Rows) (s : NotificationSetting) : Except String NotificationSetting :=
  match s.email, rows.getInstanceNotificationSetting.email with
  | some email, some existing =>
    if email.smtpPassword ≠ "" then .ok s
    else if existing.smtpPassword ≠ "" && !sameSMTPConnectionIdentity email existing then
      .error smtpPasswordRequired
    else .ok ⟨some { email with smtpPassword := existing.smtpPassword }⟩
  | _, _ => .ok s

def keepAccessKeySecret (rows : Rows) (s : StorageSetting) : StorageSetting :=
  match s.s3Config, rows.getInstanceStorageSetting.s3Config with
  | some config, some existing =>
    if config.accessKeySecret ≠ "" then s
    else { s with s3Config := some { config with accessKeySecret := existing.accessKeySecret } }
  | _, _ => s

def defaultEndpoint (type : AIProviderType) (endpoint : String) : String :=
  if endpoint ≠ "" then endpoint
  else
    match type with
    | .OPENAI => "https://api.openai.com/v1"
    | .GEMINI => "https://generativelanguage.googleapis.com/v1beta"
    | _ => ""

def existingApiKey (existing : List AIProviderConfig) (id : String) : Option String :=
  (existing.reverse.find? fun p => p.id ≠ "" ∧ p.id = id).map (·.apiKey)

/-- The id a provider is stored under; `newId` is what `shortuuid.New` generates for it. -/
def preparedId (newId : String) (p : AIProviderConfig) : String :=
  if trimSpace p.id = "" then newId else trimSpace p.id

def preparedApiKey (existing : List AIProviderConfig) (id : String) (p : AIProviderConfig) :
    String :=
  if p.apiKey = "" then (existingApiKey existing id).getD "" else p.apiKey

def supported (type : AIProviderType) : Bool := type = .OPENAI || type = .GEMINI

def prepareProvider (existing : List AIProviderConfig) (newId : String) (seen : List String)
    (p : AIProviderConfig) : Except String AIProviderConfig :=
  let id := preparedId newId p
  if id ∈ seen then .error s!"duplicate provider ID {quoted id}"
  else if trimSpace p.title = "" then .error "provider title is required"
  else if !supported p.type then
    .error s!"provider {quoted id} has unsupported type"
  else if preparedApiKey existing id p = "" then
    .error s!"provider {quoted id} API key is required"
  else
    .ok ⟨id, trimSpace p.title, p.type, defaultEndpoint p.type (trimSpace p.endpoint),
      preparedApiKey existing id p⟩

def prepareProviders (existing : List AIProviderConfig) (newIds : Nat → String) :
    Nat → List String → List AIProviderConfig → Except String (List AIProviderConfig)
  | _, _, [] => pure []
  | i, seen, p :: ps => do
    let q ← prepareProvider existing (newIds i) seen p
    let qs ← prepareProviders existing newIds (i + 1) (q.id :: seen) ps
    pure (q :: qs)

def maxTranscriptionConfigModelLength : Nat := 256

def maxTranscriptionConfigLanguageLength : Nat := 32

def maxTranscriptionConfigPromptLength : Nat := 4096

def trimTranscription (t : TranscriptionConfig) : TranscriptionConfig :=
  ⟨trimSpace t.providerId, trimSpace t.model, trimSpace t.language, trimSpace t.prompt⟩

def checkTranscription (providers : List AIProviderConfig) (t : TranscriptionConfig) :
    Except String Unit := do
  if t.providerId ≠ "" && !providers.any fun p => p.id = t.providerId then
    throw (s!"transcription provider_id {quoted t.providerId} does not reference any " ++
      "configured provider")
  if t.model.utf8ByteSize > maxTranscriptionConfigModelLength then
    throw (s!"transcription model is too long; maximum length is " ++
      s!"{maxTranscriptionConfigModelLength} characters")
  if t.language.utf8ByteSize > maxTranscriptionConfigLanguageLength then
    throw (s!"transcription language is too long; maximum length is " ++
      s!"{maxTranscriptionConfigLanguageLength} characters")
  if t.prompt.utf8ByteSize > maxTranscriptionConfigPromptLength then
    throw (s!"transcription prompt is too long; maximum length is " ++
      s!"{maxTranscriptionConfigPromptLength} characters")

def preparePersistedTranscriptionConfig (providers : List AIProviderConfig)
    (transcription existing : Option TranscriptionConfig) :
    Except String (Option TranscriptionConfig) :=
  match transcription.or existing with
  | none => pure none
  | some t => do
    checkTranscription providers (trimTranscription t)
    pure (some (trimTranscription t))

def prepareInstanceAISettingForUpdate (newIds : Nat → String) (rows : Rows) :
    Option AISetting → Except String AISetting
  | none => throw "AI setting is required"
  | some s => do
    let existing := rows.getInstanceAISetting
    let providers ← prepareProviders existing.providers newIds 0 [] s.providers
    let transcription ← preparePersistedTranscriptionConfig providers s.transcription
      existing.transcription
    pure ⟨providers, transcription⟩

/-- What is written for an update: credentials that the caller left empty are kept. -/
def prepareUpdate (newIds : Nat → String) (rows : Rows) (s : InstanceSetting) :
    Except String InstanceSetting :=
  match s.key with
  | some .NOTIFICATION =>
    match s.getNotificationSetting with
    | some setting => do
      let kept ← keepSmtpPassword rows setting
      pure { s with value := .notificationSetting (some kept) }
    | none => pure s
  | some .STORAGE =>
    match s.getStorageSetting with
    | some setting =>
      pure { s with value := .storageSetting (some (keepAccessKeySecret rows setting)) }
    | none => pure s
  | some .AI => do
    let prepared ← (prepareInstanceAISettingForUpdate newIds rows s.getAiSetting).mapError
      ("invalid AI setting: " ++ ·)
    pure { s with value := .aiSetting (some prepared) }
  | _ => pure s

def updateInstanceSetting (compiles : String → Bool) (newIds : Nat → String) (rows : Rows)
    (user : Option Role) (setting : Api.InstanceSetting) : Except String Rows := do
  match user with
  | none => throw "user not authenticated"
  | some .USER => throw "permission denied"
  | some .ADMIN =>
    (validateInstanceSetting compiles setting).mapError ("invalid instance setting: " ++ ·)
    let prepared ← prepareUpdate newIds rows (convertInstanceSettingToStore setting)
    match upsertInstanceSetting rows prepared with
    | some rows' => pure rows'
    | none => throw ("failed to upsert instance setting: " ++ unsupportedKey)

end Memoark.Settings
