import Memoark.Settings.Providers

/-! Reading an instance setting and writing the answer back. -/
namespace Memoark.Settings
open Go Program

structure InstanceSettings where
  basic : BasicSetting
  general : GeneralSetting
  storage : StorageSetting
  memoRelated : MemoRelatedSetting
  tags : TagsSetting
  notification : NotificationSetting
  ai : AISetting

def Rows.settings (rows : Rows) : InstanceSettings where
  basic := rows.getInstanceBasicSetting
  general := rows.getInstanceGeneralSetting
  storage := rows.getInstanceStorageSetting
  memoRelated := rows.getInstanceMemoRelatedSetting
  tags := rows.getInstanceTagsSetting
  notification := rows.getInstanceNotificationSetting
  ai := rows.getInstanceAISetting

/-- Writing back what an administrator reads under a name is refused or changes nothing. -/
def Survives (compiles : String → Bool) (newIds : Nat → String) (rows : Rows) (name : String) :
    Prop :=
  ∀ message, getInstanceSetting rows (some .ADMIN) name = .ok message →
    match updateInstanceSetting compiles newIds rows (some .ADMIN) message with
    | .error _ => True
    | .ok rows' => rows'.settings = rows.settings

def keyNamed (name : String) : Option Key :=
  (extractInstanceSettingKeyFromName name).toOption.bind Key.ofString

theorem extract_append {key : List Char} (hempty : key.isEmpty = false) (hslash : '/' ∉ key) :
    extractInstanceSettingKeyFromName (String.ofList (namePrefix.toList ++ key)) =
      .ok (String.ofList key) := by
  have hprefix : namePrefix.toList.isPrefixOf (namePrefix.toList ++ key) = true :=
    List.isPrefixOf_iff_prefix.mpr (List.prefix_append _ _)
  have hno : ¬(!true) = true := nofun
  have hnonempty : ¬false = true := nofun
  unfold extractInstanceSettingKeyFromName
  rw [String.toList_ofList, hprefix, List.drop_left, if_neg hno]
  dsimp only
  rw [hempty, if_neg hnonempty, if_neg hslash]

theorem extract_instanceSettingName (key : Key) :
    extractInstanceSettingKeyFromName (instanceSettingName key) = .ok key.toString := by
  have hempty : key.toString.toList.isEmpty = false := by cases key <;> decide +kernel
  have hslash : '/' ∉ key.toString.toList := by cases key <;> decide +kernel
  rw [instanceSettingName, extract_append hempty hslash, String.ofList_toList]

theorem ofString_toString (key : Key) : Key.ofString key.toString = some key := by
  cases key <;> decide +kernel

theorem keyNamed_instanceSettingName (key : Key) : keyNamed (instanceSettingName key) = some key := by
  rw [keyNamed, extract_instanceSettingName]
  exact ofString_toString key

theorem checkReader_admin (key : Key) : checkReader key (some .ADMIN) = .ok () := by
  cases key <;> rfl

theorem redact_admin (v : Option Api.Value) : redact (some .ADMIN) v = v := by
  rcases v with _ | v
  · rfl
  · cases v <;> rfl

theorem getInstanceSetting_admin (rows : Rows) (name : String) (message : Api.InstanceSetting) :
    getInstanceSetting rows (some .ADMIN) name = .ok message ↔
      ∃ key, keyNamed name = some key ∧
        message = ⟨instanceSettingName key, answeredValue rows key⟩ := by
  unfold getInstanceSetting keyNamed
  cases extractInstanceSettingKeyFromName name with
  | error e => simp [Except.toOption, Except.mapError, bind, Except.bind]
  | ok s =>
    cases hkey : Key.ofString s with
    | none => simp [Except.toOption, Except.mapError, bind, Except.bind, hkey, throw, throwThe,
        MonadExceptOf.throw]
    | some key =>
      simp only [Except.toOption, Except.mapError, bind, Except.bind, hkey, checkReader_admin,
        redact_admin, Option.bind_some, pure, Except.pure, Except.ok.injEq, Option.some.injEq,
        exists_eq_left']
      exact eq_comm

def answer (rows : Rows) (key : Key) : Api.InstanceSetting :=
  ⟨instanceSettingName key, answeredValue rows key⟩

theorem survives_iff_key (compiles : String → Bool) (newIds : Nat → String) (rows : Rows)
    (name : String) :
    Survives compiles newIds rows name ↔
      ∀ key, keyNamed name = some key →
        match updateInstanceSetting compiles newIds rows (some .ADMIN) (answer rows key) with
        | .error _ => True
        | .ok rows' => rows'.settings = rows.settings := by
  constructor
  · intro h key hkey
    exact h (answer rows key) ((getInstanceSetting_admin rows name _).mpr ⟨key, hkey, rfl⟩)
  · intro h message hmessage
    obtain ⟨key, hkey, hmessage⟩ := (getInstanceSetting_admin rows name message).mp hmessage
    have hanswer : message = answer rows key := hmessage
    rw [hanswer]
    exact h key hkey

/-- The stored message that an answer stands for: without credentials, and a general message of
nothing for the basic setting, which has no message in the API. -/
def resentValue (rows : Rows) : Key → Value
  | .BASIC => .generalSetting none
  | .GENERAL => .generalSetting (some rows.getInstanceGeneralSetting)
  | .STORAGE =>
    .storageSetting (some (convertInstanceStorageSettingFromStore rows.getInstanceStorageSetting))
  | .MEMO_RELATED => .memoRelatedSetting (some rows.getInstanceMemoRelatedSetting)
  | .TAGS => .tagsSetting (some rows.getInstanceTagsSetting)
  | .NOTIFICATION =>
    .notificationSetting
      (some (convertInstanceNotificationSettingFromStore rows.getInstanceNotificationSetting))
  | .AI =>
    .aiSetting (some ⟨rows.getInstanceAISetting.providers.map resent,
      rows.getInstanceAISetting.transcription⟩)

theorem convert_answer (rows : Rows) (key : Key) :
    convertInstanceSettingToStore (answer rows key) = ⟨some key, resentValue rows key⟩ := by
  have hkey := keyNamed_instanceSettingName key
  unfold keyNamed at hkey
  simp only [convertInstanceSettingToStore, answer, hkey]
  cases key with
  | AI =>
    simp only [answeredValue, Api.InstanceSetting.getAiSetting, Option.map_some,
      convertInstanceAISettingToStore, convertInstanceAISettingFromStore, List.map_map]
    rfl
  | _ => rfl

theorem validate_answer (compiles : String → Bool) (rows : Rows) {key : Key} (h : key ≠ .TAGS) :
    validateInstanceSetting compiles (answer rows key) = .ok () := by
  have hne : key.toString ≠ Key.TAGS.toString := by
    intro heq
    have hkey := ofString_toString key
    rw [heq, ofString_toString] at hkey
    exact h (Option.some.inj hkey).symm
  simp only [validateInstanceSetting, answer, extract_instanceSettingName, bind, Except.bind,
    if_neg hne]
  rfl

theorem update_of_prepared {compiles : String → Bool} {newIds : Nat → String} {rows rows' : Rows}
    (key : Key) (hkey : key ≠ .TAGS) (value : Value)
    (hp : prepareUpdate newIds rows (convertInstanceSettingToStore (answer rows key)) =
      .ok ⟨some key, value⟩)
    (hr : upsertInstanceSetting rows ⟨some key, value⟩ = some rows') :
    updateInstanceSetting compiles newIds rows (some .ADMIN) (answer rows key) = .ok rows' := by
  simp only [updateInstanceSetting, validate_answer compiles rows hkey, bind, Except.bind, hp, hr]
  rfl

theorem update_basic (compiles : String → Bool) (newIds : Nat → String) (rows : Rows) :
    updateInstanceSetting compiles newIds rows (some .ADMIN) (answer rows .BASIC) =
      .ok { rows with basic := some .zero } := by
  apply update_of_prepared .BASIC (by decide) (.generalSetting none)
  · rw [convert_answer]
    rfl
  · rfl

theorem update_general (compiles : String → Bool) (newIds : Nat → String) (rows : Rows) :
    updateInstanceSetting compiles newIds rows (some .ADMIN) (answer rows .GENERAL) =
      .ok { rows with general := some rows.getInstanceGeneralSetting } := by
  apply update_of_prepared .GENERAL (by decide) (.generalSetting (some rows.getInstanceGeneralSetting))
  · rw [convert_answer]
    rfl
  · rfl

theorem update_memoRelated (compiles : String → Bool) (newIds : Nat → String) (rows : Rows) :
    updateInstanceSetting compiles newIds rows (some .ADMIN) (answer rows .MEMO_RELATED) =
      .ok { rows with memoRelated := some rows.getInstanceMemoRelatedSetting } := by
  apply update_of_prepared .MEMO_RELATED (by decide) (.memoRelatedSetting (some rows.getInstanceMemoRelatedSetting))
  · rw [convert_answer]
    rfl
  · rfl

theorem keepAccessKeySecret_answer (rows : Rows) :
    keepAccessKeySecret rows (convertInstanceStorageSettingFromStore rows.getInstanceStorageSetting) =
      rows.getInstanceStorageSetting := by
  cases hconfig : rows.getInstanceStorageSetting.s3Config with
  | none =>
    simp only [keepAccessKeySecret, convertInstanceStorageSettingFromStore, hconfig,
      Option.map_none]
    rw [← hconfig]
  | some config =>
    simp only [keepAccessKeySecret, convertInstanceStorageSettingFromStore, hconfig,
      Option.map_some, ne_eq, not_true, if_false]
    rw [← hconfig]

theorem update_storage (compiles : String → Bool) (newIds : Nat → String) (rows : Rows) :
    updateInstanceSetting compiles newIds rows (some .ADMIN) (answer rows .STORAGE) =
      .ok { rows with storage := some rows.getInstanceStorageSetting } := by
  apply update_of_prepared .STORAGE (by decide) (.storageSetting (some rows.getInstanceStorageSetting))
  · rw [convert_answer]
    simp only [prepareUpdate, InstanceSetting.getStorageSetting, resentValue,
      keepAccessKeySecret_answer]
    rfl
  · rfl

theorem sameSMTPConnectionIdentity_blank (email : EmailSetting) :
    sameSMTPConnectionIdentity { email with smtpPassword := "" } email = true := by
  simp [sameSMTPConnectionIdentity]

theorem keepSmtpPassword_answer (rows : Rows) :
    keepSmtpPassword rows
        (convertInstanceNotificationSettingFromStore rows.getInstanceNotificationSetting) =
      .ok rows.getInstanceNotificationSetting := by
  have hemail : rows.getInstanceNotificationSetting.email =
      some ((rows.notification.getD .zero).email.getD .zero) := rfl
  generalize (rows.notification.getD .zero).email.getD .zero = email at hemail
  have hsetting : rows.getInstanceNotificationSetting = ⟨some email⟩ := by
    rw [← hemail]
  simp only [keepSmtpPassword, convertInstanceNotificationSettingFromStore, hsetting,
    Option.map_some, sameSMTPConnectionIdentity_blank, ne_eq, not_true, if_false, Bool.not_true,
    Bool.and_false, Bool.false_eq_true]

theorem update_notification (compiles : String → Bool) (newIds : Nat → String) (rows : Rows) :
    updateInstanceSetting compiles newIds rows (some .ADMIN) (answer rows .NOTIFICATION) =
      .ok { rows with notification := some rows.getInstanceNotificationSetting } := by
  apply update_of_prepared .NOTIFICATION (by decide) (.notificationSetting (some rows.getInstanceNotificationSetting))
  · rw [convert_answer]
    simp only [prepareUpdate, InstanceSetting.getNotificationSetting, resentValue,
      keepSmtpPassword_answer]
    rfl
  · rfl

theorem update_tags {compiles : String → Bool} {newIds : Nat → String} {rows rows' : Rows}
    (h : updateInstanceSetting compiles newIds rows (some .ADMIN) (answer rows .TAGS) = .ok rows') :
    rows' = { rows with tags := some rows.getInstanceTagsSetting } := by
  obtain ⟨_, _, h⟩ := bind_ok h
  rw [convert_answer] at h
  cases h
  rfl

/-- Stored AI settings that an update accepts back. -/
structure AcceptableAI (ai : AISetting) : Prop where
  providers : Acceptable ai.providers
  transcription : ∀ t, ai.transcription = some t →
    checkTranscription ai.providers (trimTranscription t) = .ok ()

structure NormalAI (ai : AISetting) : Prop where
  providers : ∀ p ∈ ai.providers, normalized p = p
  transcription : ∀ t, ai.transcription = some t → trimTranscription t = t

def normalizedAI (ai : AISetting) : AISetting :=
  ⟨ai.providers.map normalized, ai.transcription.map trimTranscription⟩

theorem normalizedAI_eq_iff (ai : AISetting) : normalizedAI ai = ai ↔ NormalAI ai := by
  obtain ⟨providers, transcription⟩ := ai
  simp only [normalizedAI, AISetting.mk.injEq]
  constructor
  · rintro ⟨hproviders, htranscription⟩
    refine ⟨fun p hp => ?_, fun t ht => ?_⟩
    · exact List.map_eq_map_iff.mp (hproviders.trans (List.map_id providers).symm) p hp
    · simp only at ht
      rw [ht] at htranscription
      exact Option.some.inj htranscription
  · intro h
    constructor
    · exact (List.map_congr_left h.providers).trans (List.map_id providers)
    · cases transcription with
      | none => rfl
      | some t => exact congrArg some (h.transcription t rfl)

theorem checkTranscription_normalized (ps : List AIProviderConfig) (t : TranscriptionConfig) :
    checkTranscription (ps.map normalized) t = checkTranscription ps t := by
  have hany : ((ps.map normalized).any fun p => p.id = t.providerId) =
      ps.any fun p => p.id = t.providerId := by
    rw [List.any_map]
    rfl
  unfold checkTranscription
  rw [hany]

theorem prepareTranscription_iff (ps : List AIProviderConfig)
    (transcription result : Option TranscriptionConfig) :
    preparePersistedTranscriptionConfig ps transcription transcription = .ok result ↔
      (∀ t, transcription = some t → checkTranscription ps (trimTranscription t) = .ok ()) ∧
        result = transcription.map trimTranscription := by
  cases transcription with
  | none =>
    simp only [preparePersistedTranscriptionConfig, Option.or_none, pure, Except.pure,
      Except.ok.injEq, reduceCtorEq, false_implies, implies_true, true_and, Option.map_none]
    exact eq_comm
  | some t =>
    simp only [preparePersistedTranscriptionConfig, Option.some_or, Option.some.injEq,
      forall_eq', Option.map_some]
    constructor
    · intro h
      obtain ⟨_, hcheck, h⟩ := bind_ok h
      cases h
      exact ⟨hcheck, rfl⟩
    · rintro ⟨hcheck, rfl⟩
      rw [hcheck]
      rfl

theorem prepareAI_iff {newIds : Nat → String} {rows : Rows}
    (hnew : NewIds newIds rows.getInstanceAISetting.providers) (result : AISetting) :
    prepareInstanceAISettingForUpdate newIds rows
        (some ⟨rows.getInstanceAISetting.providers.map resent,
          rows.getInstanceAISetting.transcription⟩) = .ok result ↔
      AcceptableAI rows.getInstanceAISetting ∧ result = normalizedAI rows.getInstanceAISetting := by
  unfold prepareInstanceAISettingForUpdate
  constructor
  · intro h
    obtain ⟨providers, hproviders, h⟩ := bind_ok h
    obtain ⟨transcription, htranscription, h⟩ := bind_ok h
    cases h
    obtain ⟨hacceptable, rfl⟩ := (prepareProviders_resent hnew).mp hproviders
    obtain ⟨hcheck, rfl⟩ := (prepareTranscription_iff _ _ _).mp htranscription
    refine ⟨⟨hacceptable, fun t ht => ?_⟩, rfl⟩
    rw [← checkTranscription_normalized]
    exact hcheck t ht
  · rintro ⟨h, rfl⟩
    have hproviders := (prepareProviders_resent hnew).mpr ⟨h.providers, rfl⟩
    have htranscription := (prepareTranscription_iff
      (rows.getInstanceAISetting.providers.map normalized)
      rows.getInstanceAISetting.transcription _).mpr
      ⟨fun t ht => (checkTranscription_normalized _ _).trans (h.transcription t ht), rfl⟩
    simp only [bind, Except.bind, hproviders, htranscription]
    rfl

theorem update_ai (compiles : String → Bool) {newIds : Nat → String} {rows : Rows}
    (hnew : NewIds newIds rows.getInstanceAISetting.providers) (rows' : Rows) :
    updateInstanceSetting compiles newIds rows (some .ADMIN) (answer rows .AI) = .ok rows' ↔
      AcceptableAI rows.getInstanceAISetting ∧
        rows' = { rows with ai := some (normalizedAI rows.getInstanceAISetting) } := by
  have hvalidate := validate_answer compiles rows (show Key.AI ≠ .TAGS by decide)
  simp only [updateInstanceSetting, hvalidate, convert_answer, resentValue]
  constructor
  · intro h
    obtain ⟨_, _, h⟩ := bind_ok h
    obtain ⟨prepared, hprepared, h⟩ := bind_ok h
    obtain ⟨ai, hai, hvalue⟩ := bind_ok hprepared
    cases hvalue
    obtain ⟨hacceptable, rfl⟩ := (prepareAI_iff hnew ai).mp (Program.mapError_ok hai)
    cases h
    exact ⟨hacceptable, rfl⟩
  · rintro ⟨h, rfl⟩
    have hai := (prepareAI_iff hnew _).mpr ⟨h, rfl⟩
    simp only [prepareUpdate, InstanceSetting.getAiSetting, bind, Except.bind, hai]
    rfl

def Kept (rows : Rows) : Key → Prop
  | .BASIC => rows.getInstanceBasicSetting = .zero
  | .AI => AcceptableAI rows.getInstanceAISetting → NormalAI rows.getInstanceAISetting
  | _ => True

/-- A setting that is read and written back survives, but for the secret key and the schema
version, and AI settings that were not stored by an update. -/
theorem survives_iff (compiles : String → Bool) (newIds : Nat → String) (rows : Rows)
    (hnew : NewIds newIds rows.getInstanceAISetting.providers) (name : String) :
    Survives compiles newIds rows name ↔ ∀ key, keyNamed name = some key → Kept rows key := by
  rw [survives_iff_key]
  refine forall_congr' fun key => imp_congr_right fun _ => ?_
  cases key with
  | BASIC =>
    rw [update_basic]
    constructor
    · intro h
      exact (congrArg InstanceSettings.basic h).symm
    · intro h
      have hbasic : rows.getInstanceBasicSetting = .zero := h
      simp only [Rows.settings, hbasic]
      rfl
  | GENERAL =>
    rw [update_general]
    exact iff_of_true rfl trivial
  | STORAGE =>
    rw [update_storage]
    refine iff_of_true ?_ trivial
    simp only [Rows.settings, Rows.getInstanceStorageSetting, Option.getD_some,
      StorageSetting.fill_fill]
    rfl
  | MEMO_RELATED =>
    rw [update_memoRelated]
    refine iff_of_true ?_ trivial
    simp only [Rows.settings, Rows.getInstanceMemoRelatedSetting, Option.getD_some,
      MemoRelatedSetting.fill_fill]
    rfl
  | TAGS =>
    refine iff_of_true ?_ trivial
    cases hupdate : updateInstanceSetting compiles newIds rows (some .ADMIN) (answer rows .TAGS) with
    | error e => trivial
    | ok rows' =>
      rw [update_tags hupdate]
      rfl
  | NOTIFICATION =>
    rw [update_notification]
    exact iff_of_true rfl trivial
  | AI =>
    cases hupdate : updateInstanceSetting compiles newIds rows (some .ADMIN) (answer rows .AI) with
    | error e =>
      refine iff_of_true trivial fun hacceptable => ?_
      have hok := (update_ai compiles hnew _).mpr ⟨hacceptable, rfl⟩
      rw [hupdate] at hok
      cases hok
    | ok rows' =>
      obtain ⟨hacceptable, rfl⟩ := (update_ai compiles hnew rows').mp hupdate
      constructor
      · intro h _
        exact (normalizedAI_eq_iff _).mp (congrArg InstanceSettings.ai h)
      · intro h
        have hai := (normalizedAI_eq_iff _).mpr (h hacceptable)
        simp only [hai]
        rfl

/-- An instance with its secret key and schema version, and nothing else stored. -/
def installed : Rows := ⟨some ⟨"secret", "0.29.0"⟩, none, none, none, none, none, none⟩

def generated (_ : Nat) : String := "vytxeTZskVKR7C7WgdSP3d"

theorem newIds_installed : NewIds generated installed.getInstanceAISetting.providers := nofun

/-- The general setting of such an instance survives. -/
theorem survives_general :
    Survives (fun _ => true) generated installed "instance/settings/GENERAL" := by
  have hname : keyNamed "instance/settings/GENERAL" = some .GENERAL := by decide +kernel
  refine (survives_iff _ _ installed newIds_installed _).mpr fun key hkey => ?_
  rw [hname] at hkey
  cases hkey
  trivial

/-- The answer for the basic setting, written back, erases the secret key and the schema
version. -/
theorem basic_erased :
    (∃ message, getInstanceSetting installed (some .ADMIN) "instance/settings/BASIC" = .ok message ∧
      ∃ rows', updateInstanceSetting (fun _ => true) generated installed (some .ADMIN) message =
        .ok rows' ∧ rows'.basic = some ⟨"", ""⟩) ∧
      ¬Survives (fun _ => true) generated installed "instance/settings/BASIC" := by
  have hname : keyNamed "instance/settings/BASIC" = some .BASIC := by decide +kernel
  have hget := (getInstanceSetting_admin installed "instance/settings/BASIC" _).mpr
    ⟨.BASIC, hname, rfl⟩
  have hupdate := update_basic (fun _ => true) generated installed
  refine ⟨⟨_, hget, _, hupdate, rfl⟩, fun h => ?_⟩
  have hsettings := (survives_iff_key _ _ _ _).mp h .BASIC hname
  rw [hupdate] at hsettings
  have hsecret : BasicSetting.zero = ⟨"secret", "0.29.0"⟩ := congrArg InstanceSettings.basic hsettings
  exact absurd hsecret (by decide)

end Memoark.Settings
