import Memoark.Editor.DraftCodec
import Memoark.Json.Written

/-! What is saved is loaded, and what is not an envelope is loaded as it stands. -/
namespace Memoark.Editor.Codec
open Js

section envelopes

inductive Carries (p : Parsed) : MemoEditorDraft → Prop
  | v1 {content : Units}
      (kind : p.kind = some (.str structuredCacheEntryKind))
      (version : p.version = some (.num (.finite 1)))
      (content_eq : p.content = some (.str content)) :
      Carries p { mode := .create, content }
  | v2 {mode : DraftMode} {memoName baseUpdateTime : Option Units} {savedAt content : Units}
      (kind : p.kind = some (.str structuredCacheEntryKind))
      (version : p.version = some (.num (.finite 2)))
      (mode_eq : p.mode = some (.str (modeText mode)))
      (memoName_eq : p.memoName = memoName.map .str)
      (baseUpdateTime_eq : p.baseUpdateTime = baseUpdateTime.map .str)
      (savedAt_eq : p.savedAt = some (.str savedAt))
      (content_eq : p.content = some (.str content)) :
      Carries p { mode, memoName, baseUpdateTime, savedAt := some savedAt, content }
  | v3 {mode : DraftMode} {memoName baseUpdateTime requestId attemptedAt : Option Units}
      {pending : Option Bool} {savedAt content : Units}
      (kind : p.kind = some (.str structuredCacheEntryKind))
      (version : p.version = some (.num (.finite 3)))
      (mode_eq : p.mode = some (.str (modeText mode)))
      (memoName_eq : p.memoName = memoName.map .str)
      (baseUpdateTime_eq : p.baseUpdateTime = baseUpdateTime.map .str)
      (savedAt_eq : p.savedAt = some (.str savedAt))
      (requestId_eq : p.requestId = requestId.map .str)
      (pending_eq : p.pending = pending.map .bool)
      (attemptedAt_eq : p.attemptedAt = attemptedAt.map .str)
      (content_eq : p.content = some (.str content)) :
      Carries p
        { mode, memoName, baseUpdateTime, savedAt := some savedAt, requestId, pending,
          attemptedAt, content }

def Envelope (raw : Units) (draft : MemoEditorDraft) : Prop :=
  ∃ members, jsonParse raw = some (.obj members) ∧ Carries (properties members) draft

theorem asString_map (s : Option Units) : asString (s.map .str) = s := by cases s <;> rfl

theorem isStringOrUndefined_map (s : Option Units) : isStringOrUndefined (s.map .str) = true := by
  cases s <;> rfl

theorem asBoolean_map (b : Option Bool) : asBoolean (b.map .bool) = b := by cases b <;> rfl

theorem isBooleanOrUndefined_map (b : Option Bool) : isBooleanOrUndefined (b.map .bool) = true := by
  cases b <;> rfl

theorem asString_eq_some {value : Option JsonValue} {s : Units} :
    asString value = some s ↔ value = some (.str s) := by
  constructor
  · intro h
    unfold asString at h
    split at h
    · cases h
      rfl
    · cases h
  · rintro rfl
    rfl

theorem isStringOrUndefined_iff {value : Option JsonValue} :
    isStringOrUndefined value = true ↔ ∃ s : Option Units, value = s.map .str := by
  constructor
  · intro h
    cases hvalue : asString value with
    | some s => exact ⟨some s, asString_eq_some.mp hvalue⟩
    | none =>
      rw [isStringOrUndefined, isString, hvalue] at h
      have hnone : value = none := by simpa using h
      exact ⟨none, hnone⟩
  · rintro ⟨s, rfl⟩
    exact isStringOrUndefined_map s

theorem isBooleanOrUndefined_iff {value : Option JsonValue} :
    isBooleanOrUndefined value = true ↔ ∃ b : Option Bool, value = b.map .bool := by
  constructor
  · intro h
    unfold isBooleanOrUndefined asBoolean at h
    split at h
    · rename_i b
      exact ⟨some b, rfl⟩
    · have hnone : value = none := by simpa using h
      exact ⟨none, hnone⟩
  · rintro ⟨b, rfl⟩
    exact isBooleanOrUndefined_map b

theorem isNumber_iff {n : Nat} {value : Option JsonValue} :
    isNumber n value = true ↔ value = some (.num (.finite n)) := by
  constructor
  · intro h
    unfold isNumber at h
    split at h
    · rw [of_decide_eq_true h]
    · cases h
  · rintro rfl
    exact decide_eq_true rfl

theorem isNumber_ne {m n : Nat} {value : Option JsonValue}
    (h : value = some (.num (.finite m))) (hne : m ≠ n) : isNumber n value = false := by
  rw [h]
  refine decide_eq_false fun heq => hne ?_
  have hrat : (m : Rat) = n := Number.finite.inj heq
  exact_mod_cast hrat

theorem mode_of_text {mode : DraftMode} {value : Option JsonValue}
    (h : value = some (.str (modeText mode))) :
    (if asString value = some (modeText .create) then DraftMode.create else .edit) = mode ∧
      (asString value = some (modeText .create) ∨ asString value = some (modeText .edit)) := by
  rw [h]
  cases mode with
  | create => exact ⟨rfl, .inl rfl⟩
  | edit => exact ⟨if_neg (by decide), .inr rfl⟩

theorem Carries.decodeEntry {p : Parsed} {draft : MemoEditorDraft} (h : Carries p draft)
    (raw : Units) : decodeEntry raw p = draft := by
  obtain ⟨kind, version, mode, memoName, baseUpdateTime, savedAt, requestId, pending, attemptedAt,
    content⟩ := p
  unfold Codec.decodeEntry
  cases h with
  | v1 kind version content =>
    dsimp only at *
    subst kind version content
    exact if_pos ⟨rfl, rfl, rfl⟩
  | v2 kind version mode memoName baseUpdateTime savedAt content =>
    dsimp only at *
    subst kind version memoName baseUpdateTime savedAt content
    obtain ⟨hmode, htext⟩ := mode_of_text mode
    have hone : isNumber 1 (some (.num (.finite 2))) = false := isNumber_ne rfl (by decide)
    have hthree : isNumber 3 (some (.num (.finite 2))) = false := isNumber_ne rfl (by decide)
    have htwo : isNumber 2 (some (.num (.finite 2))) = true := isNumber_iff.mpr rfl
    rw [if_neg (fun h => Bool.false_ne_true (hone.symm.trans h.2.1)),
      if_pos ⟨rfl, .inl htwo, htext, isStringOrUndefined_map _, isStringOrUndefined_map _, rfl, rfl⟩]
    rw [if_neg (not_not.mpr (by rw [hasValidDeliveryMetadata, htwo]; rfl))]
    simp only [hmode, hthree, asString_map]
    rfl
  | v3 kind version mode memoName baseUpdateTime savedAt requestId pending attemptedAt content =>
    dsimp only at *
    subst kind version memoName baseUpdateTime savedAt requestId pending attemptedAt content
    obtain ⟨hmode, htext⟩ := mode_of_text mode
    have hone : isNumber 1 (some (.num (.finite 3))) = false := isNumber_ne rfl (by decide)
    have htwo : isNumber 2 (some (.num (.finite 3))) = false := isNumber_ne rfl (by decide)
    have hthree : isNumber 3 (some (.num (.finite 3))) = true := isNumber_iff.mpr rfl
    rw [if_neg (fun h => Bool.false_ne_true (hone.symm.trans h.2.1)),
      if_pos ⟨rfl, .inr hthree, htext, isStringOrUndefined_map _, isStringOrUndefined_map _, rfl,
        rfl⟩]
    rw [if_neg (not_not.mpr (by
      rw [hasValidDeliveryMetadata, isStringOrUndefined_map, isBooleanOrUndefined_map,
        isStringOrUndefined_map]
      exact Bool.or_true _))]
    simp only [hmode, hthree, asString_map, asBoolean_map]
    rfl

theorem decodeEntry_cases (raw : Units) (p : Parsed) :
    Codec.decodeEntry raw p = rawDraft raw ∨ ∃ draft, Carries p draft := by
  unfold Codec.decodeEntry
  split
  · rename_i h
    obtain ⟨hkind, hversion, hcontent⟩ := h
    obtain ⟨content, hcontent⟩ := Option.isSome_iff_exists.mp hcontent
    exact .inr ⟨_, .v1 (asString_eq_some.mp hkind) (isNumber_iff.mp hversion)
      (asString_eq_some.mp hcontent)⟩
  · split
    · rename_i h
      obtain ⟨hkind, hversion, hmode, hmemoName, hbase, hsavedAt, hcontent⟩ := h
      obtain ⟨content, hcontent⟩ := Option.isSome_iff_exists.mp hcontent
      obtain ⟨savedAt, hsavedAt⟩ := Option.isSome_iff_exists.mp hsavedAt
      obtain ⟨memoName, hmemoName⟩ := isStringOrUndefined_iff.mp hmemoName
      obtain ⟨baseUpdateTime, hbase⟩ := isStringOrUndefined_iff.mp hbase
      obtain ⟨mode, hmode⟩ : ∃ mode, asString p.mode = some (modeText mode) := by
        rcases hmode with hmode | hmode
        · exact ⟨.create, hmode⟩
        · exact ⟨.edit, hmode⟩
      split
      · exact .inl rfl
      · rename_i hdelivery
        refine .inr ?_
        rcases hversion with hversion | hversion
        · exact ⟨_, .v2 (asString_eq_some.mp hkind) (isNumber_iff.mp hversion)
            (asString_eq_some.mp hmode) hmemoName hbase (asString_eq_some.mp hsavedAt)
            (asString_eq_some.mp hcontent)⟩
        · have htwo : isNumber 2 p.version = false :=
            isNumber_ne (isNumber_iff.mp hversion) (by decide)
          have hvalid : hasValidDeliveryMetadata p = true := not_not.mp hdelivery
          rw [hasValidDeliveryMetadata, htwo, Bool.false_or, Bool.and_eq_true, Bool.and_eq_true]
            at hvalid
          obtain ⟨⟨hrequest, hpending⟩, hattempted⟩ := hvalid
          obtain ⟨requestId, hrequest⟩ := isStringOrUndefined_iff.mp hrequest
          obtain ⟨pending, hpending⟩ := isBooleanOrUndefined_iff.mp hpending
          obtain ⟨attemptedAt, hattempted⟩ := isStringOrUndefined_iff.mp hattempted
          exact ⟨_, .v3 (asString_eq_some.mp hkind) (isNumber_iff.mp hversion)
            (asString_eq_some.mp hmode) hmemoName hbase (asString_eq_some.mp hsavedAt) hrequest
            hpending hattempted (asString_eq_some.mp hcontent)⟩
    · exact .inl rfl

theorem deserializeDraft_envelope {raw : Units} {draft : MemoEditorDraft}
    (h : Envelope raw draft) : deserializeDraft raw = draft := by
  obtain ⟨members, hparse, hcarries⟩ := h
  rw [deserializeDraft, hparse]
  exact hcarries.decodeEntry raw

theorem deserializeDraft_raw {raw : Units} (h : ∀ draft, ¬Envelope raw draft) :
    deserializeDraft raw = rawDraft raw := by
  cases hparse : jsonParse raw with
  | none => rw [deserializeDraft, hparse]; rfl
  | some value =>
    rw [deserializeDraft, hparse]
    have hempty : Codec.decodeEntry raw {} = rawDraft raw := by
      rcases decodeEntry_cases raw {} with hraw | ⟨draft, hcarries⟩
      · exact hraw
      · cases hcarries with
        | v1 kind => cases kind
        | v2 kind => cases kind
        | v3 kind => cases kind
    cases value with
    | null => rfl
    | obj members =>
      rcases decodeEntry_cases raw (properties members) with hraw | ⟨draft, hcarries⟩
      · exact hraw
      · exact absurd ⟨members, hparse, hcarries⟩ (h draft)
    | bool b => exact hempty
    | num x => exact hempty
    | str s => exact hempty
    | arr items => exact hempty

end envelopes

section service

variable {s s' : Service} {now key content : Units} {metadata : MemoEditorDraftMetadata}

def savedDraft (now content : Units) (metadata : MemoEditorDraftMetadata) : MemoEditorDraft where
  mode := metadata.mode.getD .create
  memoName := metadata.memoName
  baseUpdateTime := metadata.baseUpdateTime
  savedAt := some (metadata.savedAt.getD now)
  requestId := metadata.requestId
  pending := metadata.pending
  attemptedAt := metadata.attemptedAt
  content := content

theorem entryKeys_nodup (now content : Units) (metadata : MemoEditorDraftMetadata) :
    ((entryMembers now content metadata).map (·.1)).Nodup := by
  show [utf16 "kind", utf16 "version", utf16 "mode", utf16 "memoName", utf16 "baseUpdateTime",
    utf16 "savedAt", utf16 "requestId", utf16 "pending", utf16 "attemptedAt",
    utf16 "content"].Nodup
  decide

theorem envelope_stringify (now content : Units) (metadata : MemoEditorDraftMetadata) :
    Envelope (stringifyObject (entryMembers now content metadata))
      (savedDraft now content metadata) := by
  refine ⟨_, jsonParse_stringifyObject _, ?_⟩
  have hlookup : ∀ (n : Nat) (key : Units) (value : Option Scalar),
      (entryMembers now content metadata)[n]? = some (key, value) →
      lookup key ((entryMembers now content metadata).filterMap fun member =>
        member.2.map fun v => (member.1, v.value)) = value.map (·.value) := by
    intro n key value h
    exact lookup_defined (entryKeys_nodup now content metadata) (List.mem_of_getElem? h)
  have hstr : ∀ s : Option Units, (s.map Scalar.str).map (·.value) = s.map JsonValue.str :=
    fun s => Option.map_map ..
  have hbool : ∀ b : Option Bool, (b.map Scalar.bool).map (·.value) = b.map JsonValue.bool :=
    fun b => Option.map_map ..
  refine Carries.v3 ?_ ?_ ?_ ?_ ?_ ?_ ?_ ?_ ?_ ?_
  · exact hlookup 0 _ _ rfl
  · exact hlookup 1 _ _ rfl
  · exact hlookup 2 _ _ rfl
  · exact (hlookup 3 _ _ rfl).trans (hstr _)
  · exact (hlookup 4 _ _ rfl).trans (hstr _)
  · exact hlookup 5 _ _ rfl
  · exact (hlookup 6 _ _ rfl).trans (hstr _)
  · exact (hlookup 7 _ _ rfl).trans (hbool _)
  · exact (hlookup 8 _ _ rfl).trans (hstr _)
  · exact hlookup 9 _ _ rfl

theorem loadDraft_put (s : Service) (key raw : Units) (h : s.localStorage.accessible = true) :
    Service.loadDraft { s with localStorage := s.localStorage.put key (some raw) } key =
      some (deserializeDraft raw) := by
  show (if s.localStorage.accessible then _ else _) = _
  rw [if_pos h]
  show (Memoark.System.update s.localStorage.items key (some raw) key).map deserializeDraft = _
  rw [Memoark.System.update_self]
  rfl

theorem writeEntry_loadDraft
    (hmode : ¬(metadata.mode.getD .create = .create ∧ blank content))
    (h : s.writeEntry now key content metadata = (true, s')) :
    s'.loadDraft key = some (savedDraft now content metadata) := by
  rw [Service.writeEntry, if_neg hmode] at h
  dsimp only at h
  split at h
  · rename_i hwrite
    obtain ⟨-, rfl⟩ := Prod.mk.inj h
    rw [loadDraft_put s key _ hwrite.1,
      deserializeDraft_envelope (envelope_stringify now content metadata)]
  · cases h

theorem writeEntry_blank (hmode : metadata.mode.getD .create = .create ∧ blank content) :
    (s.writeEntry now key content metadata).2.loadDraft key = none := by
  rw [Service.writeEntry, if_pos hmode]
  show (s.removeEntry key).2.loadDraft key = none
  unfold Service.removeEntry
  by_cases haccess : s.localStorage.accessible
  · rw [if_pos haccess]
    show (if s.localStorage.accessible then _ else _) = none
    rw [if_pos haccess]
    show (Memoark.System.update s.localStorage.items key none key).map deserializeDraft = none
    rw [Memoark.System.update_self]
    rfl
  · rw [if_neg haccess]
    exact if_neg haccess

/-- The three promises of the draft cache. -/
theorem draftCache_codec (s : Service) (now key content : Units)
    (metadata : MemoEditorDraftMetadata) :
    (∀ s', s.saveNow now key content metadata = (true, s') →
      (blank content = false ∨ metadata.mode = some .edit) →
      s'.loadDraft key = some (savedDraft now content metadata)) ∧
    (metadata.mode.getD .create = .create ∧ blank content →
      (s.saveNow now key content metadata).2.loadDraft key = none) ∧
    ∀ raw, s.localStorage.accessible = true → s.localStorage.items key = some raw →
      (∀ draft, ¬Envelope raw draft) → s.loadDraft key = some (rawDraft raw) := by
  refine ⟨?_, ?_, ?_⟩
  · intro s' hsave hkept
    refine writeEntry_loadDraft ?_ hsave
    rintro ⟨hmode, hblank⟩
    rcases hkept with hkept | hkept
    · rw [hkept] at hblank
      cases hblank
    · rw [hkept] at hmode
      cases hmode
  · intro hmode
    exact writeEntry_blank hmode
  · intro raw haccess hitem hraw
    show (if s.localStorage.accessible then _ else _) = _
    rw [if_pos haccess, hitem, Option.map_some, deserializeDraft_raw hraw]

/-- A storage with a draft from before the envelopes, which happens to be JSON. -/
def legacyText : Units := utf16 "\x7b\x7d"

def legacyService : Service where
  localStorage := ⟨fun key => if key = utf16 "steven-home" then some legacyText else none, true,
    fun _ _ => true⟩
  pendingSaves := ∅
  timeouts := []

theorem legacyText_raw (draft : MemoEditorDraft) : ¬Envelope legacyText draft := by
  rintro ⟨members, hparse, hcarries⟩
  have hmembers : jsonParse legacyText = some (.obj []) := rfl
  rw [hmembers] at hparse
  cases hparse
  cases hcarries with
  | v1 kind => cases kind
  | v2 kind => cases kind
  | v3 kind => cases kind

/-- An empty edit, and a blank create over the draft from before. -/
theorem draftCache_codec_legacy : ∃ s',
    legacyService.saveNow (utf16 "now") (utf16 "steven-edit") []
        ⟨some .edit, none, none, none, none, some true, none⟩ = (true, s') ∧
      s'.loadDraft (utf16 "steven-edit") = some (savedDraft (utf16 "now") []
        ⟨some .edit, none, none, none, none, some true, none⟩) ∧
    (legacyService.saveNow (utf16 "now") (utf16 "steven-home") []
        ⟨none, none, none, none, none, none, none⟩).2.loadDraft (utf16 "steven-home") = none ∧
    legacyService.loadDraft (utf16 "steven-home") = some (rawDraft legacyText) := by
  have hedit := draftCache_codec legacyService (utf16 "now") (utf16 "steven-edit") []
    ⟨some .edit, none, none, none, none, some true, none⟩
  have hcreate := draftCache_codec legacyService (utf16 "now") (utf16 "steven-home") []
    ⟨none, none, none, none, none, none, none⟩
  refine ⟨_, rfl, hedit.1 _ rfl (.inr rfl), hcreate.2.1 ⟨rfl, rfl⟩, ?_⟩
  exact hcreate.2.2 legacyText rfl rfl legacyText_raw

end service

section stores

def metadataUnits (metadata : DraftMetadata) : MemoEditorDraftMetadata where
  mode := metadata.mode
  memoName := metadata.memoName.map utf16
  baseUpdateTime := metadata.baseUpdateTime.map utf16
  savedAt := metadata.savedAt.map utf16
  requestId := metadata.requestId.map utf16
  pending := metadata.pending
  attemptedAt := metadata.attemptedAt.map utf16

def draftUnits (draft : Draft) : MemoEditorDraft where
  mode := draft.mode
  memoName := draft.memoName.map utf16
  baseUpdateTime := draft.baseUpdateTime.map utf16
  savedAt := draft.savedAt.map utf16
  requestId := draft.requestId.map utf16
  pending := draft.pending
  attemptedAt := draft.attemptedAt.map utf16
  content := utf16 draft.content

/-- The texts of the storage stand for the entries of the draft cache. -/
structure Stores (s : Service) (c : Cache) : Prop where
  accessible : s.localStorage.accessible = true
  fits : ∀ key value, s.localStorage.fits key value = c.writable
  drafts : ∀ key, s.loadDraft (utf16 key) = (c.storage key).map draftUnits

theorem utf16_injective : Function.Injective utf16 := by
  intro s t h
  have hunits : ∀ cs, Written.codeUnits (cs.map .char) = Written.listUnits cs := by
    intro cs
    induction cs with
    | nil => rfl
    | cons c cs ih => rw [List.map_cons, Written.codeUnits, ih, Written.listUnits_cons]
  have hs : Written.listUnits s.toList = Written.listUnits t.toList := congrArg (List.map _) h
  exact String.toList_inj.mp ((Written.joinPieces_of_units (hunits s.toList)).symm.trans
    (Written.joinPieces_of_units ((hunits s.toList).trans hs)))

theorem all_charUnits (c : Char) : (charUnits c).all isWhiteSpaceUnit = isWhiteSpace c := by
  have hc := toNat_lt_of_valid c
  unfold charUnits
  split
  · rename_i hsmall
    simp [isWhiteSpaceUnit, isWhiteSpace, Nat.mod_eq_of_lt hsmall]
  · have hhigh : isWhiteSpaceUnit (UInt16.ofNat (0xD800 + (c.toNat - 0x10000) / 0x400)) = false := by
      rw [isWhiteSpaceUnit, toNat_ofNat_lt (by omega)]
      simp
      omega
    rw [List.all_cons, hhigh, Bool.false_and, isWhiteSpace]
    simp
    omega

theorem blank_utf16 (s : String) : blank (utf16 s) = isBlank s := by
  simp only [blank, utf16, isBlank, List.all_flatMap, all_charUnits]

variable {s : Service} {c : Cache}

theorem Stores.put (h : Stores s c) {key : String} {value : Option Units} {draft : Option Draft}
    (hvalue : value.map deserializeDraft = draft.map draftUnits) :
    Stores { s with localStorage := s.localStorage.put (utf16 key) value }
      { c with storage := System.update c.storage key draft } where
  accessible := h.accessible
  fits := h.fits
  drafts key' := by
    have hread := h.drafts key'
    rw [Service.loadDraft, Service.loadDraftEntry, if_pos h.accessible] at hread
    show (if s.localStorage.accessible then _ else _) = _
    rw [if_pos h.accessible]
    by_cases hkey : key' = key
    · subst hkey
      simpa [LocalStorage.put] using hvalue
    · simpa [LocalStorage.put, System.update_of_ne hkey,
        System.update_of_ne (utf16_injective.ne hkey)] using hread

/-- The same answer, with storages that agree. -/
def Agree (result : Bool × Service) (result' : Bool × Cache) : Prop :=
  result.1 = result'.1 ∧ Stores result.2 result'.2

variable (now key content : String) (metadata : DraftMetadata)

theorem Stores.writeEntry (h : Stores s c) :
    Agree (s.writeEntry (utf16 now) (utf16 key) (utf16 content) (metadataUnits metadata))
      (c.writeEntry now key content metadata) := by
  have hentry : savedDraft (utf16 now) (utf16 content) (metadataUnits metadata) =
      draftUnits (Cache.entry now content metadata) := by
    unfold savedDraft draftUnits Cache.entry metadataUnits
    cases metadata.savedAt <;> rfl
  unfold Service.writeEntry Cache.writeEntry
  by_cases hblank : metadata.mode.getD .create = .create ∧ isBlank content
  · have hunits : (metadataUnits metadata).mode.getD .create = .create ∧ blank (utf16 content) :=
      ⟨hblank.1, (blank_utf16 content).trans hblank.2⟩
    rw [if_pos hblank, if_pos hunits, Service.removeEntry, if_pos h.accessible]
    refine ⟨?_, h.put rfl⟩
    show (if metadata.pending = some true then false else true) = _
    split <;> simp [*]
  · have hunits : ¬((metadataUnits metadata).mode.getD .create = .create ∧
        blank (utf16 content)) := fun hunits =>
      hblank ⟨hunits.1, (blank_utf16 content).symm.trans hunits.2⟩
    rw [if_neg hblank, if_neg hunits]
    dsimp only
    by_cases hwritable : c.writable
    · rw [if_pos ⟨h.accessible, (h.fits _ _).trans hwritable⟩, if_pos hwritable]
      refine ⟨rfl, h.put ?_⟩
      rw [Option.map_some, Option.map_some, deserializeDraft_envelope (envelope_stringify ..), hentry]
    · rw [if_neg fun hfits => hwritable ((h.fits _ _).symm.trans hfits.2), if_neg hwritable]
      exact ⟨rfl, h⟩

theorem Stores.cancel (h : Stores s c) :
    Stores (s.cancel (utf16 key)) (c.clearTimeout key) := by
  have hstorage : (s.cancel (utf16 key)).localStorage = s.localStorage := by
    unfold Service.cancel
    split
    · split <;> rfl
    · rfl
  refine ⟨hstorage ▸ h.accessible, hstorage ▸ h.fits, fun key' => ?_⟩
  rw [Service.loadDraft, Service.loadDraftEntry, hstorage]
  exact h.drafts key'

theorem Stores.saveNow (h : Stores s c) :
    Agree (s.saveNow (utf16 now) (utf16 key) (utf16 content) (metadataUnits metadata))
      (c.saveNow now key content metadata) :=
  (h.cancel key).writeEntry now key content metadata

end stores

end Memoark.Editor.Codec
