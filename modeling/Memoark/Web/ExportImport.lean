import Memoark.Import.Counts
import Memoark.Web.ExportText

/-! `Parse` of an exported file: the envelope, and each memo as a record. -/
namespace Memoark.Web
open Store Server
open Import (Fields Record SkippedCounts ParsedRecord RawDocument RawUser RawCounts
  RawIncludedContent parseRecord parseMemos Progress)

section fields

theorem lookup_cons (key k : String) (v : Json) (members : Fields) :
    Json.lookup key ((k, v) :: members) =
      (Json.lookup key members).or (if k = key then some v else none) := by
  rw [Json.lookup]
  cases Json.lookup key members <;> rfl

theorem lookup_append (key : String) (xs ys : Fields) :
    Json.lookup key (xs ++ ys) = (Json.lookup key ys).or (Json.lookup key xs) := by
  induction xs with
  | nil => simp [Json.lookup]
  | cons m ms ih =>
    obtain ⟨k, v⟩ := m
    rw [List.cons_append, lookup_cons, lookup_cons, ih, Option.or_assoc]

theorem lookup_optionalField (key name : String) (value : Option Json) :
    Json.lookup key (optionalField name value) = if name = key then value else none := by
  cases value with
  | none => simp [optionalField, Json.lookup]
  | some v => simp [optionalField, lookup_cons, Json.lookup]

theorem forall_mem_optionalField {name : String} {value : Option Json}
    {P : String × Json → Prop} :
    (∀ m ∈ optionalField name value, P m) ↔ ∀ v ∈ value, P (name, v) := by
  cases value <;> simp [optionalField]

end fields

section lists

variable {α β : Type} {f : α → Option β} {R : α → β → Prop}

theorem exists_mapM {l : List α} (h : ∀ a ∈ l, ∃ b, f a = some b ∧ R a b) :
    ∃ bs, l.mapM f = some bs ∧ List.Forall₂ R l bs := by
  induction l with
  | nil => exact ⟨[], rfl, .nil⟩
  | cons a as ih =>
    obtain ⟨b, hb, hR⟩ := h a List.mem_cons_self
    obtain ⟨bs, hbs, hall⟩ := ih fun a' ha' => h a' (List.mem_cons_of_mem _ ha')
    exact ⟨b :: bs, by simp [hb, hbs], .cons hR hall⟩

theorem forall_right_of_forall₂ {P : β → Prop} {l : List α} {bs : List β} (h : List.Forall₂ R l bs)
    (hP : ∀ a ∈ l, ∀ b, R a b → P b) : ∀ b ∈ bs, P b := by
  induction h with
  | nil => simp
  | cons hab _ ih =>
    have hrest := ih fun a ha => hP a (List.mem_cons_of_mem _ ha)
    exact List.forall_mem_cons.mpr ⟨hP _ List.mem_cons_self _ hab, hrest⟩

end lists

section printable

open Json (printable_obj printable_arr)

theorem printable_natural (n k : Nat) : (naturalToJson n).Printable k := by
  have htext : toString n = String.ofList (Nat.toDigits 10 n) := by simp [toString, Nat.repr]
  have hdigits : ∀ c ∈ Nat.toDigits 10 n, Json.isDigit c = true :=
    fun c hc => Nat.isDigit_of_mem_toDigits (by omega) (by omega) hc
  have hnumber : Json.IsNumber (toString n) := by
    rw [htext]
    refine Json.isNumber_of_digits Nat.toDigits_ne_nil hdigits fun hzero => ?_
    by_cases hn : n = 0
    · subst hn
      rfl
    · exact absurd hzero (Net.head?_toDigits hn)
  exact ⟨hnumber, Nat.zero_le k⟩

theorem printable_enum (names : List String) (n k : Nat) : (enumToJson names n).Printable k := by
  unfold enumToJson
  split
  · exact Json.printable_str _
  · exact printable_natural n k

theorem printable_motionMedia (media : MotionMedia) (k : Nat) :
    (motionMediaToJson media).Printable (k + 1) := by
  apply printable_obj
  simp [printable_enum, int64ToJson]

theorem printable_attachmentMembers (attachment : Api.Attachment) (createTime : String) :
    (Json.obj ([("name", .str attachment.name), ("createTime", .str createTime),
      ("filename", .str attachment.filename), ("content", .str ""),
      ("externalLink", .str attachment.externalLink), ("type", .str attachment.type),
      ("size", int64ToJson attachment.size)] ++
      optionalField "memo" (attachment.memo.map .str) ++
      optionalField "motionMedia" (attachment.motionMedia.map motionMediaToJson))).Printable 2 := by
  apply printable_obj
  simp only [List.forall_mem_append, forall_mem_optionalField]
  simp [printable_motionMedia, int64ToJson]

theorem printable_relation (relation : Api.MemoRelation) (k : Nat) :
    (relationToJson relation).Printable (k + 2) := by
  have hmemo : ∀ memo, (relatedMemoToJson memo).Printable (k + 1) := by
    intro memo
    apply printable_obj
    simp
  apply printable_obj
  simp [hmemo]

theorem printable_property (property : MemoPayload.Property) (k : Nat) :
    (propertyToJson property).Printable (k + 1) := by
  apply printable_obj
  simp

end printable

section memos

variable {double : Float → Json} {memo : Api.Memo} {fields : Fields} {limit : Nat}

def restoredRecord (memo : Api.Memo) : Record where
  sourceName := memo.name
  state := stateName memo.state
  createTime := ⟨memo.createTime.seconds, memo.createTime.nanos.toNat⟩
  updateTime := ⟨memo.updateTime.seconds, memo.updateTime.nanos.toNat⟩
  content := memo.content
  visibility := visibilityName memo.visibility
  pinned := memo.pinned

def carried (memo : Api.Memo) : SkippedCounts where
  attachments := memo.attachments.length
  comments := 0
  relations := memo.relations.length
  reactions := memo.reactions.length
  locations := if memo.location.isSome then 1 else 0
  settings := 0

def Writable (t : Api.Timestamp) : Prop :=
  Time.InYears t.seconds ∧ 0 ≤ t.nanos ∧ t.nanos < 1000000000

/-- The memos that an import accepts: top-level ones with a valid name, and times that can be
written. -/
structure Restorable (limit : Nat) (memo : Api.Memo) : Prop where
  name : (Import.memoUid memo.name).isSome
  state : memo.state ≠ .unspecified
  visibility : memo.visibility ≠ .unspecified
  content : limit = 0 ∨ memo.content.utf8ByteSize ≤ limit
  parent : memo.parent = none
  createTime : Writable memo.createTime
  updateTime : Writable memo.updateTime
  attachments : ∀ a ∈ memo.attachments, Writable a.createTime
  reactions : ∀ r ∈ memo.reactions, Writable r.createTime

theorem exists_timestampToJson {t : Api.Timestamp} (h : Writable t) :
    ∃ text, timestampToJson t = some (.str text) ∧
      Time.parseRfc3339 text.toList = some ⟨t.seconds, t.nanos.toNat⟩ := by
  obtain ⟨hyears, hpos, hlt⟩ := h
  have hwritten : ∃ text, Time.timestampToJson t.seconds t.nanos = some text :=
    ⟨_, if_pos ⟨hyears, hpos⟩⟩
  obtain ⟨text, htext⟩ := hwritten
  exact ⟨text, by rw [timestampToJson, htext]; rfl, Time.parseRfc3339_timestampToJson htext hlt⟩

structure Writes (double : Float → Json) (fields : Fields) (memo : Api.Memo) : Prop where
  known : ∀ field ∈ fields, field.1 ∈ Import.allowedMemoFields
  name : Json.lookup "name" fields = some (.str memo.name)
  state : Json.lookup "state" fields = some (.str (stateName memo.state))
  createTime : ∃ text, Json.lookup "createTime" fields = some (.str text) ∧
    Time.parseRfc3339 text.toList = some ⟨memo.createTime.seconds, memo.createTime.nanos.toNat⟩
  updateTime : ∃ text, Json.lookup "updateTime" fields = some (.str text) ∧
    Time.parseRfc3339 text.toList = some ⟨memo.updateTime.seconds, memo.updateTime.nanos.toNat⟩
  content : Json.lookup "content" fields = some (.str memo.content)
  visibility : Json.lookup "visibility" fields = some (.str (visibilityName memo.visibility))
  pinned : Json.lookup "pinned" fields = some (.bool memo.pinned)
  attachments : ∃ items, Json.lookup "attachments" fields = some (.arr items) ∧
    items.length = memo.attachments.length
  relations : ∃ items, Json.lookup "relations" fields = some (.arr items) ∧
    items.length = memo.relations.length
  reactions : ∃ items, Json.lookup "reactions" fields = some (.arr items) ∧
    items.length = memo.reactions.length
  location : Json.lookup "location" fields = memo.location.map (locationToJson double)
  parent : Json.lookup "parent" fields = memo.parent.map .str

theorem known_memoMembers (createTime updateTime : Json) (attachments reactions : List Json) :
    ∀ field ∈ memoMembers double memo createTime updateTime attachments reactions,
      field.1 ∈ Import.allowedMemoFields := by
  simp only [memoMembers, implicitMembers, List.forall_mem_append, forall_mem_optionalField]
  simp [Import.allowedMemoFields]

theorem lookup_memoMembers (key : String) (createTime updateTime : Json)
    (attachments reactions : List Json) :
    Json.lookup key (memoMembers double memo createTime updateTime attachments reactions) =
      (if "location" = key then memo.location.map (locationToJson double) else none).or
        ((if "snippet" = key then some (.str memo.snippet) else none).or
          ((if "parent" = key then memo.parent.map .str else none).or
            ((if "property" = key then memo.property.map propertyToJson else none).or
              (Json.lookup key
                (implicitMembers memo createTime updateTime attachments reactions))))) := by
  rw [memoMembers, lookup_append, lookup_append, lookup_append, lookup_append,
    lookup_optionalField, lookup_optionalField, lookup_optionalField, lookup_cons]
  rfl

theorem writes_memoMembers {createTime updateTime : String} {attachments reactions : List Json}
    (hcreate : Time.parseRfc3339 createTime.toList =
      some ⟨memo.createTime.seconds, memo.createTime.nanos.toNat⟩)
    (hupdate : Time.parseRfc3339 updateTime.toList =
      some ⟨memo.updateTime.seconds, memo.updateTime.nanos.toNat⟩)
    (hattachments : attachments.length = memo.attachments.length)
    (hreactions : reactions.length = memo.reactions.length) :
    Writes double (memoMembers double memo (.str createTime) (.str updateTime) attachments
      reactions) memo where
  known := known_memoMembers _ _ _ _
  name := by rw [lookup_memoMembers]; simp [implicitMembers, Json.lookup]
  state := by rw [lookup_memoMembers]; simp [implicitMembers, Json.lookup]
  createTime := ⟨createTime, by rw [lookup_memoMembers]; simp [implicitMembers, Json.lookup],
    hcreate⟩
  updateTime := ⟨updateTime, by rw [lookup_memoMembers]; simp [implicitMembers, Json.lookup],
    hupdate⟩
  content := by rw [lookup_memoMembers]; simp [implicitMembers, Json.lookup]
  visibility := by rw [lookup_memoMembers]; simp [implicitMembers, Json.lookup]
  pinned := by rw [lookup_memoMembers]; simp [implicitMembers, Json.lookup]
  attachments := ⟨attachments, by rw [lookup_memoMembers]; simp [implicitMembers, Json.lookup],
    hattachments⟩
  relations := ⟨memo.relations.map relationToJson,
    by rw [lookup_memoMembers]; simp [implicitMembers, Json.lookup], List.length_map _⟩
  reactions := ⟨reactions, by rw [lookup_memoMembers]; simp [implicitMembers, Json.lookup],
    hreactions⟩
  location := by rw [lookup_memoMembers]; simp [implicitMembers, Json.lookup]
  parent := by rw [lookup_memoMembers]; simp [implicitMembers, Json.lookup]

theorem printable_memoMembers (hdouble : ∀ x, (double x).Printable 0) {createTime updateTime : String}
    {attachments reactions : List Json} (hattachments : ∀ v ∈ attachments, v.Printable 2)
    (hreactions : ∀ v ∈ reactions, v.Printable 2) :
    (Json.obj (memoMembers double memo (.str createTime) (.str updateTime) attachments
      reactions)).Printable 4 := by
  have hlocation : ∀ location, (locationToJson double location).Printable 3 := by
    intro location
    apply Json.printable_obj
    simp [(hdouble _).mono (Nat.zero_le 2)]
  have htags : (Json.arr (memo.tags.map .str)).Printable 3 := by
    apply Json.printable_arr
    simp
  have hrelations : (Json.arr (memo.relations.map relationToJson)).Printable 3 := by
    apply Json.printable_arr
    simp [printable_relation]
  apply Json.printable_obj
  simp only [memoMembers, implicitMembers, List.forall_mem_append, forall_mem_optionalField]
  simp [htags, hrelations, Json.printable_arr hattachments, Json.printable_arr hreactions,
    printable_property, hlocation]

structure Exported (double : Float → Json) (memo : Api.Memo) (v : Json) : Prop where
  fields : ∃ fields, v = .obj fields ∧ Writes double fields memo
  printable : v.Printable 4

theorem exists_memoToJson (hdouble : ∀ x, (double x).Printable 0) (h : Restorable limit memo) :
    ∃ v, memoToJson double memo = some v ∧ Exported double memo v := by
  obtain ⟨createTime, hcreate, hcreated⟩ := exists_timestampToJson h.createTime
  obtain ⟨updateTime, hupdate, hupdated⟩ := exists_timestampToJson h.updateTime
  have hattachment : ∀ a ∈ memo.attachments, ∃ v, attachmentToJson a = some v ∧ v.Printable 2 := by
    intro a ha
    obtain ⟨text, htext, -⟩ := exists_timestampToJson (h.attachments a ha)
    exact ⟨_, by rw [attachmentToJson, htext]; rfl, printable_attachmentMembers a text⟩
  have hreaction : ∀ r ∈ memo.reactions, ∃ v, reactionToJson r = some v ∧ v.Printable 2 := by
    intro r hr
    obtain ⟨text, htext, -⟩ := exists_timestampToJson (h.reactions r hr)
    refine ⟨_, by rw [reactionToJson, htext]; rfl, ?_⟩
    apply Json.printable_obj
    simp
  obtain ⟨attachments, hattachments, hall⟩ := exists_mapM hattachment
  obtain ⟨reactions, hreactions, hall'⟩ := exists_mapM hreaction
  refine ⟨.obj (memoMembers double memo (.str createTime) (.str updateTime) attachments reactions),
    ?_, ⟨_, rfl, ?_⟩, ?_⟩
  · rw [memoToJson, hcreate, hupdate, hattachments, hreactions]
    rfl
  · exact writes_memoMembers hcreated hupdated hall.length_eq.symm hall'.length_eq.symm
  · exact printable_memoMembers hdouble (forall_right_of_forall₂ hall fun _ _ _ => id)
      (forall_right_of_forall₂ hall' fun _ _ _ => id)

theorem parseRecord_exported (h : Restorable limit memo) (hwrites : Writes double fields memo) :
    parseRecord (.obj fields) limit =
      ⟨memo.name, carried memo, stateName memo.state, .ok (restoredRecord memo, false)⟩ := by
  have hname := Import.parseName_named hwrites.known hwrites.name h.name
  have hstate := Import.requiredString_str hwrites.state
  have hallowed : stateName memo.state ∈ ["NORMAL", "ARCHIVED"] := by
    cases hs : memo.state with
    | unspecified => exact absurd hs h.state
    | normal => decide
    | archived => decide
  have hvisibility : visibilityName memo.visibility ∈ ["PRIVATE", "PROTECTED", "PUBLIC"] := by
    cases hv : memo.visibility with
    | unspecified => exact absurd hv h.visibility
    | Private => decide
    | Protected => decide
    | Public => decide
  obtain ⟨createTime, hcreate, hcreated⟩ := hwrites.createTime
  obtain ⟨updateTime, hupdate, hupdated⟩ := hwrites.updateTime
  have hlimit : (0 < limit && limit < memo.content.utf8ByteSize) = false := by
    have hcontent := h.content
    simp only [Bool.and_eq_false_iff, decide_eq_false_iff_not]
    omega
  have hcore : Import.parseCore fields memo.name (stateName memo.state) limit =
      .ok (restoredRecord memo) := by
    have hcreated' : Import.requiredTimestamp fields "createTime" =
        .ok (restoredRecord memo).createTime := by
      rw [Import.requiredTimestamp, Import.requiredString_str hcreate]
      simp only [bind, Except.bind, hcreated]
      rfl
    have hupdated' : Import.updateTimestamp fields (restoredRecord memo).createTime =
        .ok (restoredRecord memo).updateTime := by
      unfold Import.updateTimestamp
      rw [hupdate]
      simp only [hupdated]
      rfl
    have hpinned : Import.parsePinned fields = .ok memo.pinned := by
      unfold Import.parsePinned
      rw [hwrites.pinned]
    rw [Import.parseCore, hcreated', Import.requiredString_str hwrites.content,
      Import.requiredString_str hwrites.visibility, hpinned]
    simp only [bind, Except.bind, hupdated', hlimit, Bool.false_eq_true, if_false, pure,
      Except.pure, not_not.mpr hvisibility]
    rfl
  have hskipped : Import.parseSkipped fields = (carried memo, .ok ()) := by
    obtain ⟨attachments, hattachments, hlength⟩ := hwrites.attachments
    obtain ⟨relations, hrelations, hlength'⟩ := hwrites.relations
    obtain ⟨reactions, hreactions, hlength''⟩ := hwrites.reactions
    have hlocation : Import.parseLocation fields = .ok (carried memo).locations := by
      unfold Import.parseLocation
      rw [hwrites.location]
      cases hlocated : memo.location <;> simp [carried, hlocated, locationToJson]
    have harray : ∀ {key items}, Json.lookup key fields = some (.arr items) →
        Import.arrayLength fields key = .ok items.length := by
      intro key items hitems
      unfold Import.arrayLength
      rw [hitems]
    simp only [Import.parseSkipped, harray hattachments, harray hrelations, harray hreactions,
      hlocation, hlength, hlength', hlength'']
    rfl
  have hparent : Import.parseParent fields = .ok false := by
    unfold Import.parseParent
    rw [hwrites.parent, h.parent]
    rfl
  unfold parseRecord
  rw [hname]
  simp only [hstate, not_not.mpr hallowed, if_false, hcore, hskipped, hparent]
  rfl

end memos

section envelope

theorem parseInt_natural {n : Nat} (h : n ≤ 9223372036854775807) :
    Import.parseInt (toString n) = some (n : Int) := by
  have htext : (toString n).toList = Nat.toDigits 10 n := by simp [toString, Nat.repr]
  have hdigits : ∀ c ∈ Nat.toDigits 10 n, Json.isDigit c = true :=
    fun c hc => Nat.isDigit_of_mem_toDigits (by omega) (by omega) hc
  have hall : (Nat.toDigits 10 n).all Json.isDigit = true := List.all_eq_true.mpr hdigits
  have hparse : Import.parseDigits (Nat.toDigits 10 n) = some n := by
    have hne : (Nat.toDigits 10 n).isEmpty = false := by simp
    have hvalue : (Nat.toDigits 10 n).foldl (fun n c => n * 10 + (c.toNat - '0'.toNat)) 0 = n := by
      have hsame : (fun (n : Nat) (c : Char) => n * 10 + (c.toNat - '0'.toNat)) =
          fun n c => 10 * n + (c.toNat - '0'.toNat) := by
        funext n c
        rw [Nat.mul_comm]
      rw [hsame]
      exact Nat.ofDigitChars_ten_toDigits
    rw [Import.parseDigits, hne, hall, hvalue]
    rfl
  have hminus : ∀ ds, Nat.toDigits 10 n ≠ '-' :: ds := by
    intro ds heq
    exact absurd (hdigits '-' (by simp [heq])) (by decide)
  have hrange : -9223372036854775808 ≤ (n : Int) ∧ (n : Int) ≤ 9223372036854775807 := by omega
  unfold Import.parseInt
  rw [htext]
  split
  · rename_i ds heq
    exact absurd heq (hminus ds)
  · simp [hparse, hrange]

def rawDocument (document : MemoExportDocumentV1) (memos : List Json) : RawDocument where
  format := some document.format
  formatVersion := some document.formatVersion
  exportedAt := some document.exportedAt
  user := some ⟨document.user.name, document.user.username, document.user.displayName⟩
  counts := some ⟨document.counts.total, document.counts.normal, document.counts.archived⟩
  includedContent := some ⟨document.includedContent.memoData,
    document.includedContent.attachmentMetadata, document.includedContent.attachmentFiles,
    document.includedContent.comments, document.includedContent.instanceSettings⟩
  memos := some memos

theorem decodeInt_natural {n : Nat} (h : n ≤ 9223372036854775807) (old : Int) :
    Import.decodeInt old (naturalToJson n) = some (n : Int) := parseInt_natural h

theorem decode_user (user : MemoExportUser) :
    Import.decodeStruct RawUser.fields RawUser.set .zero (userToJson user) =
      some ⟨user.name, user.username, user.displayName⟩ := by
  simp [userToJson, Import.decodeStruct, Import.decodeMembers, Import.fieldOf, RawUser.fields,
    RawUser.set, Import.decodeString]

theorem decode_counts {counts : MemoExportCounts} (htotal : counts.total ≤ 9223372036854775807)
    (hnormal : counts.normal ≤ 9223372036854775807)
    (harchived : counts.archived ≤ 9223372036854775807) :
    Import.decodeStruct RawCounts.fields RawCounts.set .zero (countsToJson counts) =
      some ⟨counts.total, counts.normal, counts.archived⟩ := by
  simp [countsToJson, Import.decodeStruct, Import.decodeMembers, Import.fieldOf, RawCounts.fields,
    RawCounts.set, decodeInt_natural htotal, decodeInt_natural hnormal,
    decodeInt_natural harchived]

theorem decode_includedContent (content : MemoExportContent) :
    Import.decodeStruct RawIncludedContent.fields RawIncludedContent.set .zero
      (includedContentToJson content) = some ⟨content.memoData, content.attachmentMetadata,
        content.attachmentFiles, content.comments, content.instanceSettings⟩ := by
  simp [includedContentToJson, Import.decodeStruct, Import.decodeMembers, Import.fieldOf,
    RawIncludedContent.fields, RawIncludedContent.set, Import.decodeBool]

theorem decodePointer_some {σ : Type} {decode : σ → Json → Option σ} {zero s : σ} {v : Json}
    (hnull : v ≠ .null) (h : decode zero v = some s) :
    Import.decodePointer decode zero none v = some (some s) := by
  have hdecode : Import.decodePointer decode zero none v = (decode zero v).map some := by
    cases v with
    | null => exact absurd rfl hnull
    | _ => rfl
  rw [hdecode, h]
  rfl

theorem decodeDocument_documentToJson {document : MemoExportDocumentV1} (memos : List Json)
    (hversion : document.formatVersion ≤ 9223372036854775807)
    (htotal : document.counts.total ≤ 9223372036854775807)
    (hnormal : document.counts.normal ≤ 9223372036854775807)
    (harchived : document.counts.archived ≤ 9223372036854775807) :
    Import.decodeDocument (documentToJson document memos) = some (rawDocument document memos) := by
  have hstring : ∀ s, Import.decodePointer Import.decodeString "" none (.str s) = some (some s) :=
    fun _ => rfl
  have hitems : Import.decodePointer Import.decodeRawItems [] none (.arr memos) =
      some (some memos) := rfl
  have hversion := decodePointer_some (by simp [naturalToJson]) (decodeInt_natural hversion 0)
  have huser := decodePointer_some (by simp [userToJson]) (decode_user document.user)
  have hcounts := decodePointer_some (by simp [countsToJson])
    (decode_counts htotal hnormal harchived)
  have hcontent := decodePointer_some (by simp [includedContentToJson])
    (decode_includedContent document.includedContent)
  simp [documentToJson, Import.decodeDocument, Import.decodeStruct, Import.decodeMembers,
    Import.fieldOf, RawDocument.fields, RawDocument.set, RawDocument.zero, hstring, hversion, huser,
    hcounts, hcontent, hitems, rawDocument]

end envelope

section loop

variable {double : Float → Json} {limit : Nat}

theorem parseRecord_of_exported {memo : Api.Memo} {v : Json} (h : Restorable limit memo)
    (hv : Exported double memo v) : parseRecord v limit =
      ⟨memo.name, carried memo, stateName memo.state, .ok (restoredRecord memo, false)⟩ := by
  obtain ⟨fields, rfl, hwrites⟩ := hv.fields
  exact parseRecord_exported h hwrites

theorem verdicts_exported {memos : List Api.Memo} {vs : List Json}
    (h : List.Forall₂ (Exported double) memos vs) (hall : ∀ memo ∈ memos, Restorable limit memo)
    (hnames : (memos.map (·.name)).Nodup) (seen : List String)
    (hseen : ∀ memo ∈ memos, memo.name ∉ seen) : Import.verdicts limit seen vs =
      memos.map fun memo => .record (restoredRecord memo) (carried memo) := by
  induction h generalizing seen with
  | nil => rfl
  | @cons memo v memos vs hv _ ih =>
    obtain ⟨hnew, hnames⟩ := List.nodup_cons.mp hnames
    have hparsed := parseRecord_of_exported (hall memo List.mem_cons_self) hv
    have hjudge : Import.judge seen (parseRecord v limit) =
        .record (restoredRecord memo) (carried memo) := by
      have hunseen : (restoredRecord memo).sourceName ∉ seen := hseen memo List.mem_cons_self
      rw [hparsed, Import.judge]
      simp [hunseen]
    rw [Import.verdicts, hjudge, ih (fun m hm => hall m (List.mem_cons_of_mem _ hm)) hnames]
    · rfl
    · intro m hm hmem
      rcases List.mem_cons.mp hmem with heq | hold
      · exact hnew (List.mem_map.mpr ⟨m, hm, heq⟩)
      · exact hseen m (List.mem_cons_of_mem _ hm) hold

theorem parseMemos_envelope (index : Nat) (p : Progress) (entries : List Json) :
    (parseMemos limit index p entries).document.envelopeValid = p.document.envelopeValid ∧
      (parseMemos limit index p entries).document.sourceUser = p.document.sourceUser ∧
      (parseMemos limit index p entries).document.exportedAt = p.document.exportedAt := by
  induction entries generalizing index p with
  | nil => simp [parseMemos]
  | cons entry entries ih =>
    obtain ⟨hvalid, huser, htime⟩ := ih (index + 1) (p.add index (parseRecord entry limit))
    rw [parseMemos, hvalid, huser, htime, Progress.add_eq]
    cases Import.judge p.seenNames (parseRecord entry limit) <;> exact ⟨rfl, rfl, rfl⟩

def withCarried (c : SkippedCounts) (comments : Nat) (cs : List SkippedCounts) : SkippedCounts where
  attachments := c.attachments + (cs.map (·.attachments)).sum
  comments := comments
  relations := c.relations + (cs.map (·.relations)).sum
  reactions := c.reactions + (cs.map (·.reactions)).sum
  locations := c.locations + (cs.map (·.locations)).sum
  settings := c.settings

theorem parseMemos_skipped (index : Nat) (p : Progress) (entries : List Json) :
    ∃ comments, (parseMemos limit index p entries).document.skipped =
      withCarried p.document.skipped comments
        (entries.map fun entry => (parseRecord entry limit).skipped) := by
  induction entries generalizing index p with
  | nil => exact ⟨_, rfl⟩
  | cons entry entries ih =>
    obtain ⟨comments, hrest⟩ := ih (index + 1) (p.add index (parseRecord entry limit))
    refine ⟨comments, ?_⟩
    have hround : ∃ comments, (p.add index (parseRecord entry limit)).document.skipped =
        withCarried p.document.skipped comments [(parseRecord entry limit).skipped] := by
      rw [Progress.add_eq]
      cases Import.judge p.seenNames (parseRecord entry limit) <;> exact ⟨_, rfl⟩
    obtain ⟨_, hround⟩ := hround
    rw [parseMemos, hrest, hround]
    simp [withCarried, Nat.add_assoc]

def carriedTotal (memos : List Api.Memo) : SkippedCounts where
  attachments := (memos.map fun memo => (carried memo).attachments).sum
  comments := 0
  relations := (memos.map fun memo => (carried memo).relations).sum
  reactions := (memos.map fun memo => (carried memo).reactions).sum
  locations := (memos.map fun memo => (carried memo).locations).sum
  settings := 0

theorem map_parseRecord {α : Type} (f : Import.ParsedRecord → α) {memos : List Api.Memo}
    {vs : List Json} (h : List.Forall₂ (Exported double) memos vs)
    (hall : ∀ memo ∈ memos, Restorable limit memo) :
    vs.map (fun v => f (parseRecord v limit)) = memos.map fun memo =>
      f ⟨memo.name, carried memo, stateName memo.state, .ok (restoredRecord memo, false)⟩ := by
  induction h with
  | nil => rfl
  | @cons memo v memos vs hv _ ih =>
    rw [List.map_cons, List.map_cons, parseRecord_of_exported (hall memo List.mem_cons_self) hv,
      ih fun m hm => hall m (List.mem_cons_of_mem _ hm)]

structure Restores (user : MemoExportUser) (now : Int) (normal archived : List Api.Memo)
    (d : Import.Document) : Prop where
  canImport : d.canImport = true
  records : d.records = (normal ++ archived).map restoredRecord
  counts : d.total = normal.length + archived.length ∧ d.normal = normal.length ∧
    d.archived = archived.length ∧ d.unsupported = 0
  skipped : d.skipped = carriedTotal (normal ++ archived)
  exportedAt : d.exportedAt = some ⟨now / 1000, (now % 1000).toNat * 1000000⟩
  sourceUser : d.sourceUser = if user.displayName = "" then user.username else user.displayName

/-- The memos of the two listings, each in its state and none twice. -/
structure Listed (limit : Nat) (normal archived : List Api.Memo) : Prop where
  states : (∀ memo ∈ normal, memo.state = .normal) ∧ ∀ memo ∈ archived, memo.state = .archived
  restorable : ∀ memo ∈ normal ++ archived, Restorable limit memo
  names : ((normal ++ archived).map (·.name)).Nodup
  length : normal.length + archived.length ≤ 9223372036854775807

variable {normal archived : List Api.Memo}

theorem countP_states (h : Listed limit normal archived) (state : Api.State → Bool) :
    (normal ++ archived).countP (fun memo => state memo.state) =
      (if state .normal then normal.length else 0) +
        if state .archived then archived.length else 0 := by
  have hcount : ∀ {memos : List Api.Memo} {s}, (∀ memo ∈ memos, memo.state = s) →
      memos.countP (fun memo => state memo.state) = if state s then memos.length else 0 := by
    intro memos s hmemos
    split
    · rename_i hs
      exact List.countP_eq_length.mpr fun memo hmemo => by rw [hmemos memo hmemo, hs]
    · rename_i hs
      exact List.countP_eq_zero.mpr fun memo hmemo => by rw [hmemos memo hmemo]; exact hs
  rw [List.countP_append, hcount h.states.1, hcount h.states.2]

variable {vs : List Json} {d : Import.Document} {q : Progress}

theorem states_exported (h : Listed limit normal archived)
    (hexported : List.Forall₂ (Exported double) (normal ++ archived) vs)
    (hq : parseMemos limit 1 (d.start vs.length) vs = q) :
    q.actualNormal = normal.length ∧ q.actualArchived = archived.length ∧
      q.allStatesValid = true := by
  obtain ⟨hnormal, harchived, hvalid⟩ :=
    Import.parseMemos_states limit 1 (d.start vs.length) vs
  have hstates := map_parseRecord (·.state) hexported h.restorable
  have hcount : ∀ state, vs.countP (fun v => (parseRecord v limit).state = state) =
      (normal ++ archived).countP (fun memo => stateName memo.state = state) := by
    intro state
    calc vs.countP (fun v => (parseRecord v limit).state = state)
        = (vs.map fun v => (parseRecord v limit).state).countP (· = state) := by
          rw [List.countP_map]
          rfl
      _ = (normal ++ archived).countP (fun memo => stateName memo.state = state) := by
          rw [hstates, List.countP_map]
          rfl
  subst hq
  refine ⟨?_, ?_, hvalid.mpr ⟨rfl, fun v hv => ?_⟩⟩
  · rw [hnormal, hcount, countP_states h fun s => stateName s = "NORMAL"]
    simp [Import.Document.start, stateName]
  · rw [harchived, hcount, countP_states h fun s => stateName s = "ARCHIVED"]
    simp [Import.Document.start, stateName]
  · have hmem : (parseRecord v limit).state ∈ vs.map fun v => (parseRecord v limit).state :=
      List.mem_map_of_mem hv
    rw [hstates] at hmem
    obtain ⟨memo, hmemo, hstate⟩ := List.mem_map.mp hmem
    have hspecified := (h.restorable memo hmemo).state
    rw [← hstate]
    cases hs : memo.state with
    | unspecified => exact absurd hs hspecified
    | normal => exact .inl rfl
    | archived => exact .inr rfl

theorem shows_exported (h : Listed limit normal archived)
    (hexported : List.Forall₂ (Exported double) (normal ++ archived) vs) (hblank : d.Blank)
    (hq : parseMemos limit 1 (d.start vs.length) vs = q) :
    q.document.records = (normal ++ archived).map restoredRecord ∧ q.document.invalid = 0 ∧
      q.document.unsupported = 0 ∧ q.document.skipped.comments = 0 ∧
      q.document.normal = normal.length ∧ q.document.archived = archived.length := by
  have hshows := Import.parseMemos_shows (hblank.shows.start vs.length) limit vs
  have hverdicts := verdicts_exported hexported h.restorable h.names [] (by simp)
  have hseen : (d.start vs.length).seenNames = [] := rfl
  rw [List.nil_append, hseen, hverdicts, List.length_nil, Nat.zero_add, hq] at hshows
  have hrecords := hshows.records
  rw [List.filterMap_map] at hrecords
  have hrecords : q.document.records = (normal ++ archived).map restoredRecord := by
    rw [hrecords]
    exact congrFun List.filterMap_eq_map _
  have hinvalid := hshows.invalid
  have hunsupported := hshows.unsupported
  have hcomments := hshows.comments
  rw [List.countP_map, List.countP_eq_zero.mpr (by simp [Import.Verdict.isInvalid])] at hinvalid
  rw [List.countP_map, List.countP_eq_zero.mpr (by simp [Import.Verdict.isComment])] at hunsupported
  have haccounted : (d.start vs.length).document.Accounted :=
    hblank.accounted.congr rfl rfl rfl
  have haccounted := (Import.parseMemos_accounted haccounted limit 1 vs).1
  rw [hq] at haccounted
  have hnormal := haccounted.normal
  have harchived := haccounted.archived
  rw [hrecords, List.countP_map] at hnormal harchived
  refine ⟨hrecords, hinvalid, hunsupported, hcomments.trans hunsupported, ?_, ?_⟩
  · rw [hnormal]
    refine (countP_states h fun s => stateName s = "NORMAL").trans ?_
    simp [stateName]
  · rw [harchived]
    refine (countP_states h fun s => !decide (stateName s = "NORMAL")).trans ?_
    simp [stateName]

theorem skipped_exported (h : Listed limit normal archived)
    (hexported : List.Forall₂ (Exported double) (normal ++ archived) vs) (hblank : d.Blank)
    (hskipped : d.skipped = .zero) (hq : parseMemos limit 1 (d.start vs.length) vs = q) :
    q.document.skipped = carriedTotal (normal ++ archived) := by
  obtain ⟨-, -, -, hcomments, -, -⟩ := shows_exported h hexported hblank hq
  obtain ⟨comments, hsum⟩ := @parseMemos_skipped limit 1 (d.start vs.length) vs
  have hstart : (d.start vs.length).document.skipped = .zero := hskipped
  rw [hq, map_parseRecord (·.skipped) hexported h.restorable, hstart] at hsum
  rw [hsum] at hcomments ⊢
  obtain rfl : comments = 0 := hcomments
  simp [withCarried, carriedTotal, SkippedCounts.zero, Function.comp_def]

theorem finish_restores {user : MemoExportUser} {now : Int} (h : Listed limit normal archived)
    (hexported : List.Forall₂ (Exported double) (normal ++ archived) vs) (hblank : d.Blank)
    (hskipped : d.skipped = .zero)
    (htime : d.exportedAt = some ⟨now / 1000, (now % 1000).toNat * 1000000⟩)
    (huser : d.sourceUser = if user.displayName = "" then user.username else user.displayName) :
    Restores user now normal archived
      (Import.finish ⟨(normal.length + archived.length : Nat), normal.length, archived.length⟩
        (parseMemos limit 1 (d.start vs.length) vs)) := by
  have hlength : vs.length = normal.length + archived.length := by
    rw [← hexported.length_eq, List.length_append]
  have htotal := Import.parseMemos_total limit 1 (d.start vs.length) vs
  obtain ⟨henvelope, hsource, hexportedAt⟩ := @parseMemos_envelope limit 1 (d.start vs.length) vs
  generalize hq : parseMemos limit 1 (d.start vs.length) vs = q at *
  obtain ⟨hcountNormal, hcountArchived, hstates⟩ := states_exported h hexported hq
  obtain ⟨hrecords, hinvalid, hunsupported, -, hnormal, harchived⟩ :=
    shows_exported h hexported hblank hq
  have hcarried := skipped_exported h hexported hblank hskipped hq
  have hfinish : Import.finish
      ⟨(normal.length + archived.length : Nat), normal.length, archived.length⟩ q = q.document := by
    unfold Import.finish
    simp [hstates, hcountNormal, hcountArchived, hinvalid]
  rw [hfinish]
  exact {
    canImport := by
      rw [Import.Document.canImport, henvelope, hinvalid]
      rfl
    records := hrecords
    counts := ⟨htotal.trans hlength, hnormal, harchived, hunsupported⟩
    skipped := hcarried
    exportedAt := hexportedAt.trans htime
    sourceUser := hsource.trans huser }

end loop

section file

variable {double : Float → Json} {limit : Nat} {user : MemoExportUser} {now : Int}
  {normal archived : List Api.Memo}

theorem printable_document (document : MemoExportDocumentV1) {vs : List Json}
    (h : ∀ v ∈ vs, v.Printable 4) : (documentToJson document vs).Printable 6 := by
  have huser : (userToJson document.user).Printable 5 := by
    apply Json.printable_obj
    simp
  have hcounts : (countsToJson document.counts).Printable 5 := by
    apply Json.printable_obj
    simp [printable_natural]
  have hcontent : (includedContentToJson document.includedContent).Printable 5 := by
    apply Json.printable_obj
    simp
  have hmemos : (Json.arr vs).Printable 5 := Json.printable_arr h
  apply Json.printable_obj
  simp [huser, hcounts, hcontent, hmemos, printable_natural]

theorem parseText_document {document : MemoExportDocumentV1} {vs : List Json} {raw : RawDocument}
    (hprintable : (documentToJson document vs).Printable 6)
    (hdecode : Import.decodeDocument (documentToJson document vs) = some raw) :
    Import.parseText (Json.print 0 (documentToJson document vs) ++ ['\n']) limit =
      Import.parseRaw raw limit := by
  have hparse : Json.parse (Json.print 0 (documentToJson document vs) ++ ['\n']) =
      some (documentToJson document vs) :=
    Json.parse_print hprintable.1 (Nat.le_trans hprintable.2 (by decide))
  have hblank : (Json.print 0 (documentToJson document vs) ++ ['\n']).all Go.isSpace = false := by
    rw [documentToJson, Json.print_object]
    rfl
  rw [Import.parseText, hblank, hparse, Option.bind_some, hdecode]
  rfl

def exportDocument (user : MemoExportUser) (now : Int) (normal archived : List Api.Memo) :
    MemoExportDocumentV1 where
  format := memoExportFormat
  formatVersion := memoExportVersion
  exportedAt := Time.toISOString now
  user := user
  counts := ⟨normal.length + archived.length, normal.length, archived.length⟩
  includedContent := ⟨true, true, false, false, false⟩
  memos := normal ++ archived

theorem createMemoExportFile_done : ∃ file,
    createMemoExportFile user (Time.toISOString now) (.done normal) (.done archived) = some file ∧
      file.document = exportDocument user now normal archived := by
  refine ⟨_, rfl, ?_⟩
  simp [exportDocument]

theorem parseRaw_restores (huser : user.name ≠ "" ∧ user.username ≠ "")
    (hnow : Time.InYears (now / 1000)) (h : Listed limit normal archived) {vs : List Json}
    (hexported : List.Forall₂ (Exported double) (normal ++ archived) vs) :
    Restores user now normal archived
      (Import.parseRaw (rawDocument (exportDocument user now normal archived) vs) limit) := by
  have hlength : (normal.length + archived.length : Nat) = vs.length := by
    rw [← hexported.length_eq, List.length_append]
  have htime := Time.parseRfc3339_toISOString hnow
  have hnatural : ∀ n : Nat, ¬(n : Int) < 0 := fun n => Int.not_lt.mpr (Int.natCast_nonneg n)
  have hloop : Import.parseRaw (rawDocument (exportDocument user now normal archived) vs) limit =
      Import.finish ⟨(normal.length + archived.length : Nat), normal.length, archived.length⟩
        (parseMemos limit 1 (Import.Document.start { Import.Document.empty with
          exportedAt := some ⟨now / 1000, (now % 1000).toNat * 1000000⟩
          sourceUser := if user.displayName = "" then user.username else user.displayName }
            vs.length) vs) := by
    have hparts : ¬((normal.length : Int) + archived.length ≠ vs.length) := by omega
    have hsum : ¬((normal.length : Int) + archived.length < 0) := by omega
    simp only [Import.parseRaw, rawDocument, exportDocument, memoExportFormat, memoExportVersion,
      htime, Import.parseUser, huser.1, huser.2, Import.parseCounts, hnatural, Import.parseContent,
      Import.parseItems, hparts, hsum, Int.natCast_add, Int.natCast_one, ne_eq, not_true_eq_false,
      decide_false, Bool.or_self, Bool.not_true, Bool.false_eq_true, reduceIte]
    rfl
  rw [hloop]
  refine finish_restores h hexported ?_ rfl rfl rfl
  exact ⟨⟨rfl, rfl, rfl, rfl, rfl⟩, ⟨rfl, rfl, by simp [Import.Document.empty]⟩, rfl, rfl⟩

theorem content_restores (hdouble : ∀ x, (double x).Printable 0)
    (huser : user.name ≠ "" ∧ user.username ≠ "") (hnow : Time.InYears (now / 1000))
    (h : Listed limit normal archived) :
    ∃ file text, createMemoExportFile user (Time.toISOString now) (.done normal) (.done archived) =
        some file ∧ file.content double = some text ∧
      Restores user now normal archived (Import.parse text.toByteArray limit) := by
  obtain ⟨vs, hvs, hexported⟩ := exists_mapM fun memo hmemo =>
    exists_memoToJson hdouble (h.restorable memo hmemo)
  obtain ⟨file, hfile, hdocument⟩ := @createMemoExportFile_done user now normal archived
  have hbound := h.length
  have hversion : (exportDocument user now normal archived).formatVersion ≤
      9223372036854775807 := by
    show memoExportVersion ≤ _
    decide
  have hdecode : Import.decodeDocument (documentToJson (exportDocument user now normal archived) vs) =
      some (rawDocument (exportDocument user now normal archived) vs) :=
    decodeDocument_documentToJson vs hversion hbound
      (Nat.le_trans (Nat.le_add_right _ _) hbound) (Nat.le_trans (Nat.le_add_left _ _) hbound)
  have hprintable := printable_document (exportDocument user now normal archived)
    (forall_right_of_forall₂ hexported fun _ _ _ hv => hv.printable)
  refine ⟨file, String.ofList (Json.print 0
    (documentToJson (exportDocument user now normal archived) vs) ++ ['\n']), hfile, ?_, ?_⟩
  · have hmemos : file.document.memos = normal ++ archived := by rw [hdocument]; rfl
    rw [MemoExportFile.content, hmemos, hvs, hdocument]
    rfl
  · rw [Import.parse_ofList, parseText_document hprintable hdecode]
    exact parseRaw_restores huser hnow h hexported

end file

end Memoark.Web
