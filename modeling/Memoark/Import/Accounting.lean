import Memoark.Import.Parser
import Memoark.Program.Returns

/-! What `Parse` says of the records it accepts. -/
namespace Memoark.Import
open Program

structure Record.Allowed (r : Record) : Prop where
  state : r.state = "NORMAL" ∨ r.state = "ARCHIVED"
  visibility : r.visibility = "PRIVATE" ∨ r.visibility = "PROTECTED" ∨ r.visibility = "PUBLIC"

def isNormal (r : Record) : Bool := r.state = "NORMAL"

structure Document.Accounted (d : Document) : Prop where
  normal : d.normal = d.records.countP isNormal
  archived : d.archived = d.records.countP fun r => !isNormal r
  allowed : ∀ r ∈ d.records, r.Allowed

theorem Document.accounted_empty : Document.empty.Accounted := ⟨rfl, rfl, nofun⟩

theorem Document.Accounted.congr {d d' : Document} (h : d.Accounted) (hn : d'.normal = d.normal)
    (ha : d'.archived = d.archived) (hr : d'.records = d.records) : d'.Accounted := by
  constructor
  · rw [hn, hr]
    exact h.normal
  · rw [ha, hr]
    exact h.archived
  · rw [hr]
    exact h.allowed

theorem Document.Accounted.invalidEnvelope {d : Document} (h : d.Accounted) (reason : String) :
    (invalidEnvelope d reason).Accounted := h.congr rfl rfl rfl

theorem Document.Accounted.addRecord {d : Document} (h : d.Accounted) {index : Nat}
    {record : Record} {c : SkippedCounts} (hr : record.Allowed) :
    (d.addRecord index record c).Accounted := by
  have hrecords : (d.addRecord index record c).records = d.records ++ [record] := rfl
  constructor
  · rw [hrecords, List.countP_append, List.countP_singleton, ← h.normal]
    simp only [Document.addRecord, isNormal]
    split <;> simp_all
  · rw [hrecords, List.countP_append, List.countP_singleton, ← h.archived]
    simp only [Document.addRecord, isNormal]
    split <;> simp_all
  · rw [hrecords]
    intro r hmem
    rcases List.mem_append.mp hmem with hold | hnew
    · exact h.allowed r hold
    · rw [List.mem_singleton.mp hnew]
      exact hr

theorem parseCore_ok {fields : Fields} {name state : String} {limit : Nat} {record : Record}
    (h : parseCore fields name state limit = .ok record) :
    record.sourceName = name ∧ record.state = state ∧
      record.visibility ∈ ["PRIVATE", "PROTECTED", "PUBLIC"] := by
  obtain ⟨createTime, _, h⟩ := bind_ok h
  obtain ⟨updateTime, _, h⟩ := bind_ok h
  obtain ⟨content, _, h⟩ := bind_ok h
  obtain ⟨_, h⟩ := check_ok h
  obtain ⟨visibility, _, h⟩ := bind_ok h
  obtain ⟨hvisibility, h⟩ := check_ok h
  obtain ⟨pinned, _, h⟩ := bind_ok h
  cases h
  exact ⟨rfl, rfl, Decidable.not_not.mp hvisibility⟩

theorem parseRecord_allowed {data : Json} {limit : Nat} {record : Record} {comment : Bool}
    (h : (parseRecord data limit).result = .ok (record, comment)) : record.Allowed := by
  unfold parseRecord at h
  split at h
  · cases h
  · split at h
    · cases h
    · rename_i state _
      split at h
      · cases h
      · rename_i hstate
        split at h
        · cases h
        · rename_i hcore
          obtain ⟨_, hs, hv⟩ := parseCore_ok hcore
          obtain ⟨_, _, h⟩ := bind_ok h
          obtain ⟨_, _, h⟩ := bind_ok h
          cases h
          have hmem : state ∈ ["NORMAL", "ARCHIVED"] := Decidable.not_not.mp hstate
          exact ⟨by simpa [hs] using hmem, by simpa using hv⟩

theorem Progress.countState_document (p : Progress) (state : String) :
    (p.countState state).document = p.document := by
  unfold Progress.countState
  split
  · rfl
  · split <;> rfl

theorem Progress.add_accounted {p : Progress} (h : p.document.Accounted) (index : Nat)
    (data : Json) (limit : Nat) :
    (p.add index (parseRecord data limit)).document.Accounted ∧
      (p.add index (parseRecord data limit)).document.records.length ≤
        p.document.records.length + 1 := by
  have hd := Progress.countState_document p (parseRecord data limit).state
  have hq : ((p.countState (parseRecord data limit).state).document.addSkipped
      (parseRecord data limit).skipped).Accounted := by
    rw [hd]
    exact h.congr rfl rfl rfl
  have hlen : ((p.countState (parseRecord data limit).state).document.addSkipped
      (parseRecord data limit).skipped).records.length = p.document.records.length := by
    rw [hd]
    rfl
  simp only [Progress.add]
  split
  · exact ⟨hq.congr rfl rfl rfl, by simp only [Document.addInvalid]; omega⟩
  · rename_i record comment hresult
    split
    · exact ⟨hq.congr rfl rfl rfl, by simp only [Document.addInvalid]; omega⟩
    · split
      · exact ⟨hq.congr rfl rfl rfl, by simp only [Document.addComment]; omega⟩
      · refine ⟨hq.addRecord (parseRecord_allowed hresult), ?_⟩
        simp only [Document.addRecord, List.length_append, List.length_singleton]
        omega

theorem parseMemos_accounted {p : Progress} (h : p.document.Accounted) (limit index : Nat)
    (memos : List Json) :
    (parseMemos limit index p memos).document.Accounted ∧
      (parseMemos limit index p memos).document.records.length ≤
        p.document.records.length + memos.length := by
  induction memos generalizing p index with
  | nil => exact ⟨h, Nat.le_refl _⟩
  | cons memo memos ih =>
    obtain ⟨hadd, hlen⟩ := Progress.add_accounted h index memo limit
    obtain ⟨hacc, hrest⟩ := ih hadd (index + 1)
    refine ⟨hacc, ?_⟩
    simp only [parseMemos, List.length_cons]
    omega

structure Document.Fits (d : Document) (n : Nat) : Prop where
  accounted : d.Accounted
  length : d.records.length ≤ n

theorem Document.Fits.invalidEnvelope {d : Document} {n : Nat} (h : d.Fits n) (reason : String) :
    (invalidEnvelope d reason).Fits n := ⟨h.accounted.invalidEnvelope reason, h.length⟩

theorem finish_fits {counts : RawCounts} {p : Progress} {n : Nat} (h : p.document.Fits n) :
    (finish counts p).Fits n := by
  unfold finish
  split
  · exact h.invalidEnvelope _
  · split
    · exact ⟨h.accounted.congr rfl rfl rfl, h.length⟩
    · exact h

theorem parseItems_fits {d : Document} (h : d.Fits 0) (counts : RawCounts) (memos : List Json)
    (limit : Nat) {n : Nat} (hn : memos.length ≤ n) : (parseItems counts memos limit d).Fits n := by
  have hlen := h.length
  unfold parseItems
  split
  · exact Document.Fits.invalidEnvelope ⟨h.accounted, by omega⟩ _
  · have hstart : Document.Accounted { d with envelopeValid := true, total := memos.length } :=
      h.accounted.congr rfl rfl rfl
    obtain ⟨hacc, hle⟩ := parseMemos_accounted (p := ⟨_, [], 0, 0, true⟩) hstart limit 1 memos
    apply finish_fits
    refine ⟨hacc, ?_⟩
    simp only at hle
    omega

def RawDocument.MemosLe (raw : RawDocument) (n : Nat) : Prop :=
  ∀ memos, raw.memos = some memos → memos.length ≤ n

theorem Document.Fits.refused {d : Document} (h : d.Fits 0) (reason : String) (n : Nat) :
    (Import.invalidEnvelope d reason).Fits n :=
  ⟨h.accounted.invalidEnvelope reason, Nat.le_trans h.length (Nat.zero_le n)⟩

theorem parseContent_fits {raw : RawDocument} {n : Nat} (h : raw.MemosLe n) {d : Document}
    (hd : d.Fits 0) (counts : RawCounts) (limit : Nat) :
    (parseContent raw counts limit d).Fits n := by
  unfold parseContent
  split
  · exact hd.refused _ n
  · split
    · exact hd.refused _ n
    · split
      · exact hd.refused _ n
      · split
        · exact hd.refused _ n
        · rename_i hmemos
          exact parseItems_fits hd counts _ limit (h _ hmemos)

theorem parseCounts_fits {raw : RawDocument} {n : Nat} (h : raw.MemosLe n) {d : Document}
    (hd : d.Fits 0) (limit : Nat) : (parseCounts raw limit d).Fits n := by
  unfold parseCounts
  split
  · exact hd.refused _ n
  · split
    · exact hd.refused _ n
    · split
      · exact hd.refused _ n
      · exact parseContent_fits h hd _ limit

theorem parseUser_fits {raw : RawDocument} {n : Nat} (h : raw.MemosLe n) {d : Document}
    (hd : d.Fits 0) (limit : Nat) : (parseUser raw limit d).Fits n := by
  unfold parseUser
  split
  · exact hd.refused _ n
  · split
    · exact hd.refused _ n
    · apply parseCounts_fits h
      exact ⟨hd.accounted.congr rfl rfl rfl, hd.length⟩

theorem Document.fits_empty : Document.empty.Fits 0 := ⟨accounted_empty, Nat.le_refl 0⟩

theorem parseRaw_fits {raw : RawDocument} {n : Nat} (h : raw.MemosLe n) (limit : Nat) :
    (parseRaw raw limit).Fits n := by
  have hempty := Document.fits_empty
  unfold parseRaw
  split
  · exact hempty.refused _ n
  · split
    · exact hempty.refused _ n
    · split
      · exact hempty.refused _ n
      · split
        · exact hempty.refused _ n
        · apply parseUser_fits h
          exact ⟨hempty.accounted.congr rfl rfl rfl, hempty.length⟩

theorem decodePointer_rawItems {p : Option (List Json)} {v : Json} {memos : List Json}
    (h : decodePointer decodeRawItems [] p v = some (some memos)) : v = .arr memos := by
  cases v with
  | arr items =>
    simp only [decodePointer, decodeRawItems, Option.map_some, Option.some.injEq] at h
    rw [h]
  | _ => cases h

theorem RawDocument.set_memos {d d' : RawDocument} {field : String} {v : Json}
    (h : d.set field v = some d') : d'.memos = d.memos ∨ d'.MemosLe v.size := by
  unfold RawDocument.set at h
  iterate 6
    split at h
    · obtain ⟨_, _, rfl⟩ := Option.map_eq_some_iff.mp h
      exact .inl rfl
  obtain ⟨p, hp, rfl⟩ := Option.map_eq_some_iff.mp h
  right
  intro memos hmemos
  simp only at hmemos
  rw [hmemos] at hp
  rw [decodePointer_rawItems hp, Json.size]
  have hle := Json.length_le_sizeItems memos
  omega

theorem decodeMembers_memos {names : List String} {d d' : RawDocument}
    {members : List (String × Json)}
    (h : decodeMembers names RawDocument.set d members = some d') {n : Nat} (hd : d.MemosLe n)
    (hn : Json.size.sizeMembers members ≤ n) : d'.MemosLe n := by
  induction members generalizing d with
  | nil =>
    cases h
    exact hd
  | cons member members ih =>
    obtain ⟨key, v⟩ := member
    simp only [Json.size.sizeMembers] at hn
    simp only [decodeMembers] at h
    split at h
    · cases h
    · split at h
      · cases h
      · rename_i d₁ hset
        refine ih h ?_ (by omega)
        rcases RawDocument.set_memos hset with heq | hle
        · intro memos hmemos
          rw [heq] at hmemos
          exact hd memos hmemos
        · intro memos hmemos
          have hlen := hle memos hmemos
          omega

theorem decodeDocument_memos {v : Json} {raw : RawDocument} (h : decodeDocument v = some raw) :
    raw.MemosLe v.size := by
  have hzero (n : Nat) : RawDocument.zero.MemosLe n := nofun
  cases v with
  | null =>
    cases h
    exact hzero _
  | obj members =>
    refine decodeMembers_memos h (hzero _) ?_
    simp only [Json.size]
    omega
  | _ => cases h

theorem parseText_fits (text : List Char) (limit : Nat) :
    (parseText text limit).Fits text.length := by
  unfold parseText
  split
  · exact Document.fits_empty.refused _ _
  · split
    · exact Document.fits_empty.refused _ _
    · rename_i raw hraw
      obtain ⟨v, hv, hdecode⟩ := Option.bind_eq_some_iff.mp hraw
      apply parseRaw_fits
      intro memos hmemos
      have h1 := decodeDocument_memos hdecode memos hmemos
      have h2 := Json.size_parse_le hv
      omega

theorem length_le_utf8ByteSize_ofList (cs : List Char) :
    cs.length ≤ (String.ofList cs).utf8ByteSize := by
  induction cs with
  | nil => exact Nat.zero_le _
  | cons c cs ih =>
    have hpos := Char.utf8Size_pos c
    rw [String.ofList_cons, String.utf8ByteSize_append, String.utf8ByteSize_singleton,
      List.length_cons]
    omega

theorem utf8ByteSize_ofList_le (cs : List Char) :
    (String.ofList cs).utf8ByteSize ≤ 4 * cs.length := by
  induction cs with
  | nil => exact Nat.le_refl _
  | cons c cs ih =>
    have hle := Char.utf8Size_le_four c
    rw [String.ofList_cons, String.utf8ByteSize_append, String.utf8ByteSize_singleton,
      List.length_cons]
    omega

theorem parse_fits (data : ByteArray) (limit : Nat) : (parse data limit).Fits data.size := by
  unfold parse
  split
  · exact Document.fits_empty.refused _ _
  · rename_i text htext
    have hsize : data.size = text.utf8ByteSize := by
      simp only [String.fromUTF8?, Option.dite_none_right_eq_some, Option.some.injEq] at htext
      obtain ⟨_, rfl⟩ := htext
      rfl
    have hfits := parseText_fits text.toList limit
    refine ⟨hfits.accounted, ?_⟩
    have hlen := hfits.length
    have hbytes := length_le_utf8ByteSize_ofList text.toList
    rw [String.ofList_toList] at hbytes
    omega

end Memoark.Import
