import Mathlib.Data.List.Infix
import Memoark.Go.Strings

/-! The clip that is embedded in a motion photo (`internal/motionphoto/motionphoto.go`). -/
namespace Memoark.Media
open Go

def lastIndex (s sep : List UInt8) : Int :=
  ((List.range (s.length + 1)).reverse.find? fun i => sep.isPrefixOf (s.drop i)).elim (-1) (↑)

def ftyp : List UInt8 := [0x66, 0x74, 0x79, 0x70]

/-- `binary.BigEndian.Uint32` of the first four bytes. -/
def bigEndianUint32 (blob : List UInt8) : Nat :=
  (blob.take 4).foldl (fun n b => 256 * n + b.toNat) 0

def looksLikeMP4 (blob : List UInt8) : Bool :=
  if blob.length < 12 ∨ (blob.drop 4).take 4 ≠ ftyp then false
  else
    let size := bigEndianUint32 blob
    size = 1 || 8 ≤ size

section lastIndex

variable {s sep : List UInt8}

private theorem find_reverse_range {p : Nat → Bool} {n : Nat} :
    (∀ i, (List.range n).reverse.find? p = some i → i < n ∧ p i ∧ ∀ j < n, p j → j ≤ i) ∧
      ((List.range n).reverse.find? p = none → ∀ j < n, ¬p j) := by
  induction n with
  | zero => simp
  | succ n ih =>
    rw [List.range_succ, List.reverse_append, List.reverse_singleton, List.singleton_append]
    by_cases hp : p n
    · rw [List.find?_cons_of_pos hp]
      constructor
      · intro i hi
        obtain rfl := Option.some.inj hi
        exact ⟨by omega, hp, fun j hj _ => by omega⟩
      · intro h
        cases h
    · rw [List.find?_cons_of_neg hp]
      constructor
      · intro i hi
        obtain ⟨hlt, hpi, hlast⟩ := ih.1 i hi
        refine ⟨by omega, hpi, fun j hj hpj => ?_⟩
        by_cases hjn : j = n
        · exact absurd (hjn ▸ hpj) hp
        · exact hlast j (by omega) hpj
      · intro h j hj hpj
        by_cases hjn : j = n
        · exact hp (hjn ▸ hpj)
        · exact ih.2 h j (by omega) hpj

theorem lastIndex_spec (hsep : sep ≠ []) :
    (∃ i : Nat, lastIndex s sep = i ∧ sep <+: s.drop i ∧ ∀ j, sep <+: s.drop j → j ≤ i) ∨
      lastIndex s sep = -1 ∧ ∀ j, ¬sep <+: s.drop j := by
  have hlt : ∀ j, sep <+: s.drop j → j < s.length + 1 := by
    intro j hj
    have hle := hj.length_le
    have hpos := List.length_pos_of_ne_nil hsep
    rw [List.length_drop] at hle
    omega
  unfold lastIndex
  cases h : (List.range (s.length + 1)).reverse.find? fun i => sep.isPrefixOf (s.drop i) with
  | none =>
    right
    refine ⟨rfl, fun j hj => ?_⟩
    exact find_reverse_range.2 h j (hlt j hj) (List.isPrefixOf_iff_prefix.mpr hj)
  | some i =>
    left
    obtain ⟨-, hi, hlast⟩ := find_reverse_range.1 i h
    refine ⟨i, rfl, List.isPrefixOf_iff_prefix.mp hi, fun j hj => ?_⟩
    exact hlast j (hlt j hj) (List.isPrefixOf_iff_prefix.mpr hj)

theorem lastIndex_lt (hsep : sep ≠ []) {n : Nat} (h : ¬lastIndex (s.take n) sep < 0) :
    (lastIndex (s.take n) sep).toNat < n := by
  rcases lastIndex_spec (s := s.take n) hsep with ⟨i, hi, hmatch, -⟩ | ⟨hnone, -⟩
  · have hle := hmatch.length_le
    have hpos := List.length_pos_of_ne_nil hsep
    rw [List.length_drop, List.length_take] at hle
    omega
  · omega

end lastIndex

section detection

def maxMetadataScanBytes : Nat := 256 * 1024

structure Detection where
  videoStart : Int
  presentationTimestampUs : Int
  deriving DecidableEq

/-- What follows a character that is given in lower case, without regard to case. A regular expression
takes the long s for an `s`, too. -/
def foldLetter (c : Char) : List UInt8 → Option (List UInt8)
  | [] => none
  | b :: rest =>
    if (Char.ofNat b.toNat).toLower = c then some rest
    else if c = 's' then
      if ([0xC5, 0xBF] : List UInt8).isPrefixOf (b :: rest) then some (rest.drop 1) else none
    else none

def foldName : List Char → List UInt8 → Option (List UInt8)
  | [], text => some text
  | c :: name, text => (foldLetter c text).bind (foldName name)

def isMarkupByte (b : UInt8) : Bool :=
  b ∈ [0x22, 0x27, 0x3D, 0x3A, 0x09, 0x0A, 0x0C, 0x0D, 0x20, 0x3E]

def isDigitByte (b : UInt8) : Bool := 0x30 ≤ b && b ≤ 0x39

def valueAt {α : Type} (names : List String) (read : List UInt8 → Option α) (text : List UInt8) :
    Option α :=
  names.findSome? fun name => (foldName name.toList text).bind fun rest =>
    if rest.takeWhile isMarkupByte = [] then none else read (rest.dropWhile isMarkupByte)

def findValue {α : Type} (names : List String) (read : List UInt8 → Option α) :
    List UInt8 → Option α
  | [] => none
  | b :: text => (valueAt names read (b :: text)).orElse fun _ => findValue names read text

def readDigits (text : List UInt8) : Option (List Char) :=
  let digits := text.takeWhile isDigitByte
  if digits = [] then none else some (digits.map fun b => Char.ofNat b.toNat)

def readSigned : List UInt8 → Option (List Char)
  | 0x2D :: text => (readDigits text).map ('-' :: ·)
  | text => readDigits text

/-- `1` -/
def readOne (text : List UInt8) : Option Unit := if text.head? = some 0x31 then some () else none

def motionPhotoMarkerRegex : List UInt8 → Option Unit :=
  findValue ["camera:motionphoto", "gcamera:motionphoto", "microvideo"] readOne

def presentationRegex : List UInt8 → Option (List Char) :=
  findValue ["camera:motionphotopresentationtimestampus",
    "gcamera:motionphotopresentationtimestampus"] readSigned

def microVideoOffsetRegex : List UInt8 → Option (List Char) :=
  findValue ["camera:microvideooffset", "gcamera:microvideooffset"] readDigits

def findEmbeddedBefore (blob : List UInt8) (searchFrom : Nat) : Int :=
  if 8 < searchFrom then
    let index := lastIndex (blob.take searchFrom) ftyp
    if _h : index < 4 then -1
    else
      let start := index.toNat - 4
      if looksLikeMP4 (blob.drop start) then start
      else findEmbeddedBefore blob (index.toNat - 1)
  else -1
termination_by searchFrom
decreasing_by
  have hlt := @lastIndex_lt blob ftyp (by decide) searchFrom (by omega)
  omega

def findEmbeddedMP4Start (blob : List UInt8) : Int := findEmbeddedBefore blob blob.length

def offsetStart (blob text : List UInt8) : Option Nat :=
  (microVideoOffsetRegex text).bind fun digits => (atoi digits).bind fun offset =>
    if 0 < offset ∧ offset < blob.length then
      let start := blob.length - offset.toNat
      if looksLikeMP4 (blob.drop start) then some start else none
    else none

def detectVideoStart (blob text : List UInt8) : Int :=
  (offsetStart blob text).elim (findEmbeddedMP4Start blob) (↑)

def parsePresentationTimestampUs (text : List UInt8) : Int :=
  ((presentationRegex text).bind atoi).getD 0

def detectJPEG (blob : List UInt8) : Option Detection :=
  if blob.length < 16 ∨ ¬([0xFF, 0xD8] : List UInt8).isPrefixOf blob then none
  else
    let text := blob.take maxMetadataScanBytes
    if motionPhotoMarkerRegex text = none then none
    else
      let videoStart := detectVideoStart blob text
      if videoStart < 0 ∨ (blob.length : Int) ≤ videoStart then none
      else some { videoStart, presentationTimestampUs := parsePresentationTimestampUs text }

def extractVideo (blob : List UInt8) : Option (List UInt8 × Detection) :=
  (detectJPEG blob).bind fun detection =>
    let videoBlob := blob.drop detection.videoStart.toNat
    if looksLikeMP4 videoBlob then some (videoBlob, detection) else none

end detection

section places

variable {blob : List UInt8} {i j start : Nat}

theorem ftyp_prefix : ftyp <+: blob.drop i ↔ blob[i]? = some 0x66 ∧ blob[i + 1]? = some 0x74 ∧
    blob[i + 2]? = some 0x79 ∧ blob[i + 3]? = some 0x70 := by
  have hget : ∀ k, (blob.drop i)[k]? = blob[i + k]? := fun k => List.getElem?_drop
  rw [← hget 1, ← hget 2, ← hget 3, ← Nat.add_zero i, ← hget 0, Nat.add_zero]
  cases blob.drop i with
  | nil => simp [ftyp]
  | cons b rest =>
    cases rest with
    | nil => simp [ftyp]
    | cons b₁ rest =>
      cases rest with
      | nil => simp [ftyp]
      | cons b₂ rest =>
        cases rest with
        | nil => simp [ftyp]
        | cons b₃ rest => simp [ftyp, eq_comm]

theorem ftyp_length (h : ftyp <+: blob.drop i) : i + 4 ≤ blob.length := by
  have hle := h.length_le
  rw [List.length_drop] at hle
  change 4 ≤ _ at hle
  omega

theorem ftyp_apart (hi : ftyp <+: blob.drop i) (hj : ftyp <+: blob.drop j) (h : j < i) :
    j + 4 ≤ i := by
  by_contra hlt
  obtain ⟨hi, -⟩ := ftyp_prefix.mp hi
  obtain ⟨-, h1, h2, h3⟩ := ftyp_prefix.mp hj
  rcases (by omega : i = j + 1 ∨ i = j + 2 ∨ i = j + 3) with rfl | rfl | rfl
  · rw [h1] at hi
    cases hi
  · rw [h2] at hi
    cases hi
  · rw [h3] at hi
    cases hi

theorem ftyp_take {n : Nat} :
    ftyp <+: (blob.take n).drop i ↔ ftyp <+: blob.drop i ∧ i + 4 ≤ n := by
  constructor
  · intro h
    have hle := ftyp_length h
    rw [List.length_take] at hle
    rw [List.drop_take] at h
    exact ⟨h.trans (List.take_prefix _ _), by omega⟩
  · rintro ⟨h, hn⟩
    rw [List.drop_take]
    have htake := h.take (n - i)
    rwa [List.take_of_length_le (by change 4 ≤ _; omega)] at htake

theorem looksLikeMP4_drop : looksLikeMP4 (blob.drop start) ↔ start + 12 ≤ blob.length ∧
    ftyp <+: blob.drop (start + 4) ∧
      (bigEndianUint32 (blob.drop start) = 1 ∨ 8 ≤ bigEndianUint32 (blob.drop start)) := by
  unfold looksLikeMP4
  rw [List.length_drop, List.drop_drop]
  by_cases hlen : start + 12 ≤ blob.length
  · by_cases hftyp : (blob.drop (start + 4)).take 4 = ftyp
    · have hpre : ftyp <+: blob.drop (start + 4) := hftyp ▸ List.take_prefix 4 _
      rw [if_neg (by rw [not_or]; exact ⟨by omega, not_not.mpr hftyp⟩)]
      simp [hlen, hpre]
    · have hpre : ¬ftyp <+: blob.drop (start + 4) := fun h =>
        hftyp (List.prefix_iff_eq_take.mp h).symm
      rw [if_pos (.inr hftyp)]
      simp [hpre]
  · rw [if_pos (.inl (by omega))]
    simp [hlen]

theorem le_bigEndianUint32 {b : UInt8} (hb : blob[start]? = some b) (hne : b ≠ 0)
    (hlen : start + 4 ≤ blob.length) : 8 ≤ bigEndianUint32 (blob.drop start) := by
  have hpos : 0 < b.toNat := Nat.pos_of_ne_zero fun h => hne (UInt8.toNat_inj.mp h)
  obtain ⟨hlt, hget⟩ := List.getElem?_eq_some_iff.mp hb
  have hdrop : blob.drop start =
      b :: blob[start + 1] :: blob[start + 2] :: blob[start + 3] :: blob.drop (start + 4) := by
    rw [List.drop_eq_getElem_cons hlt, hget, List.drop_eq_getElem_cons (by omega),
      List.drop_eq_getElem_cons (by omega), List.drop_eq_getElem_cons (by omega)]
  unfold bigEndianUint32
  rw [hdrop]
  simp only [List.take_succ_cons, List.take_zero, List.foldl_cons, List.foldl_nil]
  omega

end places

section search

variable {blob : List UInt8} {searchFrom : Nat}

def IsLastClip (blob : List UInt8) (n : Int) : Prop :=
  (∃ start : Nat, n = start ∧ looksLikeMP4 (blob.drop start) ∧
      ∀ later, looksLikeMP4 (blob.drop later) → later ≤ start) ∨
    n = -1 ∧ ∀ start, ¬looksLikeMP4 (blob.drop start)

/-- A last `ftyp` with fewer than four bytes behind it, right behind that of a clip or, at the start
of the bytes, one byte later. -/
def HidesClip (blob : List UInt8) : Prop :=
  ∃ i, ftyp <+: blob.drop i ∧ blob.length < i + 8 ∧
    (8 ≤ i ∧ looksLikeMP4 (blob.drop (i - 8)) ∨ i = 9 ∧ looksLikeMP4 blob)

theorem findEmbeddedBefore_cases (blob : List UInt8) (searchFrom : Nat) :
    (∃ start : Nat, findEmbeddedBefore blob searchFrom = start ∧ start + 8 ≤ searchFrom ∧
      8 < searchFrom ∧ looksLikeMP4 (blob.drop start)) ∨ findEmbeddedBefore blob searchFrom = -1 := by
  induction searchFrom using Nat.strong_induction_on with
  | h searchFrom ih =>
    rw [findEmbeddedBefore]
    dsimp only
    split
    · rename_i hlong
      split
      · exact .inr rfl
      · rename_i hindex
        rcases @lastIndex_spec (blob.take searchFrom) ftyp (by decide) with
          ⟨i, hi, hmatch, -⟩ | ⟨hnone, -⟩
        · rw [hi] at hindex ⊢
          have hbound := (ftyp_take.mp hmatch).2
          split
          · rename_i hclip
            exact .inl ⟨i - 4, rfl, by omega, hlong, hclip⟩
          · rcases ih (i - 1) (by omega) with ⟨start, hstart, hle, -, hclip⟩ | hnone
            · exact .inl ⟨start, hstart, by omega, hlong, hclip⟩
            · exact .inr hnone
        · omega
    · exact .inr rfl

theorem isLastClip_findEmbeddedBefore (hshown : ¬HidesClip blob)
    (hleft : ∀ start, looksLikeMP4 (blob.drop start) → start + 8 ≤ searchFrom ∧ 8 < searchFrom) :
    IsLastClip blob (findEmbeddedBefore blob searchFrom) := by
  induction searchFrom using Nat.strong_induction_on with
  | h searchFrom ih =>
    rw [findEmbeddedBefore]
    dsimp only
    split
    · rename_i hlong
      rcases @lastIndex_spec (blob.take searchFrom) ftyp (by decide) with
        ⟨i, hi, hmatch, hlast⟩ | ⟨hnone, hlast⟩
      · rw [hi, Int.toNat_natCast]
        obtain ⟨hmatch, hbound⟩ := ftyp_take.mp hmatch
        -- every clip lies at the occurrence that is found, or before it
        have hbefore : ∀ start, looksLikeMP4 (blob.drop start) → start + 4 ≤ i := by
          intro start hclip
          apply hlast
          exact ftyp_take.mpr ⟨(looksLikeMP4_drop.mp hclip).2.1, (hleft start hclip).1⟩
        split
        · exact .inr ⟨rfl, fun start hclip => by have := hbefore start hclip; omega⟩
        · split
          · rename_i hclip
            refine .inl ⟨i - 4, by omega, hclip, fun later hlater => ?_⟩
            have := hbefore later hlater
            omega
          · rename_i hindex hclip
            have hsize : ∀ {b : UInt8}, blob[i - 4]? = some b → b ≠ 0 → blob.length < i + 8 := by
              intro b hb hne
              by_contra hlen
              apply hclip
              apply looksLikeMP4_drop.mpr
              rw [show i - 4 + 4 = i by omega]
              exact ⟨by omega, hmatch, .inr (le_bigEndianUint32 hb hne (by omega))⟩
            apply ih (i - 1) (by omega)
            intro start hstart
            have hle := hbefore start hstart
            have hstartFtyp := (looksLikeMP4_drop.mp hstart).2.1
            have hne : start + 4 ≠ i := by
              rintro rfl
              exact hclip (by rwa [show start + 4 - 4 = start by omega])
            have hapart := ftyp_apart hmatch hstartFtyp (by omega)
            obtain ⟨h0, h1, -⟩ := ftyp_prefix.mp hstartFtyp
            have hadjacent : start + 8 ≠ i := by
              rintro rfl
              have hlen := hsize h0 (by decide)
              exact hshown ⟨start + 8, hmatch, hlen, .inl ⟨by omega, hstart⟩⟩
            have hfirst : i ≠ 9 := by
              rintro rfl
              obtain rfl : start = 0 := by omega
              exact hshown ⟨9, hmatch, hsize h1 (by decide), .inr ⟨rfl, hstart⟩⟩
            omega
      · rw [hnone]
        refine .inr ⟨rfl, fun start hclip => hlast (start + 4) ?_⟩
        exact ftyp_take.mpr ⟨(looksLikeMP4_drop.mp hclip).2.1, (hleft start hclip).1⟩
    · rename_i hshort
      exact .inr ⟨rfl, fun start hclip => hshort (hleft start hclip).2⟩

theorem isLastClip_findEmbeddedMP4Start (hshown : ¬HidesClip blob) :
    IsLastClip blob (findEmbeddedMP4Start blob) := by
  apply isLastClip_findEmbeddedBefore hshown
  intro start hclip
  have hlen := (looksLikeMP4_drop.mp hclip).1
  omega

theorem not_isLastClip_of_hidesClip (h : HidesClip blob) :
    ¬IsLastClip blob (findEmbeddedMP4Start blob) := by
  obtain ⟨i, hmatch, hlen, hhidden⟩ := h
  have hbound := ftyp_length hmatch
  have hindex : lastIndex (blob.take blob.length) ftyp = i := by
    rw [List.take_length]
    rcases @lastIndex_spec blob ftyp (by decide) with
      ⟨j, hj, hjmatch, hlast⟩ | ⟨-, hlast⟩
    · have hle := hlast i hmatch
      have hjbound := ftyp_length hjmatch
      by_cases hij : i = j
      · rw [hij, hj]
      · have := ftyp_apart hjmatch hmatch (by omega)
        omega
    · exact absurd hmatch (hlast i)
  have hshort : ¬looksLikeMP4 (blob.drop (i - 4)) := fun hclip => by
    have := (looksLikeMP4_drop.mp hclip).1
    omega
  have hstep : findEmbeddedMP4Start blob = findEmbeddedBefore blob (i - 1) := by
    rw [findEmbeddedMP4Start, findEmbeddedBefore]
    dsimp only
    rw [hindex, if_pos (by omega), dif_neg (by omega)]
    exact if_neg hshort
  obtain ⟨start, hclip, hbehind⟩ : ∃ start, looksLikeMP4 (blob.drop start) ∧
      (i < start + 9 ∨ i ≤ 9) := by
    rcases hhidden with ⟨hi, hclip⟩ | ⟨rfl, hclip⟩
    · exact ⟨i - 8, hclip, .inl (by omega)⟩
    · exact ⟨0, hclip, .inr (by omega)⟩
  rw [hstep]
  rintro (⟨found, hfound, -, hlast⟩ | ⟨-, hnone⟩)
  · rcases findEmbeddedBefore_cases blob (i - 1) with ⟨n, hn, hle, hlong, -⟩ | hnone
    · have := hlast start hclip
      omega
    · omega
  · exact hnone start hclip

end search

section extraction

variable {blob text : List UInt8} {detection : Detection}

theorem looksLikeMP4_of_offsetStart {start : Nat} (h : offsetStart blob text = some start) :
    looksLikeMP4 (blob.drop start) := by
  unfold offsetStart at h
  obtain ⟨digits, -, h⟩ := Option.bind_eq_some_iff.mp h
  obtain ⟨offset, -, h⟩ := Option.bind_eq_some_iff.mp h
  obtain ⟨-, h⟩ := Option.ite_none_right_eq_some.mp h
  obtain ⟨hclip, h⟩ := Option.ite_none_right_eq_some.mp h
  obtain rfl := Option.some.inj h
  exact hclip

theorem looksLikeMP4_of_detectVideoStart (h : 0 ≤ detectVideoStart blob text) :
    looksLikeMP4 (blob.drop (detectVideoStart blob text).toNat) := by
  unfold detectVideoStart at h ⊢
  cases hoffset : offsetStart blob text with
  | some start => exact looksLikeMP4_of_offsetStart hoffset
  | none =>
    rw [hoffset] at h
    dsimp only [Option.elim] at h ⊢
    rcases findEmbeddedBefore_cases blob blob.length with ⟨start, hstart, -, -, hclip⟩ | hnone
    · rw [findEmbeddedMP4Start, hstart]
      exact hclip
    · rw [findEmbeddedMP4Start, hnone] at h
      omega

theorem detectJPEG_start (h : detectJPEG blob = some detection) :
    0 ≤ detection.videoStart ∧ detection.videoStart < blob.length ∧
      looksLikeMP4 (blob.drop detection.videoStart.toNat) := by
  unfold detectJPEG at h
  obtain ⟨-, h⟩ := Option.ite_none_left_eq_some.mp h
  obtain ⟨-, h⟩ := Option.ite_none_left_eq_some.mp h
  obtain ⟨hbounds, h⟩ := Option.ite_none_left_eq_some.mp h
  obtain rfl := Option.some.inj h
  rw [not_or] at hbounds
  dsimp only
  refine ⟨by omega, by omega, looksLikeMP4_of_detectVideoStart ?_⟩
  omega

example : detectJPEG ([0xFF, 0xD8] ++ utf8 "MicroVideo='1' GCAMERA:MicroVideoOffſet=\"12\"" ++
    [0, 0, 0, 8] ++ ftyp ++ [0, 0, 0, 0]) = some ⟨47, 0⟩ := by decide +kernel

theorem extractVideo_of_detectJPEG (h : detectJPEG blob = some detection) :
    extractVideo blob = some (blob.drop detection.videoStart.toNat, detection) := by
  rw [extractVideo, h]
  exact if_pos (detectJPEG_start h).2.2

/-- Extraction stays in bounds, and the last clip is found, exactly if none is hidden by an `ftyp`
at the end of the bytes. -/
theorem extraction_iff (blob : List UInt8) :
    ((∀ detection, detectJPEG blob = some detection →
        0 ≤ detection.videoStart ∧ detection.videoStart < blob.length ∧
          extractVideo blob = some (blob.drop detection.videoStart.toNat, detection) ∧
          looksLikeMP4 (blob.drop detection.videoStart.toNat)) ∧
      IsLastClip blob (findEmbeddedMP4Start blob)) ↔ ¬HidesClip blob := by
  constructor
  · rintro ⟨-, hlast⟩ hhidden
    exact not_isLastClip_of_hidesClip hhidden hlast
  · intro hshown
    refine ⟨fun detection h => ?_, isLastClip_findEmbeddedMP4Start hshown⟩
    obtain ⟨hle, hlt, hclip⟩ := detectJPEG_start h
    exact ⟨hle, hlt, extractVideo_of_detectJPEG h, hclip⟩

/-- A clip with `ftyp` twice is not found. -/
theorem extraction_fails : ∃ blob : List UInt8,
    blob = [0, 0, 0, 8] ++ ftyp ++ ftyp ∧ looksLikeMP4 blob = true ∧
      ¬IsLastClip blob (findEmbeddedMP4Start blob) := by
  refine ⟨_, rfl, by decide, not_isLastClip_of_hidesClip ⟨8, ?_, by decide, .inl ⟨by decide, ?_⟩⟩⟩
  · exact List.prefix_rfl
  · decide

end extraction

end Memoark.Media
