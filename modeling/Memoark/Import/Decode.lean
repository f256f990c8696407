import Memoark.Json.Parse

/-! `json.Decode` into the structs of `internal/memoimport/parser.go` with unknown fields
disallowed; `none` is a decoding error. -/
namespace Memoark.Import

def foldChar (c : Char) : Char :=
  if 'a' ≤ c ∧ c ≤ 'z' then Char.ofNat (c.toNat - 32)
  else if c = '\u017F' then 'S'
  else if c = '\u212A' then 'K'
  else c

def foldName (name : String) : List Char := name.toList.map foldChar

def fieldOf (names : List String) (key : String) : Option String :=
  if key ∈ names then some key else names.find? fun name => foldName name = foldName key

def decodeMembers {σ : Type} (names : List String) (set : σ → String → Json → Option σ) :
    σ → List (String × Json) → Option σ
  | s, [] => some s
  | s, (key, v) :: members =>
    match fieldOf names key with
    | none => none
    | some name =>
      match set s name v with
      | none => none
      | some s' => decodeMembers names set s' members

def decodeStruct {σ : Type} (names : List String) (set : σ → String → Json → Option σ) (s : σ) :
    Json → Option σ
  | .null => some s
  | .obj members => decodeMembers names set s members
  | _ => none

/-- Into a pointer; `null` sets nil, and a struct that is there is decoded over. -/
def decodePointer {σ : Type} (decode : σ → Json → Option σ) (zero : σ) (p : Option σ) :
    Json → Option (Option σ)
  | .null => some none
  | v => (decode (p.getD zero) v).map some

def decodeString (old : String) : Json → Option String
  | .null => some old
  | .str s => some s
  | _ => none

def decodeBool (old : Bool) : Json → Option Bool
  | .null => some old
  | .bool b => some b
  | _ => none

def parseDigits (ds : List Char) : Option Nat :=
  if ds.isEmpty || !ds.all Json.isDigit then none
  else some (ds.foldl (fun n c => n * 10 + (c.toNat - '0'.toNat)) 0)

def parseInt (literal : String) : Option Int :=
  let n : Option Int :=
    match literal.toList with
    | '-' :: ds => (parseDigits ds).map fun n => -(n : Int)
    | ds => (parseDigits ds).map fun n => (n : Int)
  match n with
  | some n => if -9223372036854775808 ≤ n ∧ n ≤ 9223372036854775807 then some n else none
  | none => none

def decodeInt (old : Int) : Json → Option Int
  | .null => some old
  | .num literal => parseInt literal
  | _ => none

/-- Into a slice of raw messages; `null` sets nil. -/
def decodeRawItems (_ : List Json) : Json → Option (List Json)
  | .null => some []
  | .arr items => some items
  | _ => none

structure RawUser where
  name : String
  username : String
  displayName : String

def RawUser.zero : RawUser := ⟨"", "", ""⟩

def RawUser.fields : List String := ["name", "username", "displayName"]

def RawUser.set (u : RawUser) (field : String) (v : Json) : Option RawUser :=
  if field = "name" then (decodeString u.name v).map fun s => { u with name := s }
  else if field = "username" then (decodeString u.username v).map fun s => { u with username := s }
  else (decodeString u.displayName v).map fun s => { u with displayName := s }

structure RawCounts where
  total : Int
  normal : Int
  archived : Int

def RawCounts.zero : RawCounts := ⟨0, 0, 0⟩

def RawCounts.fields : List String := ["total", "normal", "archived"]

def RawCounts.set (c : RawCounts) (field : String) (v : Json) : Option RawCounts :=
  if field = "total" then (decodeInt c.total v).map fun n => { c with total := n }
  else if field = "normal" then (decodeInt c.normal v).map fun n => { c with normal := n }
  else (decodeInt c.archived v).map fun n => { c with archived := n }

structure RawIncludedContent where
  memoData : Bool
  attachmentMetadata : Bool
  attachmentFiles : Bool
  comments : Bool
  instanceSettings : Bool

def RawIncludedContent.zero : RawIncludedContent := ⟨false, false, false, false, false⟩

def RawIncludedContent.fields : List String :=
  ["memoData", "attachmentMetadata", "attachmentFiles", "comments", "instanceSettings"]

def RawIncludedContent.set (c : RawIncludedContent) (field : String) (v : Json) :
    Option RawIncludedContent :=
  if field = "memoData" then (decodeBool c.memoData v).map fun b => { c with memoData := b }
  else if field = "attachmentMetadata" then
    (decodeBool c.attachmentMetadata v).map fun b => { c with attachmentMetadata := b }
  else if field = "attachmentFiles" then
    (decodeBool c.attachmentFiles v).map fun b => { c with attachmentFiles := b }
  else if field = "comments" then (decodeBool c.comments v).map fun b => { c with comments := b }
  else (decodeBool c.instanceSettings v).map fun b => { c with instanceSettings := b }

structure RawDocument where
  format : Option String
  formatVersion : Option Int
  exportedAt : Option String
  user : Option RawUser
  counts : Option RawCounts
  includedContent : Option RawIncludedContent
  memos : Option (List Json)

def RawDocument.zero : RawDocument := ⟨none, none, none, none, none, none, none⟩

def RawDocument.fields : List String :=
  ["format", "formatVersion", "exportedAt", "user", "counts", "includedContent", "memos"]

def RawDocument.set (d : RawDocument) (field : String) (v : Json) : Option RawDocument :=
  if field = "format" then
    (decodePointer decodeString "" d.format v).map fun p => { d with format := p }
  else if field = "formatVersion" then
    (decodePointer decodeInt 0 d.formatVersion v).map fun p => { d with formatVersion := p }
  else if field = "exportedAt" then
    (decodePointer decodeString "" d.exportedAt v).map fun p => { d with exportedAt := p }
  else if field = "user" then
    (decodePointer (decodeStruct RawUser.fields RawUser.set) .zero d.user v).map
      fun p => { d with user := p }
  else if field = "counts" then
    (decodePointer (decodeStruct RawCounts.fields RawCounts.set) .zero d.counts v).map
      fun p => { d with counts := p }
  else if field = "includedContent" then
    (decodePointer (decodeStruct RawIncludedContent.fields RawIncludedContent.set) .zero
      d.includedContent v).map fun p => { d with includedContent := p }
  else (decodePointer decodeRawItems [] d.memos v).map fun p => { d with memos := p }

def decodeDocument (v : Json) : Option RawDocument :=
  decodeStruct RawDocument.fields RawDocument.set .zero v

end Memoark.Import
