import Memoark.Go.Strings
import Memoark.Import.Decode
import Memoark.Time.Calendar

/-! `parseRecord` of `internal/memoimport/parser.go`. -/
namespace Memoark.Import
open Time Go

structure SkippedCounts where
  attachments : Nat
  comments : Nat
  relations : Nat
  reactions : Nat
  locations : Nat
  settings : Nat
  deriving DecidableEq

def SkippedCounts.zero : SkippedCounts := ⟨0, 0, 0, 0, 0, 0⟩

def SkippedCounts.total (c : SkippedCounts) : Nat :=
  c.attachments + c.comments + c.relations + c.reactions + c.locations + c.settings

structure Record where
  sourceName : String
  state : String
  createTime : Instant
  updateTime : Instant
  content : String
  visibility : String
  pinned : Bool
  deriving DecidableEq

def allowedMemoFields : List String :=
  ["name", "state", "creator", "createTime", "updateTime", "content", "visibility", "tags",
    "pinned", "attachments", "relations", "reactions", "property", "parent", "snippet",
    "location"]

def isAlphanumeric (c : Char) : Bool :=
  ('a' ≤ c && c ≤ 'z') || ('A' ≤ c && c ≤ 'Z') || ('0' ≤ c && c ≤ '9')

def uidMatches (uid : List Char) : Bool :=
  match uid.head?, uid.getLast? with
  | some first, some last =>
    isAlphanumeric first && isAlphanumeric last && uid.all (fun c => isAlphanumeric c || c = '-') &&
      uid.length ≤ 36
  | _, _ => false

def memoUid (name : String) : Option (List Char) :=
  match name.toList with
  | 'm' :: 'e' :: 'm' :: 'o' :: 's' :: '/' :: uid => if uidMatches uid then some uid else none
  | _ => none

abbrev Fields := List (String × Json)

def requiredString (fields : Fields) (name : String) : Except String String :=
  match Json.lookup name fields with
  | none => .error s!"missing required field {quoted name}"
  | some .null => .ok ""
  | some (.str text) => .ok text
  | some _ => .error s!"{name} must be a string"

def requiredTimestamp (fields : Fields) (name : String) : Except String Instant := do
  let text ← requiredString fields name
  match parseRfc3339 text.toList with
  | some t => pure t
  | none => throw s!"invalid {name} timestamp"

def updateTimestamp (fields : Fields) (createTime : Instant) : Except String Instant :=
  match Json.lookup "updateTime" fields with
  | none | some .null => .ok createTime
  | some (.str text) =>
    match parseRfc3339 text.toList with
    | some t => .ok t
    | none => .error "invalid updateTime timestamp"
  | some _ => .error "updateTime must be an RFC3339 string"

def arrayLength (fields : Fields) (name : String) : Except String Nat :=
  match Json.lookup name fields with
  | none | some .null => .ok 0
  | some (.arr items) => .ok items.length
  | some _ => .error s!"{name} must be an array"

def parseName : Json → Except (String × String) (Fields × String)
  | .obj fields =>
    match fields.find? fun (key, _) => key ∉ allowedMemoFields with
    | some (key, _) => .error ("", s!"unknown memo field {quoted key}")
    | none =>
      match requiredString fields "name" with
      | .error e => .error ("", e)
      | .ok name =>
        match memoUid name with
        | some _ => .ok (fields, name)
        | none => .error (name, "invalid memo resource name")
  | _ => .error ("", "memo must be a JSON object")

def parsePinned (fields : Fields) : Except String Bool :=
  match Json.lookup "pinned" fields with
  | some .null => .ok false
  | some (.bool b) => .ok b
  | _ => .error "pinned must be a boolean"

def parseCore (fields : Fields) (name state : String) (maxContentLength : Nat) :
    Except String Record := do
  let createTime ← requiredTimestamp fields "createTime"
  let updateTime ← updateTimestamp fields createTime
  let content ← requiredString fields "content"
  if 0 < maxContentLength && maxContentLength < content.utf8ByteSize then
    throw s!"content exceeds the {maxContentLength}-byte limit"
  let visibility ← requiredString fields "visibility"
  if visibility ∉ ["PRIVATE", "PROTECTED", "PUBLIC"] then
    throw s!"unsupported memo visibility {quoted visibility}"
  let pinned ← parsePinned fields
  pure ⟨name, state, createTime, updateTime, content, visibility, pinned⟩

def parseLocation (fields : Fields) : Except String Nat :=
  match Json.lookup "location" fields with
  | none | some .null => .ok 0
  | some (.obj _) => .ok 1
  | some _ => .error "location must be an object or null"

def parseParent (fields : Fields) : Except String Bool :=
  match Json.lookup "parent" fields with
  | none | some .null => .ok false
  | some (.str parent) => .ok (parent ≠ "")
  | some _ => .error "parent must be a string or null"

def parseSkipped (fields : Fields) : SkippedCounts × Except String Unit :=
  match arrayLength fields "attachments" with
  | .error e => (.zero, .error e)
  | .ok attachments =>
    match arrayLength fields "relations" with
    | .error e => ({ SkippedCounts.zero with attachments }, .error e)
    | .ok relations =>
      match arrayLength fields "reactions" with
      | .error e => ({ SkippedCounts.zero with attachments, relations }, .error e)
      | .ok reactions =>
        match parseLocation fields with
        | .error e => ({ SkippedCounts.zero with attachments, relations, reactions }, .error e)
        | .ok locations =>
          ({ SkippedCounts.zero with attachments, relations, reactions, locations }, .ok ())

/-- What `parseRecord` returns: the name and state as far as read, the counts, and the record
with whether it is a comment. -/
structure ParsedRecord where
  sourceName : String
  skipped : SkippedCounts
  state : String
  result : Except String (Record × Bool)

def parseRecord (data : Json) (maxContentLength : Nat) : ParsedRecord :=
  match parseName data with
  | .error (name, e) => ⟨name, .zero, "", .error e⟩
  | .ok (fields, name) =>
    match requiredString fields "state" with
    | .error e => ⟨name, .zero, "", .error e⟩
    | .ok state =>
      if state ∉ ["NORMAL", "ARCHIVED"] then
        ⟨name, .zero, state, .error s!"unsupported memo state {quoted state}"⟩
      else
        match parseCore fields name state maxContentLength with
        | .error e => ⟨name, .zero, state, .error e⟩
        | .ok record =>
          ⟨name, (parseSkipped fields).1, state, do
            (parseSkipped fields).2
            let comment ← parseParent fields
            pure (record, comment)⟩

end Memoark.Import
