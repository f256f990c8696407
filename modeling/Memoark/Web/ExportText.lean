import Memoark.Json.Print
import Memoark.Net.Ip
import Memoark.Time.Rfc3339
import Memoark.Web.MemoExport

/-! The text of an export: the memos as `toJson` writes them with `alwaysEmitImplicit`, in the
mapping of proto3 to JSON, and the document as `JSON.stringify` indents it. -/
namespace Memoark.Web
open Store Server

def optionalField (name : String) (value : Option Json) : List (String × Json) :=
  (value.map (name, ·)).toList

def naturalToJson (n : Nat) : Json := .num (toString n)

def enumToJson (names : List String) (n : Nat) : Json :=
  match names[n]? with
  | some name => .str name
  | none => naturalToJson n

def int64ToJson (n : Int) : Json := .str (toString n)

def stateName : Api.State → String
  | .unspecified => "STATE_UNSPECIFIED"
  | .normal => "NORMAL"
  | .archived => "ARCHIVED"

def visibilityName : Api.Visibility → String
  | .unspecified => "VISIBILITY_UNSPECIFIED"
  | .Private => "PRIVATE"
  | .Protected => "PROTECTED"
  | .Public => "PUBLIC"

def relationTypeName : Api.MemoRelation.Type → String
  | .REFERENCE => "REFERENCE"
  | .COMMENT => "COMMENT"

def timestampToJson (t : Api.Timestamp) : Option Json :=
  (Time.timestampToJson t.seconds t.nanos).map .str

def motionMediaToJson (media : MotionMedia) : Json :=
  .obj [("family", enumToJson
      ["MOTION_MEDIA_FAMILY_UNSPECIFIED", "APPLE_LIVE_PHOTO", "ANDROID_MOTION_PHOTO"] media.family),
    ("role", enumToJson ["MOTION_MEDIA_ROLE_UNSPECIFIED", "STILL", "VIDEO", "CONTAINER"]
      media.role),
    ("groupId", .str media.groupId),
    ("presentationTimestampUs", int64ToJson media.presentationTimestampUs),
    ("hasEmbeddedVideo", .bool media.hasEmbeddedVideo)]

def attachmentToJson (attachment : Api.Attachment) : Option Json := do
  let createTime ← timestampToJson attachment.createTime
  return .obj ([("name", .str attachment.name), ("createTime", createTime),
    ("filename", .str attachment.filename), ("content", .str ""),
    ("externalLink", .str attachment.externalLink), ("type", .str attachment.type),
    ("size", int64ToJson attachment.size)] ++
    optionalField "memo" (attachment.memo.map .str) ++
    optionalField "motionMedia" (attachment.motionMedia.map motionMediaToJson))

def relatedMemoToJson (memo : Api.MemoRelation.Memo) : Json :=
  .obj [("name", .str memo.name), ("snippet", .str memo.snippet)]

def relationToJson (relation : Api.MemoRelation) : Json :=
  .obj [("memo", relatedMemoToJson relation.memo),
    ("relatedMemo", relatedMemoToJson relation.relatedMemo),
    ("type", .str (relationTypeName relation.type))]

def reactionToJson (reaction : Api.Reaction) : Option Json := do
  let createTime ← timestampToJson reaction.createTime
  return .obj [("name", .str reaction.name), ("creator", .str reaction.creator),
    ("contentId", .str reaction.contentId), ("reactionType", .str reaction.reactionType),
    ("createTime", createTime)]

def propertyToJson (property : MemoPayload.Property) : Json :=
  .obj [("hasLink", .bool property.hasLink), ("hasTaskList", .bool property.hasTaskList),
    ("hasCode", .bool property.hasCode),
    ("hasIncompleteTasks", .bool property.hasIncompleteTasks), ("title", .str property.title)]

section document

-- `double` is the JSON of a floating point number.
variable (double : Float → Json)

def locationToJson (location : MemoPayload.Location) : Json :=
  .obj [("placeholder", .str location.placeholder), ("latitude", double location.latitude),
    ("longitude", double location.longitude)]

/-- The fields that are always written, in the order of their numbers. -/
def implicitMembers (memo : Api.Memo) (createTime updateTime : Json)
    (attachments reactions : List Json) : List (String × Json) :=
  [("name", .str memo.name), ("state", .str (stateName memo.state)),
    ("creator", .str memo.creator), ("createTime", createTime), ("updateTime", updateTime),
    ("content", .str memo.content), ("visibility", .str (visibilityName memo.visibility)),
    ("tags", .arr (memo.tags.map .str)), ("pinned", .bool memo.pinned),
    ("attachments", .arr attachments), ("relations", .arr (memo.relations.map relationToJson)),
    ("reactions", .arr reactions)]

def memoMembers (memo : Api.Memo) (createTime updateTime : Json)
    (attachments reactions : List Json) : List (String × Json) :=
  implicitMembers memo createTime updateTime attachments reactions ++
    optionalField "property" (memo.property.map propertyToJson) ++
    optionalField "parent" (memo.parent.map .str) ++ [("snippet", .str memo.snippet)] ++
    optionalField "location" (memo.location.map (locationToJson double))

def memoToJson (memo : Api.Memo) : Option Json := do
  let createTime ← timestampToJson memo.createTime
  let updateTime ← timestampToJson memo.updateTime
  let attachments ← memo.attachments.mapM attachmentToJson
  let reactions ← memo.reactions.mapM reactionToJson
  return .obj (memoMembers double memo createTime updateTime attachments reactions)

def userToJson (user : MemoExportUser) : Json :=
  .obj [("name", .str user.name), ("username", .str user.username),
    ("displayName", .str user.displayName)]

def countsToJson (counts : MemoExportCounts) : Json :=
  .obj [("total", naturalToJson counts.total), ("normal", naturalToJson counts.normal),
    ("archived", naturalToJson counts.archived)]

def includedContentToJson (content : MemoExportContent) : Json :=
  .obj [("memoData", .bool content.memoData),
    ("attachmentMetadata", .bool content.attachmentMetadata),
    ("attachmentFiles", .bool content.attachmentFiles), ("comments", .bool content.comments),
    ("instanceSettings", .bool content.instanceSettings)]

def documentToJson (document : MemoExportDocumentV1) (memos : List Json) : Json :=
  .obj [("format", .str document.format), ("formatVersion", naturalToJson document.formatVersion),
    ("exportedAt", .str document.exportedAt), ("user", userToJson document.user),
    ("counts", countsToJson document.counts),
    ("includedContent", includedContentToJson document.includedContent), ("memos", .arr memos)]

def MemoExportFile.content (file : MemoExportFile) : Option String :=
  (file.document.memos.mapM (memoToJson double)).map fun memos =>
    String.ofList (Json.print 0 (documentToJson file.document memos) ++ ['\n'])

end document

end Memoark.Web
