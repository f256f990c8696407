import Memoark.Markdown.Mention
import Memoark.Markdown.Walk
import Memoark.Order.Selection
import Memoark.Store.Tables

/-! What `markdown.go` extracts from a document: the tags, the properties, and both in one walk. -/
namespace Memoark.Markdown
open Store (MemoPayload.Property)

/-- The kinds of nodes that the walks tell apart, with what they read of them. -/
inductive Kind where
  | Document
  | Paragraph
  | Heading (level : Nat)
  | ListItem
  | TableHeader
  | TableRow
  | TableCell
  | CodeBlock
  | FencedCodeBlock
  | CodeSpan
  | Link
  | Image
  | AutoLink (url : String)
  | Text (segment : String) (softLineBreak : Bool)
  | TaskCheckBox (isChecked : Bool)
  | Tag (tag : String)
  | Mention (username : String)
  | Other
  deriving DecidableEq

/-- The markdown service, which parses with goldmark. -/
structure Service where
  parse : String → Node Kind

section extraction

def isTagNodeInLinkOrImage (ancestors : List Kind) : Bool :=
  ancestors.any fun parent => parent = .Link ∨ parent = .Image

def asMemoTagNode (ancestors : List Kind) (n : Node Kind) : Option String :=
  match n.kind with
  | .Tag tag => if isTagNodeInLinkOrImage ancestors then none else some tag
  | _ => none

def uniquePreserveCase (strs : List String) : List String :=
  strs.foldl (fun result s => if s ∈ result then result else result ++ [s]) []

def tagWalker : Walker Kind (List String) := fun ancestors n entering tags =>
  if !entering then (tags, .WalkContinue)
  else
    match asMemoTagNode ancestors n with
    | some tag => (tags ++ [tag], .WalkContinue)
    | none => (tags, .WalkContinue)

def Service.extractTags (service : Service) (content : String) : List String :=
  uniquePreserveCase (walk tagWalker [] [] (service.parse content)).1

mutual

def extractTextFromNode : Node Kind → String
  | .node (.Text segment _) _ => segment
  | .node _ children => extractTextFromNodes children

def extractTextFromNodes : List (Node Kind) → String
  | [] => ""
  | n :: ns => extractTextFromNode n ++ extractTextFromNodes ns

end

def extractHeadingText (n : Node Kind) : String := extractTextFromNodes n.children

def isTopLevel (ancestors : List Kind) : Bool := ancestors.head? = some .Document

structure PropertyWalk where
  prop : MemoPayload.Property
  firstBlockChecked : Bool

def emptyProperty : MemoPayload.Property := ⟨false, false, false, false, ""⟩

def propertyWalker : Walker Kind PropertyWalk := fun ancestors n entering s =>
  if !entering then (s, .WalkContinue)
  else
    -- The first block of the document gives the title if it is an H1 heading.
    let s : PropertyWalk :=
      if !s.firstBlockChecked && isTopLevel ancestors then
        { prop :=
            if n.kind = .Heading 1 then { s.prop with title := extractHeadingText n } else s.prop
          firstBlockChecked := true }
      else s
    let prop :=
      match n.kind with
      | .Link => { s.prop with hasLink := true }
      | .CodeBlock | .FencedCodeBlock | .CodeSpan => { s.prop with hasCode := true }
      | .TaskCheckBox isChecked =>
        let prop := { s.prop with hasTaskList := true }
        if !isChecked then { prop with hasIncompleteTasks := true } else prop
      | _ => s.prop
    ({ s with prop }, .WalkContinue)

def Service.extractProperties (service : Service) (content : String) : MemoPayload.Property :=
  (walk propertyWalker [] ⟨emptyProperty, false⟩ (service.parse content)).1.prop

structure ExtractedData where
  tags : List String
  mentions : List String
  property : MemoPayload.Property

structure ExtractWalk where
  data : ExtractedData
  firstBlockChecked : Bool

variable (U : Categories)

def extractWalker : Walker Kind ExtractWalk := fun ancestors n entering s =>
  if !entering then (s, .WalkContinue)
  else
    let data := s.data
    let data :=
      match asMemoTagNode ancestors n with
      | some tag => { data with tags := data.tags ++ [tag] }
      | none => data
    let data :=
      match n.kind with
      | .Mention username => { data with mentions := data.mentions ++ [toLower U username] }
      | _ => data
    let checked := !s.firstBlockChecked && isTopLevel ancestors
    let data :=
      if checked ∧ n.kind = .Heading 1 then
        { data with property := { data.property with title := extractHeadingText n } }
      else data
    let data :=
      match n.kind with
      | .Link => { data with property := { data.property with hasLink := true } }
      | .CodeBlock | .FencedCodeBlock | .CodeSpan =>
        { data with property := { data.property with hasCode := true } }
      | .TaskCheckBox isChecked =>
        let property := { data.property with hasTaskList := true }
        { data with
          property := if !isChecked then { property with hasIncompleteTasks := true } else property }
      | _ => data
    (⟨data, s.firstBlockChecked || checked⟩, .WalkContinue)

def Service.extractAll (service : Service) (content : String) : ExtractedData :=
  let data := (walk (extractWalker U) [] ⟨⟨[], [], emptyProperty⟩, false⟩ (service.parse content)).1.data
  { data with tags := uniquePreserveCase data.tags, mentions := uniquePreserveCase data.mentions }

end extraction

section visited

variable (U : Categories) (service : Service) (content : String)

def Service.visited : List (Visit Kind) := visits [] (service.parse content)

theorem tagWalker_enters : Enters tagWalker (onEnter tagWalker) := by
  apply enters_onEnter
  · intro ancestors n s
    unfold tagWalker
    cases asMemoTagNode ancestors n <;> rfl
  · intro ancestors n s
    rfl

theorem propertyWalker_enters : Enters propertyWalker (onEnter propertyWalker) :=
  enters_onEnter (fun _ _ _ => rfl) fun _ _ _ => rfl

theorem extractWalker_enters : Enters (extractWalker U) (onEnter (extractWalker U)) :=
  enters_onEnter (fun _ _ _ => rfl) fun _ _ _ => rfl

theorem extractTags_foldl : service.extractTags content =
    uniquePreserveCase ((service.visited content).foldl (onEnter tagWalker) []) := by
  unfold Service.extractTags
  rw [walk_eq_foldl tagWalker_enters]
  rfl

theorem extractProperties_foldl : service.extractProperties content =
    ((service.visited content).foldl (onEnter propertyWalker) ⟨emptyProperty, false⟩).prop := by
  unfold Service.extractProperties
  rw [walk_eq_foldl propertyWalker_enters]
  rfl

def walkedAll : ExtractWalk :=
  (service.visited content).foldl (onEnter (extractWalker U)) ⟨⟨[], [], emptyProperty⟩, false⟩

theorem extractAll_foldl : service.extractAll U content =
    { (walkedAll U service content).data with
      tags := uniquePreserveCase (walkedAll U service content).data.tags
      mentions := uniquePreserveCase (walkedAll U service content).data.mentions } := by
  unfold Service.extractAll
  rw [walk_eq_foldl (extractWalker_enters U)]
  rfl

theorem onEnter_tags (s : ExtractWalk) (v : Visit Kind) :
    (onEnter (extractWalker U) s v).data.tags = onEnter tagWalker s.data.tags v := by
  obtain ⟨ancestors, n⟩ := v
  unfold onEnter extractWalker tagWalker
  cases asMemoTagNode ancestors n <;> cases n.kind <;> simp <;> split <;> simp

theorem onEnter_property (s : ExtractWalk) (v : Visit Kind) :
    (⟨(onEnter (extractWalker U) s v).data.property,
      (onEnter (extractWalker U) s v).firstBlockChecked⟩ : PropertyWalk) =
      onEnter propertyWalker ⟨s.data.property, s.firstBlockChecked⟩ v := by
  obtain ⟨ancestors, n⟩ := v
  unfold onEnter extractWalker propertyWalker
  by_cases hchecked : (!s.firstBlockChecked && isTopLevel ancestors) = true
  · cases asMemoTagNode ancestors n <;> cases n.kind <;> simp [hchecked, apply_ite ExtractedData.property]
  · cases asMemoTagNode ancestors n <;> cases n.kind <;> simp [hchecked]

theorem foldl_tags (vs : List (Visit Kind)) (s : ExtractWalk) :
    (vs.foldl (onEnter (extractWalker U)) s).data.tags =
      vs.foldl (onEnter tagWalker) s.data.tags := by
  induction vs generalizing s with
  | nil => rfl
  | cons v vs ih => rw [List.foldl_cons, List.foldl_cons, ih, onEnter_tags]

theorem foldl_property (vs : List (Visit Kind)) (s : ExtractWalk) :
    (⟨(vs.foldl (onEnter (extractWalker U)) s).data.property,
      (vs.foldl (onEnter (extractWalker U)) s).firstBlockChecked⟩ : PropertyWalk) =
      vs.foldl (onEnter propertyWalker) ⟨s.data.property, s.firstBlockChecked⟩ := by
  induction vs generalizing s with
  | nil => rfl
  | cons v vs ih => rw [List.foldl_cons, List.foldl_cons, ih, onEnter_property]

/-- The one walk extracts what the two others do. -/
theorem extractAll_combines :
    (service.extractAll U content).tags = service.extractTags content ∧
      (service.extractAll U content).property = service.extractProperties content := by
  rw [extractAll_foldl, extractTags_foldl, extractProperties_foldl]
  constructor
  · exact congrArg uniquePreserveCase (foldl_tags U (service.visited content) _)
  · exact congrArg PropertyWalk.prop (foldl_property U (service.visited content) _)

def mentionOf (n : Node Kind) : Option String :=
  match n.kind with
  | .Mention username => some (toLower U username)
  | _ => none

def Service.mentioned : List String := (service.visited content).filterMap fun v => mentionOf U v.2

theorem mem_uniquePreserveCase {strs : List String} {s : String} :
    s ∈ uniquePreserveCase strs ↔ s ∈ strs := by
  have hmem := (Order.foldl_distinct strs List.nodup_nil).2 s
  unfold uniquePreserveCase
  rw [hmem]
  simp

theorem onEnter_mentions (s : ExtractWalk) (v : Visit Kind) :
    (onEnter (extractWalker U) s v).data.mentions =
      s.data.mentions ++ (mentionOf U v.2).toList := by
  obtain ⟨ancestors, n⟩ := v
  unfold onEnter extractWalker mentionOf
  cases asMemoTagNode ancestors n <;> cases n.kind <;> simp <;> split <;> simp

theorem extractAll_mentions : (service.extractAll U content).mentions =
    uniquePreserveCase (service.mentioned U content) := by
  have hfold : ∀ (vs : List (Visit Kind)) (s : ExtractWalk),
      (vs.foldl (onEnter (extractWalker U)) s).data.mentions =
        s.data.mentions ++ vs.filterMap fun v => mentionOf U v.2 := by
    intro vs
    induction vs with
    | nil => simp
    | cons v vs ih =>
      intro s
      rw [List.foldl_cons, ih, onEnter_mentions, List.append_assoc, List.filterMap_cons]
      cases mentionOf U v.2 <;> rfl
  rw [extractAll_foldl]
  exact congrArg uniquePreserveCase (hfold (service.visited content) _)

end visited

end Memoark.Markdown
