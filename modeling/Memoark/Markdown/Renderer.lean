import Mathlib.Data.List.DropRight
import Memoark.Markdown.Walk

/-! The printer of `renderer/markdown_renderer.go`, and `RenameTag` of `markdown.go` over it. -/
namespace Memoark.Markdown.Renderer

/-- The kinds of nodes, with what the printer reads of them. The text of the source that a node
refers to is in the node. Text nodes in a row are one, but for a line break, which is a text node of
its own. -/
inductive Kind where
  | Document
  | Paragraph
  | Text (segment : List Char) (softLineBreak hardLineBreak : Bool)
  | CodeSpan
  | Emphasis (level : Nat)
  | Link (destination title : List Char)
  | AutoLink (url : List Char) (isEmail : Bool)
  | Image (destination title : List Char)
  | Heading (level : Nat)
  | CodeBlock (lines : List (List Char))
  | FencedCodeBlock (language : List Char) (lines : List (List Char))
  | Blockquote
  | List (isOrdered : Bool) (start : Nat)
  | ListItem
  | ThematicBreak
  | Strikethrough
  | TaskCheckBox (isChecked : Bool)
  | Table
  | Tag (tag : List Char)
  | Mention (username : List Char)
  | TextBlock
  | TableHeader
  | TableRow
  | TableCell
  | HTMLBlock
  | RawHTML
  deriving DecidableEq

section source

/-- What separates a block from its next sibling. -/
def blankLine (hasNext : Bool) : List Char := if hasNext then ['\n', '\n'] else []

def renderTarget (destination title : List Char) : List Char :=
  [']', '('] ++ destination ++
    (if title = [] then [] else [' ', '"'] ++ title ++ ['"']) ++ [')']

def renderBlockquote (content : List Char) : List Char :=
  ['\n'].intercalate (((content.rdropWhile (· = '\n')).splitOn '\n').map (['>', ' '] ++ ·))

/-- An item of an ordered list counts the `Start` of the list up, `index` times before this one. -/
def renderListItem (depth : Nat) (parent : Option Kind) (index : Nat) (hasNext : Bool)
    (content : List Char) : List Char :=
  match parent with
  | some (.List isOrdered start) =>
    (if 2 < depth then List.replicate (2 * (depth - 2)) ' ' else []) ++
      (if isOrdered then (toString (start + index)).toList ++ ['.', ' '] else ['-', ' ']) ++
      content ++ if hasNext then ['\n'] else []
  | _ => content

/-- The children of a table are rendered as if it were the document. -/
def childDepth (depth : Nat) : Kind → Nat
  | .Table => 1
  | _ => depth + 1

/-- A node with what its children are rendered to. -/
def renderKind (depth : Nat) (parent : Option Kind) (index : Nat) (hasNext : Bool)
    (content : List Char) : Kind → List Char
  | .Paragraph | .List _ _ | .Table => content ++ blankLine hasNext
  | .Text segment softLineBreak hardLineBreak =>
    segment ++ if softLineBreak then ['\n'] else if hardLineBreak then [' ', ' ', '\n'] else []
  | .CodeSpan => '`' :: content ++ ['`']
  | .Emphasis level =>
    let symbol := if level = 2 then ['*', '*'] else ['*']
    symbol ++ content ++ symbol
  | .Link destination title => '[' :: content ++ renderTarget destination title
  | .AutoLink url isEmail => if isEmail then '<' :: url ++ ['>'] else url
  | .Image destination title => ['!', '['] ++ content ++ renderTarget destination title
  | .Heading level => List.replicate level '#' ++ ' ' :: content ++ blankLine hasNext
  | .CodeBlock lines =>
    lines.flatMap ([' ', ' ', ' ', ' '] ++ ·) ++ blankLine hasNext
  | .FencedCodeBlock language lines =>
    ['`', '`', '`'] ++ language ++ '\n' :: lines.flatten ++ ['`', '`', '`'] ++ blankLine hasNext
  | .Blockquote => renderBlockquote content ++ blankLine hasNext
  | .ListItem => renderListItem depth parent index hasNext content
  | .ThematicBreak => ['-', '-', '-'] ++ blankLine hasNext
  | .Strikethrough => ['~', '~'] ++ content ++ ['~', '~']
  | .TaskCheckBox isChecked => if isChecked then ['[', 'x', ']', ' '] else ['[', ' ', ']', ' ']
  | .Tag tag => '#' :: tag
  | .Mention username => '@' :: username
  -- The other nodes are not known: only their children are rendered.
  | _ => content

mutual

/-- `renderNode`, for the child of a parent that has so many siblings before it. -/
def renderNode (depth : Nat) (parent : Option Kind) (index : Nat) (hasNext : Bool) :
    Node Kind → List Char
  | .node kind children =>
    renderKind depth parent index hasNext
      (renderChildren (childDepth depth kind) (some kind) 0 children) kind

def renderChildren (depth : Nat) (parent : Option Kind) (index : Nat) :
    List (Node Kind) → List Char
  | [] => []
  | n :: ns =>
    renderNode depth parent index (!ns.isEmpty) n ++ renderChildren depth parent (index + 1) ns

end

def render (root : Node Kind) : List Char := renderNode 0 none 0 false root

def Kind.isLinkOrImage : Kind → Bool
  | .Link _ _ | .Image _ _ => true
  | _ => false

def isTagNodeInLinkOrImage (ancestors : List Kind) : Bool := ancestors.any (·.isLinkOrImage)

variable (oldTag newTag : List Char)

def renamedKind (ancestors : List Kind) : Kind → Kind
  | .Tag tag =>
    if !isTagNodeInLinkOrImage ancestors ∧ tag = oldTag then .Tag newTag else .Tag tag
  | kind => kind

mutual

/-- The walk of `RenameTag`, which changes the nodes that it enters. -/
def renameNodes (ancestors : List Kind) : Node Kind → Node Kind
  | .node kind children =>
    .node (renamedKind oldTag newTag ancestors kind) (renameChildren (kind :: ancestors) children)

def renameChildren (ancestors : List Kind) : List (Node Kind) → List (Node Kind)
  | [] => []
  | n :: ns => renameNodes ancestors n :: renameChildren ancestors ns

end

end source

end Memoark.Markdown.Renderer
