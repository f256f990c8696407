import Mathlib.Data.List.Chain
import Memoark.Markdown.Renderer
import Memoark.Markdown.Tag

/-! What the document that `RenameTag` prints is parsed to. -/
namespace Memoark.Markdown.Renderer

section spec

variable (oldTag newTag : List Char)

mutual

def retag : Node Kind → Node Kind
  | .node kind children =>
    .node (if kind = .Tag oldTag then .Tag newTag else kind) (retagChildren children)

def retagChildren : List (Node Kind) → List (Node Kind)
  | [] => []
  | n :: ns => retag n :: retagChildren ns

end

end spec

section grammar

inductive Span where
  | code | emphasis | strong | strikethrough
  | link (destination : List Char)
  | image (destination : List Char)

inductive Inline where
  | text (segment : List Char)
  | tag (name : List Char)
  | span (kind : Span) (segment : List Char)

inductive Block where
  | paragraph (lines : List (List Inline))
  | heading (level : Nat) (line : List Inline)
  | thematicBreak
  | fencedCode (language : List Char) (lines : List (List Char))
  /-- The items with their checkboxes; an ordered list has a start. -/
  | list (start : Option Nat) (items : List (Option Bool × List Inline))
  | htmlComment (comment : List Char)

def Span.opening : Span → List Char
  | code => ['`']
  | emphasis => ['*']
  | strong => ['*', '*']
  | strikethrough => ['~', '~']
  | link _ => ['[']
  | image _ => ['!', '[']

def Span.closing : Span → List Char
  | code => ['`']
  | emphasis => ['*']
  | strong => ['*', '*']
  | strikethrough => ['~', '~']
  | link destination | image destination => [']', '('] ++ destination ++ [')']

def Inline.source : Inline → List Char
  | text segment => segment
  | tag name => '#' :: name
  | span kind segment => kind.opening ++ segment ++ kind.closing

def spell (line : List Inline) : List Char := line.flatMap Inline.source

def marker (start : Option Nat) (index : Nat) : List Char :=
  match start with
  | some first => (toString (first + index)).toList ++ ['.', ' ']
  | none => ['-', ' ']

def checkbox : Option Bool → List Char
  | some true => ['[', 'x', ']', ' ']
  | some false => ['[', ' ', ']', ' ']
  | none => []

def itemLines (start : Option Nat) (index : Nat) : List (Option Bool × List Inline) →
    List (List Char)
  | [] => []
  | item :: items =>
    (marker start index ++ checkbox item.1 ++ spell item.2) :: itemLines start (index + 1) items

def Block.lines : Block → List (List Char)
  | paragraph lines => lines.map spell
  | heading level line => [List.replicate level '#' ++ ' ' :: spell line]
  | thematicBreak => [['-', '-', '-']]
  | fencedCode language lines => (['`', '`', '`'] ++ language) :: lines ++ [['`', '`', '`']]
  | list start items => itemLines start 0 items
  | htmlComment comment => [['<', '!', '-', '-', ' '] ++ comment ++ [' ', '-', '-', '>']]

def Block.text (block : Block) : List Char := ['\n'].intercalate block.lines

def document (blocks : List Block) : List Char := ['\n', '\n'].intercalate (blocks.map Block.text)

end grammar

section renamed

variable (oldTag newTag : List Char)

def Inline.renamed : Inline → Inline
  | .tag name => .tag (if name = oldTag then newTag else name)
  | part => part

def renamedLine (line : List Inline) : List Inline := line.map (Inline.renamed oldTag newTag)

def Block.renamed : Block → Block
  | paragraph lines => paragraph (lines.map (renamedLine oldTag newTag))
  | heading level line => heading level (renamedLine oldTag newTag line)
  | list start items =>
    list start (items.map fun item => (item.1, renamedLine oldTag newTag item.2))
  | block => block

end renamed

section trees

variable (U : Categories)

def textNode (segment : List Char) : Node Kind := .node (.Text segment false false) []

def Span.node : Span → Kind
  | code => .CodeSpan
  | emphasis => .Emphasis 1
  | strong => .Emphasis 2
  | strikethrough => .Strikethrough
  | link destination => .Link destination []
  | image destination => .Image destination []

/-- The node at a `#` is what the tag parser reads there. -/
def tagNode (name rest : List Char) : Node Kind :=
  match parseTag U none ('#' :: (name ++ rest)) with
  | some (tag, _) => .node (.Tag tag.toList) []
  | none => textNode ('#' :: name)

def Inline.node (rest : List Char) : Inline → Node Kind
  | text segment => textNode segment
  | tag name => tagNode U name rest
  | span kind segment => .node kind.node [textNode segment]

def lineNodes : List Inline → List (Node Kind)
  | [] => []
  | part :: line => part.node U (spell line) :: lineNodes line

def softLineBreak : Node Kind := .node (.Text [] true false) []

def paragraphNodes (lines : List (List Inline)) : List (Node Kind) :=
  [softLineBreak].intercalate (lines.map (lineNodes U))

def checkboxNodes (isChecked : Option Bool) : List (Node Kind) :=
  isChecked.toList.map fun isChecked => .node (.TaskCheckBox isChecked) []

def itemNode (item : Option Bool × List Inline) : Node Kind :=
  .node .ListItem [.node .TextBlock (checkboxNodes item.1 ++ lineNodes U item.2)]

def Block.node : Block → Node Kind
  | paragraph lines => .node .Paragraph (paragraphNodes U lines)
  | heading level line => .node (.Heading level) (lineNodes U line)
  | thematicBreak => .node .ThematicBreak []
  | fencedCode language lines => .node (.FencedCodeBlock language (lines.map (· ++ ['\n']))) []
  | list start items => .node (.List start.isSome (start.getD 0)) (items.map (itemNode U))
  | htmlComment _ => .node .HTMLBlock []

def tree (blocks : List Block) : Node Kind := .node .Document (blocks.map (Block.node U))

end trees

section wellFormed

variable (U : Categories)

def isPlain (c : Char) : Bool := U.letter c || c.isDigit || c = ' '

def Span.allows : Span → Char → Bool
  | code, c => !(c = '`' || c = '\n' || c = '\r')
  | _, c => isPlain U c

def isDestination (c : Char) : Bool := c.isAlphanum || c = ':' || c = '/' || c = '.' || c = '-'

structure IsTag (tag : List Char) : Prop where
  ne_nil : tag ≠ []
  valid : ∀ c ∈ tag, isValidTagRune U c = true
  length_le : tag.length ≤ maxTagLength

def Span.WellFormed : Span → Prop
  | link destination | image destination =>
    destination ≠ [] ∧ ∀ c ∈ destination, isDestination c = true
  | _ => True

def Inline.WellFormed : Inline → Prop
  | text segment => segment ≠ [] ∧ ∀ c ∈ segment, isPlain U c = true
  | tag name => IsTag U name
  | span kind segment => kind.WellFormed ∧ (segment ≠ [] ∧ ∀ c ∈ segment, kind.allows U c = true) ∧
    segment.head? ≠ some ' ' ∧ segment.getLast? ≠ some ' '

/-- A tag stands before a character that no tag has, and no delimiters meet. -/
def Follows : Inline → Inline → Prop
  | .text _, .text _ | .span _ _, .span _ _ => False
  | .tag _, part => ∀ c, part.source.head? = some c → isValidTagRune U c = false
  | _, _ => True

structure IsLine (line : List Inline) : Prop where
  ne_nil : line ≠ []
  parts : ∀ part ∈ line, part.WellFormed U
  chain : line.IsChain (Follows U)
  first : ∀ segment, line.head? = some (.text segment) → segment.head? ≠ some ' '
  last : ∀ segment, line.getLast? = some (.text segment) → segment.getLast? ≠ some ' '

structure IsItem (line : List Inline) : Prop extends IsLine U line where
  not_checkbox : ∀ kind segment, line.head? = some (.span kind segment) →
    segment ≠ ['x'] ∧ segment ≠ ['X']

def Block.WellFormed : Block → Prop
  | paragraph lines => lines ≠ [] ∧ ∀ line ∈ lines, IsLine U line
  | heading level line => (1 ≤ level ∧ level ≤ 6) ∧ IsLine U line
  | thematicBreak => True
  | fencedCode language lines => (∀ c ∈ language, c.isAlpha = true) ∧
    ∀ line ∈ lines, line ≠ [] ∧ ∀ c ∈ line, c ∉ ['`', '\n', '\r']
  | list start items => items ≠ [] ∧ (∀ item ∈ items, IsItem U item.2) ∧
    start.getD 0 + items.length ≤ 1000000000
  | htmlComment comment => ∀ c ∈ comment, c.isAlphanum = true ∨ c = ' '

def Block.isHtml : Block → Bool
  | htmlComment _ => true
  | _ => false

def Block.isOrdered : Block → Option Bool
  | list start _ => some start.isSome
  | _ => none

def Separate (block next : Block) : Prop :=
  block.isOrdered = none ∨ block.isOrdered ≠ next.isOrdered

/-- Well-formed blocks, of which no two make one list, nor would if a comment between them was
left out. -/
structure IsDocument (blocks : List Block) : Prop where
  wellFormed : ∀ block ∈ blocks, block.WellFormed U
  separate : (blocks.filter fun block => !block.isHtml).IsChain Separate

/-- What is documented of a parser of Markdown that knows some kinds of these blocks: it reads each,
between empty lines, as what it is, with whatever tags, and ignores empty lines at the end. -/
structure Documented (knows : Block → Prop) (parse : List Char → Node Kind) : Prop where
  reads : ∀ blocks, IsDocument U blocks → (∀ block ∈ blocks, knows block) →
    parse (document blocks) = tree U blocks
  ignores : ∀ blocks, IsDocument U blocks → (∀ block ∈ blocks, knows block) →
    parse (document blocks ++ ['\n', '\n']) = tree U blocks
  tags : ∀ block oldTag newTag, knows block → knows (block.renamed oldTag newTag)

end wellFormed

section lines

variable {U : Categories}

@[simp] theorem spell_nil : spell [] = [] := rfl

@[simp] theorem spell_cons (part : Inline) (line : List Inline) :
    spell (part :: line) = part.source ++ spell line := rfl

@[simp] theorem spell_append (line line' : List Inline) :
    spell (line ++ line') = spell line ++ spell line' := List.flatMap_append

def Inline.tree : Inline → Node Kind
  | text segment => textNode segment
  | tag name => .node (.Tag name) []
  | span kind segment => .node kind.node [textNode segment]

def Parts (U : Categories) (line : List Inline) : Prop :=
  (∀ part ∈ line, part.WellFormed U) ∧ line.IsChain (Follows U)

theorem IsLine.toParts {line : List Inline} (h : IsLine U line) : Parts U line := ⟨h.parts, h.chain⟩

theorem Parts.tail {part : Inline} {line : List Inline} (h : Parts U (part :: line)) :
    Parts U line :=
  ⟨fun part hpart => h.1 part (List.mem_cons_of_mem _ hpart), h.2.tail⟩

end lines

section renamed

variable {U : Categories} {oldTag newTag : List Char}

theorem head?_source_renamed (part : Inline) :
    (part.renamed oldTag newTag).source.head? = part.source.head? := by
  cases part <;> rfl

theorem Inline.WellFormed.renamed (hnew : IsTag U newTag) {part : Inline} (h : part.WellFormed U) :
    (part.renamed oldTag newTag).WellFormed U := by
  cases part with
  | tag name =>
    show IsTag U (if name = oldTag then newTag else name)
    split
    · exact hnew
    · exact h
  | text segment => exact h
  | span kind segment => exact h

theorem Follows.renamed {part next : Inline} (h : Follows U part next) :
    Follows U (part.renamed oldTag newTag) (next.renamed oldTag newTag) := by
  cases part with
  | tag name =>
    intro c hc
    rw [head?_source_renamed] at hc
    cases next <;> exact h c hc
  | text segment => cases next <;> exact h
  | span kind segment => cases next <;> exact h

theorem renamed_eq_of_ne_tag {part part' : Inline} (h : part.renamed oldTag newTag = part')
    (hpart : ∀ name, part' ≠ .tag name) : part = part' := by
  cases part with
  | tag name => exact absurd h.symm (hpart _)
  | text segment => exact h
  | span kind segment => exact h

theorem renamedLine_end {part : Option Inline} {part' : Inline}
    (h : part.map (Inline.renamed oldTag newTag) = some part') (hpart : ∀ name, part' ≠ .tag name) :
    part = some part' := by
  obtain ⟨part, rfl, hrenamed⟩ := Option.map_eq_some_iff.mp h
  rw [renamed_eq_of_ne_tag hrenamed hpart]

theorem Parts.renamed (hnew : IsTag U newTag) {line : List Inline} (h : Parts U line) :
    Parts U (renamedLine oldTag newTag line) := by
  constructor
  · intro part hpart
    obtain ⟨part, hmem, rfl⟩ := List.mem_map.mp hpart
    exact (h.1 part hmem).renamed hnew
  · exact (List.isChain_map _).mpr (h.2.imp fun _ _ => Follows.renamed)

theorem IsLine.renamed (hnew : IsTag U newTag) {line : List Inline} (h : IsLine U line) :
    IsLine U (renamedLine oldTag newTag line) where
  ne_nil hnil := h.ne_nil (List.map_eq_nil_iff.mp hnil)
  parts := (h.toParts.renamed hnew).1
  chain := (h.toParts.renamed hnew).2
  first segment hsegment := by
    rw [renamedLine, List.head?_map] at hsegment
    exact h.first segment (renamedLine_end hsegment fun _ => Inline.noConfusion)
  last segment hsegment := by
    rw [renamedLine, List.getLast?_map] at hsegment
    exact h.last segment (renamedLine_end hsegment fun _ => Inline.noConfusion)

theorem IsItem.renamed (hnew : IsTag U newTag) {line : List Inline} (h : IsItem U line) :
    IsItem U (renamedLine oldTag newTag line) where
  toIsLine := h.toIsLine.renamed hnew
  not_checkbox kind segment hsegment := by
    rw [renamedLine, List.head?_map] at hsegment
    exact h.not_checkbox kind segment (renamedLine_end hsegment fun _ => Inline.noConfusion)

theorem Block.WellFormed.renamed (hnew : IsTag U newTag) {block : Block} (h : block.WellFormed U) :
    (block.renamed oldTag newTag).WellFormed U := by
  cases block with
  | paragraph lines =>
    refine ⟨fun hnil => h.1 (List.map_eq_nil_iff.mp hnil), fun line hline => ?_⟩
    obtain ⟨line, hmem, rfl⟩ := List.mem_map.mp hline
    exact (h.2 line hmem).renamed hnew
  | heading level line => exact ⟨h.1, h.2.renamed hnew⟩
  | thematicBreak => exact h
  | fencedCode language lines => exact h
  | list start items =>
    refine ⟨fun hnil => h.1 (List.map_eq_nil_iff.mp hnil), fun item hitem => ?_, ?_⟩
    · obtain ⟨item, hmem, rfl⟩ := List.mem_map.mp hitem
      exact (h.2.1 item hmem).renamed hnew
    · rw [List.length_map]
      exact h.2.2
  | htmlComment comment => exact h

end renamed

section nodes

variable {U : Categories} {oldTag newTag : List Char}

theorem retagChildren_eq_map (ns : List (Node Kind)) :
    retagChildren oldTag newTag ns = ns.map (retag oldTag newTag) := by
  induction ns with
  | nil => rfl
  | cons n ns ih => rw [retagChildren, ih, List.map_cons]

theorem renameChildren_eq_map (ancestors : List Kind) (ns : List (Node Kind)) :
    renameChildren oldTag newTag ancestors ns = ns.map (renameNodes oldTag newTag ancestors) := by
  induction ns with
  | nil => rfl
  | cons n ns ih => rw [renameChildren, ih, List.map_cons]

def RenamedTo (oldTag newTag : List Char) (ns ns' : List (Node Kind)) : Prop :=
  ns.map (retag oldTag newTag) = ns' ∧ ∀ ancestors, isTagNodeInLinkOrImage ancestors = false →
    ns.map (renameNodes oldTag newTag ancestors) = ns'

theorem RenamedTo.append {ns ns' ms ms' : List (Node Kind)} (hn : RenamedTo oldTag newTag ns ns')
    (hm : RenamedTo oldTag newTag ms ms') : RenamedTo oldTag newTag (ns ++ ms) (ns' ++ ms') := by
  refine ⟨?_, fun ancestors h => ?_⟩
  · rw [List.map_append, hn.1, hm.1]
  · rw [List.map_append, hn.2 ancestors h, hm.2 ancestors h]

theorem RenamedTo.map {α : Type} {xs : List α} {node node' : α → Node Kind}
    (h : ∀ x ∈ xs, RenamedTo oldTag newTag [node x] [node' x]) :
    RenamedTo oldTag newTag (xs.map node) (xs.map node') := by
  induction xs with
  | nil => exact ⟨rfl, fun _ _ => rfl⟩
  | cons x xs ih =>
    exact (h x List.mem_cons_self).append (ih fun y hy => h y (List.mem_cons_of_mem x hy))

def isKept : Kind → Bool
  | .Link _ _ | .Image _ _ | .Tag _ => false
  | _ => true

theorem RenamedTo.node {kind : Kind} {ns ns' : List (Node Kind)}
    (h : RenamedTo oldTag newTag ns ns') (hkind : isKept kind = true) :
    RenamedTo oldTag newTag [.node kind ns] [.node kind ns'] := by
  have hlink : kind.isLinkOrImage = false := by
    cases kind <;> first | rfl | cases hkind
  have htag : kind ≠ .Tag oldTag := by
    rintro rfl
    cases hkind
  have hrenamed : ∀ ancestors, renamedKind oldTag newTag ancestors kind = kind := by
    intro ancestors
    cases kind <;> first | rfl | cases hkind
  refine ⟨?_, fun ancestors hancestors => ?_⟩
  · rw [List.map_singleton, retag, retagChildren_eq_map, h.1, if_neg htag]
  · have hparent : isTagNodeInLinkOrImage (kind :: ancestors) = false := by
      rw [isTagNodeInLinkOrImage, List.any_cons, hlink, Bool.false_or]
      exact hancestors
    rw [List.map_singleton, renameNodes, renameChildren_eq_map, h.2 _ hparent, hrenamed]

end nodes

section printing

variable {U : Categories}

def Prints (ns : List (Node Kind)) (text : List Char) : Prop :=
  ∀ depth parent index rest, renderChildren depth parent index (ns ++ rest) =
    text ++ renderChildren depth parent (index + ns.length) rest

theorem Prints.append {ns ms : List (Node Kind)} {text text' : List Char} (hn : Prints ns text)
    (hm : Prints ms text') : Prints (ns ++ ms) (text ++ text') := by
  intro depth parent index rest
  rw [List.append_assoc, hn, hm, List.append_assoc, List.length_append, Nat.add_assoc]

theorem prints_node {n : Node Kind} {text : List Char}
    (h : ∀ depth parent index hasNext, renderNode depth parent index hasNext n = text) :
    Prints [n] text := by
  intro depth parent index rest
  rw [List.singleton_append, renderChildren, h]
  rfl

theorem Prints.renderChildren {ns : List (Node Kind)} {text : List Char} (h : Prints ns text)
    (depth : Nat) (parent : Option Kind) : renderChildren depth parent 0 ns = text := by
  have hns := h depth parent 0 []
  rwa [List.append_nil, Renderer.renderChildren, List.append_nil] at hns

theorem Prints.node {kind : Kind} {ns : List (Node Kind)} {text : List Char} (h : Prints ns text)
    (hkind : ∀ depth parent index hasNext,
      renderKind depth parent index hasNext text kind = text) : Prints [.node kind ns] text :=
  prints_node fun _ _ _ _ => by rw [renderNode, h.renderChildren, hkind]

end printing

section flat

variable (U : Categories)

variable {U}

end flat

section roundTrip

variable {U : Categories} {knows : Block → Prop} {parse : List Char → Node Kind}
  {oldTag newTag : List Char}

theorem isHtml_renamed (block : Block) :
    (block.renamed oldTag newTag).isHtml = block.isHtml := by
  cases block <;> rfl

theorem isOrdered_renamed (block : Block) :
    (block.renamed oldTag newTag).isOrdered = block.isOrdered := by
  cases block <;> rfl

theorem IsDocument.renamed (hnew : IsTag U newTag) {blocks : List Block}
    (h : IsDocument U blocks) : IsDocument U (blocks.map (Block.renamed oldTag newTag)) where
  wellFormed block hblock := by
    obtain ⟨block, hmem, rfl⟩ := List.mem_map.mp hblock
    exact (h.wellFormed block hmem).renamed hnew
  separate := by
    have hhtml : (fun block : Block => !block.isHtml) ∘ Block.renamed oldTag newTag =
        fun block => !block.isHtml :=
      funext fun block => congrArg Bool.not (isHtml_renamed block)
    rw [List.filter_map, hhtml]
    refine (List.isChain_map _).mpr (h.separate.imp fun block next hseparate => ?_)
    rwa [Separate, isOrdered_renamed, isOrdered_renamed]

end roundTrip

end Memoark.Markdown.Renderer
