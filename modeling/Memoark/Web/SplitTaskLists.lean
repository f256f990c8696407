import Mathlib.Logic.Basic

/-! The plugin that splits the lists of a Markdown tree in which task items and regular items are
mixed (`remark-split-mixed-task-lists.ts`). -/
namespace Memoark.Web.SplitTaskLists

structure ListAttrs where
  ordered : Bool
  start : Option Int

mutual
/-- A node of an mdast tree, which is a list or has other data and children. -/
inductive Node (α : Type) where
  | list (attrs : ListAttrs) (spread : Option Bool) (items : List (Item α))
  | other (data : α) (children : List (Node α))
inductive Item (α : Type) where
  | mk (checked : Option Bool) (spread : Option Bool) (children : List (Node α))
end

variable {α : Type}

namespace Item

def checked : Item α → Option Bool
  | .mk c _ _ => c

def spread : Item α → Option Bool
  | .mk _ s _ => s

def children : Item α → List (Node α)
  | .mk _ _ cs => cs

end Item

section plugin

def isTaskItem (item : Item α) : Bool := item.checked.isSome

def isSingleBlockItem (item : Item α) : Bool := item.children.length ≤ 1

def hasLooseBlockItem (item : Item α) : Bool := !isSingleBlockItem item && item.spread = some true

def normalizeSplitListItems (items : List (Item α)) : List (Item α) :=
  items.map fun item =>
    if isSingleBlockItem item then .mk item.checked (some false) item.children else item

structure Group (α : Type) where
  isTaskGroup : Bool
  items : List (Item α)

def addToGroups (groups : List (Group α)) (item : Item α) : List (Group α) :=
  match groups.getLast? with
  | some previous =>
    if previous.isTaskGroup = isTaskItem item then
      groups.dropLast ++ [{ previous with items := previous.items ++ [item] }]
    else groups ++ [⟨isTaskItem item, [item]⟩]
  | none => groups ++ [⟨isTaskItem item, [item]⟩]

def Mixed (items : List (Item α)) : Prop :=
  (items.any isTaskItem && items.any fun item => !isTaskItem item) = true

instance (items : List (Item α)) : Decidable (Mixed items) := inferInstanceAs (Decidable (_ = true))

def splitMixedList (attrs : ListAttrs) (spread : Option Bool) (items : List (Item α)) :
    List (Node α) :=
  if Mixed items then
    (items.foldl addToGroups []).map fun group =>
      let children := normalizeSplitListItems group.items
      .list attrs (some (children.any hasLooseBlockItem)) children
  else [.list attrs spread items]

def splitLists : Node α → List (Node α)
  | .list attrs spread items => splitMixedList attrs spread items
  | .other data children => [.other data children]

mutual
def splitInside : Node α → Node α
  | .list attrs spread items => .list attrs spread (splitItems items)
  | .other data children => .other data (splitMixedTaskListsInParent [] children)
def splitMixedTaskListsInParent (passed : List (Node α)) : List (Node α) → List (Node α)
  | [] => passed
  | child :: rest =>
    let child := splitInside child
    let lists := splitLists child
    splitMixedTaskListsInParent (passed ++ if 1 < lists.length then lists else [child]) rest
def splitItems : List (Item α) → List (Item α)
  | [] => []
  | .mk checked spread children :: items =>
    .mk checked spread (splitMixedTaskListsInParent [] children) :: splitItems items
end

def remarkSplitMixedTaskLists (tree : List (Node α)) : List (Node α) :=
  splitMixedTaskListsInParent [] tree

end plugin

section outlines

/-- What is left of a tree without the lists around its items, which keep their numbers. -/
inductive Outline (α : Type) where
  | item (ordinal : Option Int) (checked : Option Bool) (contents : List (Outline α))
  | other (data : α) (contents : List (Outline α))

def firstOrdinal (attrs : ListAttrs) : Option Int :=
  if attrs.ordered then some (attrs.start.getD 1) else none

mutual
def outline (first : ListAttrs → Option Int) : List (Node α) → List (Outline α)
  | [] => []
  | .list attrs _ items :: rest => outlineItems first (first attrs) items ++ outline first rest
  | .other data children :: rest => .other data (outline first children) :: outline first rest
def outlineItems (first : ListAttrs → Option Int) (ordinal : Option Int) :
    List (Item α) → List (Outline α)
  | [] => []
  | .mk checked _ children :: items =>
    .item ordinal checked (outline first children) ::
      outlineItems first (ordinal.map (· + 1)) items
end

mutual
def AllLists (C : ListAttrs → List (Item α) → Prop) : List (Node α) → Prop
  | [] => True
  | .list attrs _ items :: rest => C attrs items ∧ AllListsIn C items ∧ AllLists C rest
  | .other _ children :: rest => AllLists C children ∧ AllLists C rest
def AllListsIn (C : ListAttrs → List (Item α) → Prop) : List (Item α) → Prop
  | [] => True
  | .mk _ _ children :: items => AllLists C children ∧ AllListsIn C items
end

structure KeepsLists (tree split : List (Node α)) : Prop where
  unmixed : AllLists (fun _ items => ¬Mixed items) split
  items : outline (fun _ => none) split = outline (fun _ => none) tree
  ordinals : outline firstOrdinal split = outline firstOrdinal tree
  again : remarkSplitMixedTaskLists split = split

end outlines

section induction

structure Preserved (P : List (Node α) → Prop) (Q : List (Item α) → Prop) : Prop where
  nil : P []
  list : ∀ attrs spread items rest, Q items → P rest → P (.list attrs spread items :: rest)
  other : ∀ data children rest, P children → P rest → P (.other data children :: rest)
  noItems : Q []
  item : ∀ checked spread children items, P children → Q items →
    Q (.mk checked spread children :: items)

variable {P : List (Node α) → Prop} {Q : List (Item α) → Prop} (h : Preserved P Q)
include h

mutual
theorem nodes_induction : ∀ ns, P ns
  | [] => h.nil
  | .list attrs spread items :: rest =>
    h.list attrs spread items rest (items_induction items) (nodes_induction rest)
  | .other data children :: rest =>
    h.other data children rest (nodes_induction children) (nodes_induction rest)
theorem items_induction : ∀ items, Q items
  | [] => h.noItems
  | .mk checked spread children :: items =>
    h.item checked spread children items (nodes_induction children) (items_induction items)
end

theorem tree_induction : (∀ ns, P ns) ∧ ∀ items, Q items :=
  ⟨nodes_induction h, items_induction h⟩

end induction

section groups

variable {items : List (Item α)} {groups : List (Group α)}

structure Grouped (groups : List (Group α)) (items : List (Item α)) : Prop where
  flat : groups.flatMap (·.items) = items
  kind : ∀ group ∈ groups,
    group.items ≠ [] ∧ ∀ item ∈ group.items, isTaskItem item = group.isTaskGroup

theorem Grouped.addToGroups (h : Grouped groups items) (item : Item α) :
    Grouped (addToGroups groups item) (items ++ [item]) := by
  have hnew : Grouped (groups ++ [⟨isTaskItem item, [item]⟩]) (items ++ [item]) := by
    constructor
    · rw [List.flatMap_append, h.flat]
      rfl
    · intro group hgroup
      rcases List.mem_append.mp hgroup with hgroup | hgroup
      · exact h.kind group hgroup
      · rw [List.mem_singleton.mp hgroup]
        exact ⟨List.cons_ne_nil item [], fun i hi => by rw [List.mem_singleton.mp hi]⟩
  unfold SplitTaskLists.addToGroups
  cases hlast : groups.getLast? with
  | none => exact hnew
  | some previous =>
    dsimp only
    split
    · rename_i hkind
      obtain ⟨others, hgroups⟩ := List.getLast?_eq_some_iff.mp hlast
      rw [hgroups] at h
      rw [hgroups, List.dropLast_concat]
      constructor
      · have hflat := h.flat
        rw [List.flatMap_append, List.flatMap_singleton] at hflat
        rw [List.flatMap_append, List.flatMap_singleton, ← List.append_assoc, hflat]
      · intro group hgroup
        rcases List.mem_append.mp hgroup with hgroup | hgroup
        · exact h.kind group (List.mem_append_left _ hgroup)
        · rw [List.mem_singleton.mp hgroup]
          have hprevious : previous ∈ others ++ [previous] := by simp
          refine ⟨List.append_ne_nil_of_right_ne_nil _ (List.cons_ne_nil item []), fun i hi => ?_⟩
          rcases List.mem_append.mp hi with hi | hi
          · exact (h.kind previous hprevious).2 i hi
          · rw [List.mem_singleton.mp hi]
            exact hkind.symm
    · exact hnew

theorem grouped_foldl (items : List (Item α)) : Grouped (items.foldl addToGroups []) items := by
  have hrun : ∀ (rest : List (Item α)) {groups : List (Group α)} {before : List (Item α)},
      Grouped groups before → Grouped (rest.foldl addToGroups groups) (before ++ rest) := by
    intro rest
    induction rest with
    | nil =>
      intro groups before h
      rw [List.append_nil]
      exact h
    | cons item rest ih =>
      intro groups before h
      have hstep := ih (h.addToGroups item)
      rw [List.append_assoc] at hstep
      exact hstep
  exact hrun items ⟨rfl, fun group hgroup => absurd hgroup List.not_mem_nil⟩

theorem mixed_iff : Mixed items ↔
    (∃ item ∈ items, isTaskItem item = true) ∧ ∃ item ∈ items, isTaskItem item = false := by
  unfold Mixed
  rw [Bool.and_eq_true, List.any_eq_true, List.any_eq_true]
  simp only [Bool.not_eq_true']

theorem Grouped.two (h : Grouped groups items) (hmixed : Mixed items) :
    ∃ first second rest, groups = first :: second :: rest := by
  obtain ⟨⟨task, htask, hchecked⟩, regular, hregular, hunchecked⟩ := mixed_iff.mp hmixed
  cases groups with
  | nil =>
    rw [← h.flat] at htask
    cases htask
  | cons first groups =>
    cases groups with
    | cons second rest => exact ⟨first, second, rest, rfl⟩
    | nil =>
      have hflat := h.flat
      rw [List.flatMap_singleton] at hflat
      have hkind := (h.kind first List.mem_cons_self).2
      rw [hflat] at hkind
      have htrue := hkind task htask
      have hfalse := hkind regular hregular
      rw [hchecked] at htrue
      rw [hunchecked, ← htrue] at hfalse
      cases hfalse

def groupList (attrs : ListAttrs) (group : Group α) : Node α :=
  .list attrs (some ((normalizeSplitListItems group.items).any hasLooseBlockItem))
    (normalizeSplitListItems group.items)

theorem splitMixedList_cases (attrs : ListAttrs) (spread : Option Bool) (items : List (Item α)) :
    ¬Mixed items ∧ splitMixedList attrs spread items = [.list attrs spread items] ∨
      Mixed items ∧ ∃ first second rest, Grouped (first :: second :: rest) items ∧
        splitMixedList attrs spread items = (first :: second :: rest).map (groupList attrs) := by
  unfold splitMixedList
  by_cases hmixed : Mixed items
  · have hgrouped := grouped_foldl items
    obtain ⟨first, second, rest, hgroups⟩ := hgrouped.two hmixed
    rw [if_pos hmixed, hgroups]
    rw [hgroups] at hgrouped
    exact .inr ⟨hmixed, first, second, rest, hgrouped, rfl⟩
  · rw [if_neg hmixed]
    exact .inl ⟨hmixed, rfl⟩

end groups

section loop

variable {rest : List (Node α)}

theorem splitMixedTaskListsInParent_eq (passed ns : List (Node α)) :
    splitMixedTaskListsInParent passed ns = passed ++ splitMixedTaskListsInParent [] ns := by
  induction ns generalizing passed with
  | nil => simp [splitMixedTaskListsInParent]
  | cons n ns ih =>
    rw [splitMixedTaskListsInParent, splitMixedTaskListsInParent, ih, ih ([] ++ _)]
    simp

theorem split_cons (child : Node α) (rest : List (Node α)) :
    splitMixedTaskListsInParent [] (child :: rest) =
      splitLists (splitInside child) ++ splitMixedTaskListsInParent [] rest := by
  have hlists : (if 1 < (splitLists (splitInside child)).length then splitLists (splitInside child)
      else [splitInside child]) = splitLists (splitInside child) := by
    cases hinside : splitInside child with
    | other data children => rfl
    | list attrs spread items =>
      rw [splitLists]
      rcases splitMixedList_cases attrs spread items with
        ⟨-, heq⟩ | ⟨-, first, second, more, -, heq⟩
      · rw [heq]
        rfl
      · rw [heq]
        exact if_pos (by simp)
  rw [splitMixedTaskListsInParent, splitMixedTaskListsInParent_eq, hlists, List.nil_append]

theorem split_list (attrs : ListAttrs) (spread : Option Bool) (items : List (Item α)) :
    splitMixedTaskListsInParent [] (.list attrs spread items :: rest) =
      splitMixedList attrs spread (splitItems items) ++ splitMixedTaskListsInParent [] rest := by
  rw [split_cons, splitInside, splitLists]

theorem split_other (data : α) (children : List (Node α)) :
    splitMixedTaskListsInParent [] (.other data children :: rest) =
      .other data (splitMixedTaskListsInParent [] children) ::
        splitMixedTaskListsInParent [] rest := by
  rw [split_cons, splitInside, splitLists, List.singleton_append]

end loop

section lists

variable {C : ListAttrs → List (Item α) → Prop} {items : List (Item α)}

theorem allLists_list {attrs : ListAttrs} {spread : Option Bool} {rest : List (Node α)} :
    AllLists C (.list attrs spread items :: rest) ↔
      C attrs items ∧ AllListsIn C items ∧ AllLists C rest := by
  rw [AllLists]

theorem allLists_other {data : α} {children rest : List (Node α)} :
    AllLists C (.other data children :: rest) ↔ AllLists C children ∧ AllLists C rest := by
  rw [AllLists]

theorem allListsIn_cons {checked spread : Option Bool} {children : List (Node α)} :
    AllListsIn C (.mk checked spread children :: items) ↔
      AllLists C children ∧ AllListsIn C items := by
  rw [AllListsIn]

theorem allLists_of (h : ∀ attrs items, C attrs items) :
    (∀ tree, AllLists C tree) ∧ ∀ items, AllListsIn C items := by
  apply tree_induction
  constructor
  case nil => simp [AllLists]
  case noItems => simp [AllListsIn]
  case list =>
    intro attrs spread items rest hitems hrest
    exact allLists_list.mpr ⟨h attrs items, hitems, hrest⟩
  case other =>
    intro data children rest hchildren hrest
    exact allLists_other.mpr ⟨hchildren, hrest⟩
  case item =>
    intro checked spread children items hchildren hitems
    exact allListsIn_cons.mpr ⟨hchildren, hitems⟩

theorem allLists_append {xs ys : List (Node α)} :
    AllLists C (xs ++ ys) ↔ AllLists C xs ∧ AllLists C ys := by
  induction xs with
  | nil => simp [AllLists]
  | cons x xs ih =>
    cases x with
    | list attrs spread items => simp only [List.cons_append, allLists_list, ih, and_assoc]
    | other data children => simp only [List.cons_append, allLists_other, ih, and_assoc]

theorem allListsIn_iff : AllListsIn C items ↔ ∀ item ∈ items, AllLists C item.children := by
  induction items with
  | nil => simp [AllListsIn]
  | cons item items ih =>
    cases item with
    | mk checked spread children => simp [allListsIn_cons, ih, Item.children]

theorem mem_normalize {item : Item α} (h : item ∈ normalizeSplitListItems items) :
    ∃ before ∈ items, item.checked = before.checked ∧ item.children = before.children := by
  obtain ⟨before, hbefore, rfl⟩ := List.mem_map.mp h
  refine ⟨before, hbefore, ?_⟩
  by_cases hsingle : isSingleBlockItem before = true
  · simp [hsingle, Item.checked, Item.children]
  · simp [hsingle]

theorem Grouped.not_mixed {groups : List (Group α)} (h : Grouped groups items) {group : Group α}
    (hgroup : group ∈ groups) : ¬Mixed (normalizeSplitListItems group.items) := by
  intro hmixed
  obtain ⟨⟨task, htask, hchecked⟩, regular, hregular, hunchecked⟩ := mixed_iff.mp hmixed
  have hkind : ∀ item ∈ normalizeSplitListItems group.items,
      isTaskItem item = group.isTaskGroup := by
    intro item hitem
    obtain ⟨before, hbefore, heq, -⟩ := mem_normalize hitem
    have hbefore := (h.kind group hgroup).2 before hbefore
    unfold isTaskItem at hbefore ⊢
    rw [heq, hbefore]
  have htrue := hkind task htask
  have hfalse := hkind regular hregular
  rw [hchecked] at htrue
  rw [hunchecked, ← htrue] at hfalse
  cases hfalse

theorem splitMixedList_unmixed (attrs : ListAttrs) (spread : Option Bool)
    (h : AllListsIn (fun _ items => ¬Mixed items) items) :
    AllLists (fun _ items => ¬Mixed items) (splitMixedList attrs spread items) := by
  rcases splitMixedList_cases attrs spread items with
    ⟨hmixed, heq⟩ | ⟨-, first, second, rest, hgroups, heq⟩
  · rw [heq, allLists_list]
    exact ⟨hmixed, h, by simp [AllLists]⟩
  · rw [heq]
    have hlists : ∀ groups : List (Group α), (∀ group ∈ groups, group ∈ first :: second :: rest) →
        AllLists (fun _ items => ¬Mixed items) (groups.map (groupList attrs)) := by
      intro groups hsub
      induction groups with
      | nil => simp [AllLists]
      | cons group groups ih =>
        have hgroup := hsub group List.mem_cons_self
        rw [List.map_cons, groupList, allLists_list, allListsIn_iff]
        refine ⟨hgroups.not_mixed hgroup, ?_, ih fun g hg => hsub g (List.mem_cons_of_mem group hg)⟩
        intro item hitem
        obtain ⟨before, hbefore, -, heq⟩ := mem_normalize hitem
        have hmem : before ∈ items := by
          rw [← hgroups.flat]
          exact List.mem_flatMap_of_mem hgroup hbefore
        rw [heq]
        exact allListsIn_iff.mp h before hmem
    exact hlists _ fun group hgroup => hgroup

theorem split_unmixed :
    (∀ tree : List (Node α),
      AllLists (fun _ items => ¬Mixed items) (remarkSplitMixedTaskLists tree)) ∧
      ∀ items : List (Item α), AllListsIn (fun _ items => ¬Mixed items) (splitItems items) := by
  unfold remarkSplitMixedTaskLists
  apply tree_induction
  constructor
  case nil => simp [splitMixedTaskListsInParent, AllLists]
  case noItems => simp [splitItems, AllListsIn]
  case list =>
    intro attrs spread items rest hitems hrest
    rw [split_list, allLists_append]
    exact ⟨splitMixedList_unmixed attrs spread hitems, hrest⟩
  case other =>
    intro data children rest hchildren hrest
    rw [split_other, allLists_other]
    exact ⟨hchildren, hrest⟩
  case item =>
    intro checked spread children items hchildren hitems
    rw [splitItems, allListsIn_cons]
    exact ⟨hchildren, hitems⟩

theorem split_of_unmixed :
    (∀ tree : List (Node α), AllLists (fun _ items => ¬Mixed items) tree →
      remarkSplitMixedTaskLists tree = tree) ∧
      ∀ items : List (Item α), AllListsIn (fun _ items => ¬Mixed items) items →
        splitItems items = items := by
  unfold remarkSplitMixedTaskLists
  apply tree_induction
  constructor
  case nil => simp [splitMixedTaskListsInParent]
  case noItems => simp [splitItems]
  case list =>
    intro attrs spread items rest hitems hrest h
    rw [allLists_list] at h
    have hlist : splitMixedList attrs spread items = [.list attrs spread items] := if_neg h.1
    rw [split_list, hitems h.2.1, hlist, hrest h.2.2, List.singleton_append]
  case other =>
    intro data children rest hchildren hrest h
    rw [allLists_other] at h
    rw [split_other, hchildren h.1, hrest h.2]
  case item =>
    intro checked spread children items hchildren hitems h
    rw [allListsIn_cons] at h
    rw [splitItems, hchildren h.1, hitems h.2]

end lists

section ordinals

variable {first : ListAttrs → Option Int} {items : List (Item α)}

def Outline.ordinal : Outline α → Option Int
  | .item ordinal _ _ => ordinal
  | .other _ _ => none

theorem outline_append (xs ys : List (Node α)) :
    outline first (xs ++ ys) = outline first xs ++ outline first ys := by
  induction xs with
  | nil => simp [outline]
  | cons x xs ih =>
    cases x with
    | list attrs spread items => rw [List.cons_append, outline, outline, ih, List.append_assoc]
    | other data children => rw [List.cons_append, outline, outline, ih, List.cons_append]

theorem outlineItems_append (ordinal : Option Int) (xs ys : List (Item α)) :
    outlineItems first ordinal (xs ++ ys) = outlineItems first ordinal xs ++
      outlineItems first (ordinal.map (· + (xs.length : Int))) ys := by
  induction xs generalizing ordinal with
  | nil => cases ordinal <;> simp [outlineItems]
  | cons x xs ih =>
    cases x with
    | mk checked spread children =>
      rw [List.cons_append, outlineItems, outlineItems, ih, List.cons_append]
      congr 3
      cases ordinal with
      | none => rfl
      | some n =>
        have hadd : n + 1 + (xs.length : Int) = n + ((xs.length + 1 : Nat) : Int) := by omega
        exact congrArg some hadd

theorem outlineItems_normalize (ordinal : Option Int) (items : List (Item α)) :
    outlineItems first ordinal (normalizeSplitListItems items) =
      outlineItems first ordinal items := by
  induction items generalizing ordinal with
  | nil => rfl
  | cons item items ih =>
    cases item with
    | mk checked spread children =>
      have hhead : ∃ spread', normalizeSplitListItems (.mk checked spread children :: items) =
          .mk checked spread' children :: normalizeSplitListItems items := by
        by_cases hsingle : isSingleBlockItem (.mk checked spread children) = true
        · exact ⟨some false,
            by simp [normalizeSplitListItems, hsingle, Item.checked, Item.children]⟩
        · exact ⟨spread, by simp [normalizeSplitListItems, hsingle]⟩
      obtain ⟨spread', hhead⟩ := hhead
      rw [hhead, outlineItems, outlineItems, ih]

theorem outline_groups (attrs : ListAttrs) (groups : List (Group α)) :
    outline first (groups.map (groupList attrs)) =
      groups.flatMap fun group => outlineItems first (first attrs) group.items := by
  induction groups with
  | nil => simp [outline]
  | cons group groups ih =>
    rw [List.map_cons, groupList, outline, ih, outlineItems_normalize, List.flatMap_cons]

theorem outlineItems_flatMap (groups : List (Group α)) :
    outlineItems first none (groups.flatMap (·.items)) =
      groups.flatMap fun group => outlineItems first none group.items := by
  induction groups with
  | nil => simp [outlineItems]
  | cons group groups ih =>
    rw [List.flatMap_cons, outlineItems_append, List.flatMap_cons, ← ih]
    rfl

theorem outline_splitMixedList (attrs : ListAttrs) (spread : Option Bool)
    (h : Mixed items → first attrs = none) :
    outline first (splitMixedList attrs spread items) = outlineItems first (first attrs) items := by
  rcases splitMixedList_cases attrs spread items with ⟨-, heq⟩ | ⟨hmixed, g, g', gs, hgroups, heq⟩
  · rw [heq, outline, outline, List.append_nil]
  · rw [heq, outline_groups, h hmixed, ← outlineItems_flatMap, hgroups.flat]

theorem length_splitItems (items : List (Item α)) : (splitItems items).length = items.length := by
  induction items with
  | nil => simp [splitItems]
  | cons item items ih =>
    cases item with
    | mk checked spread children => rw [splitItems, List.length_cons, ih, List.length_cons]

theorem mixed_splitItems (items : List (Item α)) : Mixed (splitItems items) ↔ Mixed items := by
  have hkinds : (splitItems items).map isTaskItem = items.map isTaskItem := by
    induction items with
    | nil => simp [splitItems]
    | cons item items ih =>
      cases item with
      | mk checked spread children =>
        rw [splitItems, List.map_cons, ih]
        rfl
  have hany : ∀ (p : Bool → Bool), ((splitItems items).any fun item => p (isTaskItem item)) =
      items.any fun item => p (isTaskItem item) := by
    intro p
    have hmap := congrArg (·.any p) hkinds
    simpa [List.any_map, Function.comp_def] using hmap
  unfold Mixed
  rw [hany (fun b => !b), hany (fun b => b)]

theorem outline_split_of :
    (∀ tree : List (Node α), AllLists (fun attrs items => Mixed items → first attrs = none) tree →
      outline first (remarkSplitMixedTaskLists tree) = outline first tree) ∧
      ∀ items : List (Item α),
        AllListsIn (fun attrs items => Mixed items → first attrs = none) items → ∀ ordinal,
          outlineItems first ordinal (splitItems items) = outlineItems first ordinal items := by
  unfold remarkSplitMixedTaskLists
  apply tree_induction
  constructor
  case nil => simp [splitMixedTaskListsInParent]
  case noItems => simp [splitItems]
  case list =>
    intro attrs spread items rest hitems hrest h
    rw [allLists_list] at h
    have hmixed : Mixed (splitItems items) → first attrs = none := by
      rw [mixed_splitItems]
      exact h.1
    have hlist := outline_splitMixedList attrs spread hmixed
    rw [split_list, outline_append, hlist, hitems h.2.1, hrest h.2.2, outline]
  case other =>
    intro data children rest hchildren hrest h
    rw [allLists_other] at h
    rw [split_other, outline, hchildren h.1, hrest h.2, outline]
  case item =>
    intro checked spread children items hchildren hitems h ordinal
    rw [allListsIn_cons] at h
    rw [splitItems, outlineItems, hchildren h.1, hitems h.2, outlineItems]

theorem length_outlineItems (ordinal : Option Int) (items : List (Item α)) :
    (outlineItems first ordinal items).length = items.length := by
  induction items generalizing ordinal with
  | nil => simp [outlineItems]
  | cons item items ih =>
    cases item with
    | mk checked spread children => rw [outlineItems, List.length_cons, ih, List.length_cons]

theorem length_outline (tree : List (Node α)) :
    (outline first tree).length = (outline (fun _ => none) tree).length := by
  induction tree with
  | nil => simp [outline]
  | cons n ns ih =>
    cases n with
    | list attrs spread items =>
      rw [outline, outline, List.length_append, List.length_append, length_outlineItems,
        length_outlineItems, ih]
    | other data children => rw [outline, outline, List.length_cons, List.length_cons, ih]

theorem outline_split (tree : List (Node α)) :
    outline (fun _ => none) (remarkSplitMixedTaskLists tree) = outline (fun _ => none) tree :=
  outline_split_of.1 tree ((allLists_of fun _ _ _ => rfl).1 tree)

theorem length_outline_split (tree : List (Node α)) :
    (outline first (remarkSplitMixedTaskLists tree)).length = (outline first tree).length := by
  rw [length_outline, outline_split, ← length_outline]

theorem ordinal_at (ordinal : Option Int) {k : Nat} (hk : k < items.length) :
    (outlineItems first ordinal items)[k]?.map Outline.ordinal =
      some (ordinal.map (· + (k : Int))) := by
  induction items generalizing ordinal k with
  | nil => cases hk
  | cons item items ih =>
    cases item with
    | mk checked spread children =>
      rw [outlineItems]
      cases k with
      | zero => cases ordinal <;> simp [Outline.ordinal]
      | succ k =>
        rw [List.getElem?_cons_succ, ih _ (Nat.lt_of_succ_lt_succ hk)]
        cases ordinal with
        | none => rfl
        | some n =>
          have hadd : n + 1 + (k : Int) = n + ((k + 1 : Nat) : Int) := by omega
          exact congrArg (fun m => some (some m)) hadd

theorem Grouped.first_eq_none {g g' : Group α} {gs : List (Group α)} {ordinal : Option Int}
    (h : Grouped (g :: g' :: gs) items) {list : List (Item α)} (hlist : list.length = items.length)
    (heq : ((g :: g' :: gs).flatMap fun group => outlineItems first ordinal group.items) =
      outlineItems first ordinal list) : ordinal = none := by
  have hg : 0 < g.items.length := List.length_pos_iff.mpr (h.kind g (by simp)).1
  have hg' : 0 < g'.items.length := List.length_pos_iff.mpr (h.kind g' (by simp)).1
  have hlength : g.items.length < list.length := by
    have hflat := congrArg List.length h.flat
    rw [List.flatMap_cons, List.flatMap_cons, List.length_append, List.length_append] at hflat
    omega
  have hbefore := @ordinal_at α first list ordinal g.items.length hlength
  have hafter := @ordinal_at α first g'.items ordinal 0 hg'
  have hlast : (outlineItems first ordinal g.items).length = g.items.length :=
    length_outlineItems ordinal g.items
  have hlt : 0 < (outlineItems first ordinal g'.items).length := by
    have hitems := @length_outlineItems α first ordinal g'.items
    omega
  rw [← heq, List.flatMap_cons, List.flatMap_cons,
    List.getElem?_append_right (Nat.le_of_eq hlast), hlast, Nat.sub_self,
    List.getElem?_append_left hlt, hafter] at hbefore
  cases ordinal with
  | none => rfl
  | some n =>
    have hsum : n + ((0 : Nat) : Int) = n + (g.items.length : Int) :=
      Option.some.inj (Option.some.inj hbefore)
    omega

theorem of_outline_split :
    (∀ tree : List (Node α), outline first (remarkSplitMixedTaskLists tree) = outline first tree →
      AllLists (fun attrs items => Mixed items → first attrs = none) tree) ∧
      ∀ (items : List (Item α)), (∀ ordinal,
        outlineItems first ordinal (splitItems items) = outlineItems first ordinal items →
          AllListsIn (fun attrs items => Mixed items → first attrs = none) items) := by
  unfold remarkSplitMixedTaskLists
  apply tree_induction
  constructor
  case nil => simp [AllLists]
  case noItems => simp [AllListsIn]
  case list =>
    intro attrs spread items rest hitems hrest h
    rw [split_list, outline_append, outline] at h
    have hlength := @length_outline_split α first rest
    obtain ⟨hlist, hafter⟩ := List.append_inj' h hlength
    have hfirst : Mixed (splitItems items) → first attrs = none := by
      intro hmixed
      rcases splitMixedList_cases attrs spread (splitItems items) with
        ⟨hnot, -⟩ | ⟨-, g, g', gs, hgroups, heq⟩
      · exact absurd hmixed hnot
      · rw [heq, outline_groups] at hlist
        exact hgroups.first_eq_none (length_splitItems items).symm hlist
    rw [outline_splitMixedList attrs spread hfirst] at hlist
    rw [mixed_splitItems] at hfirst
    exact allLists_list.mpr ⟨hfirst, hitems (first attrs) hlist, hrest hafter⟩
  case other =>
    intro data children rest hchildren hrest h
    rw [split_other, outline, outline] at h
    injection h with hhead hafter
    injection hhead with _ hcontents
    exact allLists_other.mpr ⟨hchildren hcontents, hrest hafter⟩
  case item =>
    intro checked spread children items hchildren hitems ordinal h
    rw [splitItems, outlineItems, outlineItems] at h
    injection h with hhead hafter
    injection hhead with _ _ hcontents
    exact allListsIn_cons.mpr ⟨hchildren hcontents, hitems _ hafter⟩

/-- The lists of a tree are kept if and only if no ordered list has items of both kinds. -/
theorem keepsLists_iff (tree : List (Node α)) :
    KeepsLists tree (remarkSplitMixedTaskLists tree) ↔
      AllLists (fun attrs items => Mixed items → attrs.ordered = false) tree := by
  have hfirst : (fun attrs (items : List (Item α)) => Mixed items → attrs.ordered = false) =
      fun attrs items => Mixed items → firstOrdinal attrs = none := by
    funext attrs items
    cases hordered : attrs.ordered <;> simp [firstOrdinal, hordered]
  rw [hfirst]
  have hunmixed := split_unmixed.1 tree
  constructor
  · intro h
    exact of_outline_split.1 tree h.ordinals
  · intro h
    exact ⟨hunmixed, outline_split tree, outline_split_of.1 tree h, split_of_unmixed.1 _ hunmixed⟩

/-- The second list of `1. [ ] a` and `2. b` begins with 1 again. -/
theorem not_keepsLists :
    let tree : List (Node String) := [.list ⟨true, some 1⟩ (some false)
      [.mk (some false) (some false) [.other "a" []], .mk none (some false) [.other "b" []]]]
    ¬KeepsLists tree (remarkSplitMixedTaskLists tree) := by
  intro tree h
  have hlist := of_outline_split.1 tree h.ordinals
  rw [allLists_list] at hlist
  have hnone := hlist.1 (by decide)
  cases hnone

end ordinals

end Memoark.Web.SplitTaskLists
