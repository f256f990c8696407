import Memoark.Store.Database

/-! The order of `ListMemos` of the driver: its tie-breaker leaves one answer to a query, and the
pages are cut out of that answer. -/
namespace Memoark.Store

namespace FindMemo

variable (find : FindMemo)

def unlimited : FindMemo := { find with limit := none, offset := none }

theorem le_total (a b : Memo) : (find.le a b || find.le b a) = true := by
  unfold le
  grind

theorem le_trans {a b c : Memo} (hab : find.le a b = true) (hbc : find.le b c = true) : find.le a c = true := by
  unfold le at *
  grind

theorem le_antisymm {a b : Memo} (hab : find.le a b = true) (hba : find.le b a = true) : a.id = b.id := by
  unfold le at *
  grind

end FindMemo

namespace Database

variable {db : Database} {find : FindMemo}

def rows (db : Database) (find : FindMemo) : List Memo :=
  (db.memos.filter find.matchesRow).flatMap fun row =>
    ((db.parents row).filter find.matchesParent).map row.withParent

/-- The answers that `ORDER BY` allows: the memos of a find, none before one that is less. -/
structure Answers (db : Database) (find : FindMemo) (memos : List Memo) : Prop where
  perm : memos.Perm ((db.rows find).map find.selected)
  sorted : memos.Pairwise (find.le · ·)

theorem listMemos_unlimited :
    db.listMemos find.unlimited = ((db.rows find).mergeSort find.le).map find.selected := rfl

theorem listMemos_slice (limit offset : Nat) :
    db.listMemos { find with limit := some limit, offset := some offset } =
      ((db.listMemos find.unlimited).drop offset).take limit := by
  rw [listMemos_unlimited, ← List.map_drop, ← List.map_take]
  rfl

theorem answers_listMemos (db : Database) (find : FindMemo) :
    db.Answers find (db.listMemos find.unlimited) where
  perm := (List.mergeSort_perm _ _).map _
  sorted := by
    have hsorted : ((db.rows find).mergeSort find.le).Pairwise (find.le · ·) := by
      apply List.pairwise_mergeSort
      · intro a b c
        exact find.le_trans
      · exact find.le_total
    have hselected : ∀ a b, find.le (find.selected a) (find.selected b) = find.le a b := by
      intro a b
      unfold FindMemo.selected
      split <;> rfl
    refine List.pairwise_map.mpr (hsorted.imp fun {a b} hab => ?_)
    exact (hselected a b).trans hab

theorem parents_length_le
    (h : ((db.relations.filter (·.type = .COMMENT)).map (·.memoId)).Nodup) (row : MemoRecord) :
    (db.parents row).length ≤ 1 := by
  have hsublist : (db.relations.filter fun r => r.memoId = row.id ∧ r.type = .COMMENT).Sublist
      (db.relations.filter (·.type = .COMMENT)) := by
    refine List.monotone_filter_right _ fun r hr => ?_
    simp only [decide_eq_true_eq] at hr ⊢
    exact hr.2
  have hnodup := (hsublist.map (·.memoId)).nodup h
  have hids : (db.relations.filter fun r => r.memoId = row.id ∧ r.type = .COMMENT).map (·.memoId) =
      List.replicate (db.relations.filter fun r =>
        r.memoId = row.id ∧ r.type = .COMMENT).length row.id := by
    refine List.map_eq_replicate_iff.mpr fun r hr => ?_
    have hcondition := (List.mem_filter.mp hr).2
    simp only [decide_eq_true_eq] at hcondition
    exact hcondition.1
  rw [hids, List.nodup_replicate] at hnodup
  unfold Database.parents
  split
  · exact Nat.le_refl 1
  · rw [List.length_map]
    exact hnodup

theorem flatMap_keys_sublist {α β γ : Type} (rows : List α) {f : α → List β} {key : β → γ}
    {rowKey : α → γ} (hlength : ∀ row, (f row).length ≤ 1)
    (hkey : ∀ row, ∀ memo ∈ f row, key memo = rowKey row) :
    ((rows.flatMap f).map key).Sublist (rows.map rowKey) := by
  induction rows with
  | nil => exact List.Sublist.refl []
  | cons row rows ih =>
    rw [List.flatMap_cons, List.map_append, List.map_cons]
    have hrow := hlength row
    have hmemo := hkey row
    cases hf : f row with
    | nil => exact ih.cons _
    | cons memo rest =>
      rw [hf] at hrow hmemo
      obtain rfl : rest = [] := by simpa using hrow
      rw [← hmemo memo List.mem_cons_self]
      exact ih.cons_cons _

theorem rows_keys_sublist (h : ((db.relations.filter (·.type = .COMMENT)).map (·.memoId)).Nodup)
    {γ : Type} {key : Memo → γ} {rowKey : MemoRecord → γ}
    (hkey : ∀ row parent, key (row.withParent parent) = rowKey row) (find : FindMemo) :
    ((db.rows find).map key).Sublist (db.memos.map rowKey) := by
  have hlength : ∀ row : MemoRecord,
      (((db.parents row).filter find.matchesParent).map row.withParent).length ≤ 1 := by
    intro row
    rw [List.length_map]
    exact (List.length_filter_le _ _).trans (parents_length_le h row)
  have hrowKey : ∀ row : MemoRecord,
      ∀ memo ∈ ((db.parents row).filter find.matchesParent).map row.withParent,
        key memo = rowKey row := by
    intro row memo hmemo
    obtain ⟨parent, -, rfl⟩ := List.mem_map.mp hmemo
    exact hkey row parent
  have hsublist := flatMap_keys_sublist (db.memos.filter find.matchesRow) hlength hrowKey
  exact hsublist.trans (List.filter_sublist.map rowKey)

theorem selected_keys_sublist (h : ((db.relations.filter (·.type = .COMMENT)).map (·.memoId)).Nodup)
    {γ : Type} {key : Memo → γ} {rowKey : MemoRecord → γ}
    (hkey : ∀ row parent, key (find.selected (row.withParent parent)) = rowKey row) :
    (((db.rows find).map find.selected).map key).Sublist (db.memos.map rowKey) := by
  rw [List.map_map]
  exact rows_keys_sublist h hkey find

theorem selected_id (row : MemoRecord) (parent : Option String) :
    (find.selected (row.withParent parent)).id = row.id := by
  unfold FindMemo.selected
  split <;> rfl

theorem selected_uid (row : MemoRecord) (parent : Option String) :
    (find.selected (row.withParent parent)).uid = row.uid := by
  unfold FindMemo.selected
  split <;> rfl

theorem Answers.nodup_ids (hids : (db.memos.map (·.id)).Nodup)
    (hparents : ((db.relations.filter (·.type = .COMMENT)).map (·.memoId)).Nodup)
    {memos : List Memo} (h : db.Answers find memos) : (memos.map (·.id)).Nodup :=
  (h.perm.map _).nodup_iff.mpr ((selected_keys_sublist hparents selected_id).nodup hids)

theorem Answers.nodup_uids (huids : (db.memos.map (·.uid)).Nodup)
    (hparents : ((db.relations.filter (·.type = .COMMENT)).map (·.memoId)).Nodup)
    {memos : List Memo} (h : db.Answers find memos) : (memos.map (·.uid)).Nodup :=
  (h.perm.map _).nodup_iff.mpr ((selected_keys_sublist hparents selected_uid).nodup huids)

theorem Answers.length_le (hids : (db.memos.map (·.id)).Nodup)
    (hparents : ((db.relations.filter (·.type = .COMMENT)).map (·.memoId)).Nodup) {bound : Nat}
    (hbound : ∀ row ∈ db.memos, row.id < bound) {memos : List Memo} (h : db.Answers find memos) :
    memos.length ≤ bound := by
  have hmemos : (memos.map (·.id)).Subperm (db.memos.map (·.id)) :=
    (h.perm.map _).subperm.trans (selected_keys_sublist hparents selected_id).subperm
  have hrange : db.memos.map (·.id) ⊆ List.range bound := by
    intro id hid
    obtain ⟨row, hrow, rfl⟩ := List.mem_map.mp hid
    exact List.mem_range.mpr (hbound row hrow)
  have hlength := (hmemos.trans (List.subperm_of_subset hids hrange)).length_le
  rw [List.length_map, List.length_range] at hlength
  exact hlength

theorem Answers.eq (hids : (db.memos.map (·.id)).Nodup)
    (hparents : ((db.relations.filter (·.type = .COMMENT)).map (·.memoId)).Nodup)
    {memos memos' : List Memo} (h : db.Answers find memos) (h' : db.Answers find memos') :
    memos = memos' := by
  have hperm := h.perm.trans h'.perm.symm
  refine hperm.eq_of_pairwise (fun a b ha hb hab hba => ?_) h.sorted h'.sorted
  exact List.inj_on_of_nodup_map (h.nodup_ids hids hparents) ha (hperm.symm.subset hb)
    (find.le_antisymm hab hba)

end Database

end Memoark.Store
