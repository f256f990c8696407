import Memoark.Store.DeletedUser

/-! The memo tree of `store/db/mysql/user_delete.go`, which is collected level by level. -/
namespace Memoark.Store.MySQL
open Memoark.Graph

/-- The order in which a query lists its rows; it may depend on the ids that are asked for. -/
structure RowOrder where
  arrange : List Nat → List DeleteUserMemoRef → List DeleteUserMemoRef
  perm : ∀ ids rows, (arrange ids rows).Perm rows

def deleteUserBatches {α : Type} (size : Nat) (values : List α) : List (List α) :=
  if _h : values = [] then []
  else if _h' : size = 0 then [values]
  else values.take size :: deleteUserBatches size (values.drop size)
termination_by values.length
decreasing_by
  have := List.length_pos_iff.mpr _h
  rw [List.length_drop]
  omega

def childRows (t : Tables) (parents : List Nat) : List DeleteUserMemoRef :=
  t.memos.flatMap fun child => (t.relations.filter fun rel =>
    rel.memoId == child.id && rel.type == .COMMENT && parents.contains rel.relatedMemoId).map
      fun _ => child.ref

/-- A row is appended to the memos and to the next frontier unless its id has been seen; the ids
that have been seen are those of the memos. -/
def appendUnseen (acc : List DeleteUserMemoRef × List Nat) (memo : DeleteUserMemoRef) :
    List DeleteUserMemoRef × List Nat :=
  if memo.id ∈ acc.1.map (·.id) then acc else (acc.1 ++ [memo], acc.2 ++ [memo.id])

section collect

variable (faults : Faults) (order : RowOrder) (size userId : Nat)

def collectBatches (acc : List DeleteUserMemoRef × List Nat) (batches : List (List Nat)) :
    Tx (List DeleteUserMemoRef × List Nat) :=
  batches.foldlM (fun acc batch => do
    let children ← queryContext faults fun t => order.arrange batch (childRows t batch)
    return children.foldl appendUnseen acc) acc

def collectFrontiers : Nat → List DeleteUserMemoRef → List Nat →
    Tx (Option (List DeleteUserMemoRef))
  | 0, _, _ => return none
  | fuel + 1, memos, frontier =>
    if frontier = [] then return some memos
    else do
      let (memos, nextFrontier) ← collectBatches faults order (memos, [])
        (deleteUserBatches size frontier)
      collectFrontiers fuel memos nextFrontier

def listDeleteUserMemoTreeIterative (fuel : Nat) : Tx (Option (List DeleteUserMemoRef)) := do
  let roots ← queryContext faults fun t => order.arrange [] (rootRefs t userId)
  let (memos, frontier) := roots.foldl appendUnseen ([], [])
  collectFrontiers faults order size fuel memos frontier

end collect

section batches

variable {α : Type}

theorem flatten_batches (size : Nat) (values : List α) :
    (deleteUserBatches size values).flatten = values := by
  fun_induction deleteUserBatches size values with
  | case1 => rfl
  | case2 values hvalues hsize => exact List.flatten_singleton
  | case3 values hvalues hsize ih => rw [List.flatten_cons, ih, List.take_append_drop]

end batches

section levels

variable {t : Tables} {memos rows : List DeleteUserMemoRef} {userId : Nat}

theorem mem_childRows {ids : List Nat} {ref : DeleteUserMemoRef} : ref ∈ childRows t ids ↔
    ∃ memo ∈ t.memos, (∃ parent ∈ ids, t.Comment memo.id parent) ∧ memo.ref = ref := by
  unfold childRows
  rw [List.mem_flatMap]
  refine exists_congr fun memo => and_congr_right fun _ => ?_
  rw [List.mem_map]
  constructor
  · rintro ⟨rel, hrel, href⟩
    obtain ⟨hmem, hjoin⟩ := List.mem_filter.mp hrel
    simp only [Bool.and_eq_true, beq_iff_eq, List.contains_iff_mem] at hjoin
    obtain ⟨⟨hmemo, htype⟩, hparent⟩ := hjoin
    exact ⟨⟨rel.relatedMemoId, hparent, rel, hmem, htype, hmemo, rfl⟩, href⟩
  · rintro ⟨⟨parent, hparent, rel, hmem, htype, hmemo, rfl⟩, href⟩
    refine ⟨rel, List.mem_filter.mpr ⟨hmem, ?_⟩, href⟩
    simp only [Bool.and_eq_true, beq_iff_eq, List.contains_iff_mem]
    exact ⟨⟨hmemo, htype⟩, hparent⟩

def Stored (t : Tables) (refs : List DeleteUserMemoRef) : Prop := ∀ ref ∈ refs, ref ∈ t.memos.map (·.ref)

theorem Stored.append {refs refs' : List DeleteUserMemoRef} (h : Stored t refs)
    (h' : Stored t refs') : Stored t (refs ++ refs') := by
  intro ref href
  rcases List.mem_append.mp href with href | href
  · exact h ref href
  · exact h' ref href

theorem Stored.fresh (seen : List DeleteUserMemoRef) (h : Stored t rows) :
    Stored t (fresh seen rows) := fun ref href => h ref (mem_fresh.mp href).1

theorem Stored.seen_iff (hids : (t.memos.map (·.id)).Nodup) (h : Stored t memos)
    {ref : DeleteUserMemoRef} (href : ref ∈ t.memos.map (·.ref)) :
    ref.id ∈ memos.map (·.id) ↔ ref ∈ memos := by
  refine ⟨fun hmem => ?_, List.mem_map_of_mem⟩
  obtain ⟨ref', href', hid⟩ := List.mem_map.mp hmem
  obtain ⟨memo', hmemo', rfl⟩ := List.mem_map.mp (h ref' href')
  obtain ⟨memo, hmemo, rfl⟩ := List.mem_map.mp href
  rwa [List.inj_on_of_nodup_map hids hmemo hmemo' hid.symm]

theorem foldl_appendUnseen (hids : (t.memos.map (·.id)).Nodup) (hmemos : Stored t memos)
    (hrows : Stored t rows) (frontier : List Nat) :
    rows.foldl appendUnseen (memos, frontier) =
      (memos ++ fresh memos rows, frontier ++ (fresh memos rows).map (·.id)) := by
  induction rows generalizing memos frontier with
  | nil => rw [fresh, List.map_nil, List.append_nil, List.append_nil, List.foldl_nil]
  | cons row rows ih =>
    have hrow : row ∈ t.memos.map (·.ref) := hrows row List.mem_cons_self
    have hrest : Stored t rows := fun ref href => hrows ref (List.mem_cons_of_mem _ href)
    rw [List.foldl_cons, appendUnseen, fresh]
    by_cases hseen : row ∈ memos
    · rw [if_pos ((hmemos.seen_iff hids hrow).mpr hseen), if_pos hseen]
      exact ih hmemos hrest frontier
    · have hmemos' : Stored t (memos ++ [row]) :=
        hmemos.append fun ref href => List.mem_singleton.mp href ▸ hrow
      have hfresh : fresh (memos ++ [row]) rows = fresh (row :: memos) rows :=
        fresh_congr fun a => by simp [or_comm]
      rw [if_neg fun hid => hseen ((hmemos.seen_iff hids hrow).mp hid), if_neg hseen,
        ih hmemos' hrest, hfresh, List.append_assoc, List.append_assoc]
      rfl

variable (order : RowOrder)

def batchRows (order : RowOrder) (t : Tables) (batches : List (List Nat)) : List DeleteUserMemoRef :=
  batches.flatMap fun batch => order.arrange batch (childRows t batch)

theorem mem_batchRows {batches : List (List Nat)} {ref : DeleteUserMemoRef} :
    ref ∈ batchRows order t batches ↔ ref ∈ childRows t batches.flatten := by
  unfold batchRows
  simp only [List.mem_flatMap, (order.perm _ _).mem_iff, mem_childRows, List.mem_flatten]
  constructor
  · rintro ⟨batch, hbatch, memo, hmemo, ⟨parent, hparent, hcomment⟩, href⟩
    exact ⟨memo, hmemo, ⟨parent, ⟨batch, hbatch, hparent⟩, hcomment⟩, href⟩
  · rintro ⟨memo, hmemo, ⟨parent, ⟨batch, hbatch, hparent⟩, hcomment⟩, href⟩
    exact ⟨batch, hbatch, memo, hmemo, ⟨parent, hparent, hcomment⟩, href⟩

theorem childRows_stored (ids : List Nat) : Stored t (childRows t ids) := by
  intro ref href
  obtain ⟨memo, hmemo, -, rfl⟩ := mem_childRows.mp href
  exact List.mem_map_of_mem hmemo

theorem collectBatches_run (hids : (t.memos.map (·.id)).Nodup) (hmemos : Stored t memos)
    (batches : List (List Nat)) (frontier : List Nat) (n : Nat) :
    (collectBatches (fun _ => none) order (memos, frontier) batches).run (n, t) =
      .ok ((memos ++ fresh memos (batchRows order t batches),
        frontier ++ (fresh memos (batchRows order t batches)).map (·.id)),
          (n + batches.length, t)) := by
  induction batches generalizing memos frontier n with
  | nil =>
    rw [batchRows, List.flatMap_nil, fresh, List.map_nil, List.append_nil, List.append_nil]
    rfl
  | cons batch batches ih =>
    have hrows : Stored t (order.arrange batch (childRows t batch)) := fun ref href =>
      childRows_stored batch ref ((order.perm _ _).mem_iff.mp href)
    have hfold := foldl_appendUnseen hids hmemos hrows frontier
    have hrest := ih (hmemos.append (hrows.fresh memos))
      (frontier ++ (fresh memos (order.arrange batch (childRows t batch))).map (·.id)) (n + 1)
    have hrows' : batchRows order t (batch :: batches) =
        order.arrange batch (childRows t batch) ++ batchRows order t batches := rfl
    have hlength : n + 1 + batches.length = n + (batch :: batches).length := by
      rw [List.length_cons]
      omega
    rw [hlength] at hrest
    rw [hrows', fresh_append, List.map_append, ← List.append_assoc, ← List.append_assoc, ← hrest,
      ← hfold]
    rfl

theorem closing_level {frontier : List DeleteUserMemoRef}
    (h : Closing (childRefs t) (rootRefs t userId) memos frontier) {batches : List (List Nat)}
    (hbatches : batches.flatten = frontier.map (·.id)) :
    Closing (childRefs t) (rootRefs t userId) (memos ++ fresh memos (batchRows order t batches))
      (fresh memos (batchRows order t batches)) := by
  have hmem : ∀ ref, ref ∈ batchRows order t batches ↔ ∃ parent ∈ frontier, ref ∈ childRefs t parent := by
    intro ref
    rw [mem_batchRows, hbatches, mem_childRows]
    simp only [mem_childRefs, List.mem_map]
    constructor
    · rintro ⟨memo, hmemo, ⟨_, ⟨parent, hparent, rfl⟩, hcomment⟩, href⟩
      exact ⟨parent, hparent, memo, hmemo, hcomment, href⟩
    · rintro ⟨parent, hparent, memo, hmemo, hcomment, href⟩
      exact ⟨memo, hmemo, ⟨parent.id, ⟨parent, hparent, rfl⟩, hcomment⟩, href⟩
  refine h.level (nodup_fresh _ _) ?_ ?_
  · intro ref href
    obtain ⟨hrow, hunseen⟩ := mem_fresh.mp href
    exact ⟨hunseen, (hmem ref).mp hrow⟩
  · intro parent hparent ref href
    by_cases hseen : ref ∈ memos
    · exact .inl hseen
    · exact .inr (mem_fresh.mpr ⟨(hmem ref).mpr ⟨parent, hparent, href⟩, hseen⟩)

theorem Stored.of_closing {frontier : List DeleteUserMemoRef}
    (h : Closing (childRefs t) (rootRefs t userId) memos frontier) : Stored t memos := by
  intro ref href
  obtain ⟨memo, hmemo, -, rfl⟩ := Reachable.ofUser (h.sound ref href)
  exact List.mem_map_of_mem hmemo

/-- The loop ends: each level but the last adds a memo that is stored. -/
theorem collectFrontiers_run (hids : (t.memos.map (·.id)).Nodup) (size fuel : Nat)
    {frontier : List DeleteUserMemoRef} (n : Nat)
    (h : Closing (childRefs t) (rootRefs t userId) memos frontier)
    (hfuel : t.memos.length + (if frontier = [] then 1 else 2) ≤ fuel + memos.length) :
    ∃ tree n', (collectFrontiers (fun _ => none) order size fuel memos
        (frontier.map (·.id))).run (n, t) = .ok (some tree, (n', t)) ∧
      Closing (childRefs t) (rootRefs t userId) tree [] := by
  induction fuel generalizing memos frontier n with
  | zero =>
    have hle : memos.length ≤ (t.memos.map (·.ref)).length :=
      (List.subperm_of_subset h.nodup (Stored.of_closing h)).length_le
    rw [List.length_map] at hle
    split at hfuel
    · omega
    · omega
  | succ fuel ih =>
    unfold collectFrontiers
    by_cases hempty : frontier = []
    · subst hempty
      exact ⟨memos, n, rfl, h⟩
    · rw [if_neg (by simpa using hempty)]
      have hlevel := closing_level order h (flatten_batches size (frontier.map (·.id)))
      generalize hbatches : deleteUserBatches size (frontier.map (·.id)) = batches at hlevel
      have hrun := collectBatches_run order hids (Stored.of_closing h) batches [] n
      rw [if_neg hempty] at hfuel
      obtain ⟨tree, n', htree, hclosed⟩ := ih (n + batches.length) hlevel (by
        rw [List.length_append]
        split
        · omega
        · rename_i hnew
          have hpos := List.length_pos_iff.mpr hnew
          omega)
      refine ⟨tree, n', ?_, hclosed⟩
      rw [← htree]
      exact (congrArg (fun result : Except String _ => result >>= fun r =>
        (collectFrontiers (fun _ => none) order size fuel r.1.1 r.1.2).run r.2) hrun)

end levels

/-- The memo tree that is collected for MySQL is the one that the recursive query of SQLite
selects, whatever the size of the batches and the order of the rows. -/
theorem iterative_perm_recursive {t : Tables} (hids : (t.memos.map (·.id)).Nodup)
    (order : RowOrder) (size userId n : Nat) {fuel : Nat} (hfuel : t.memos.length < fuel) :
    ∃ memos n', (listDeleteUserMemoTreeIterative (fun _ => none) order size userId fuel).run (n, t) =
        .ok (some memos, (n', t)) ∧
      memos.Nodup ∧ memos.Perm (memoTree t userId) := by
  have hrows : ∀ ref, ref ∈ order.arrange [] (rootRefs t userId) ↔ ref ∈ rootRefs t userId :=
    fun ref => (order.perm _ _).mem_iff
  have hstored : Stored t (order.arrange [] (rootRefs t userId)) := by
    intro ref href
    obtain ⟨memo, hmemo, -, rfl⟩ := mem_rootRefs.mp ((hrows ref).mp href)
    exact List.mem_map_of_mem hmemo
  have hroots := foldl_appendUnseen hids (fun _ h => absurd h List.not_mem_nil) hstored []
  rw [List.nil_append, List.nil_append] at hroots
  have hreach : ∀ ref, Reachable (childRefs t) (order.arrange [] (rootRefs t userId)) ref ↔
      Reachable (childRefs t) (rootRefs t userId) ref := by
    intro ref
    constructor
    · exact Reachable.mono fun ref' h => (hrows ref').mp h
    · exact Reachable.mono fun ref' h => (hrows ref').mpr h
  have hstart := Closing.start (childRefs t) (order.arrange [] (rootRefs t userId))
  generalize fresh [] (order.arrange [] (rootRefs t userId)) = roots at hroots hstart
  have hclosing : Closing (childRefs t) (rootRefs t userId) roots roots :=
    ⟨fun ref href => hstart.start_mem ref ((hrows ref).mpr href),
      fun ref href => (hreach ref).mp (hstart.sound ref href), hstart.nodup, hstart.queueNodup,
      hstart.queue_mem, hstart.closed⟩
  obtain ⟨memos, n', hrun, hclosed⟩ := collectFrontiers_run order hids size fuel
    (n + 1) hclosing (by
      split
      · omega
      · rename_i hne
        have hpos := List.length_pos_iff.mpr hne
        omega)
  refine ⟨memos, n', ?_, hclosed.nodup, ?_⟩
  · rw [← hrun]
    exact congrArg (fun acc : List DeleteUserMemoRef × List Nat =>
      (collectFrontiers (fun _ => none) order size fuel acc.1 acc.2).run (n + 1, t)) hroots
  · refine (List.perm_ext_iff_of_nodup hclosed.nodup
      (nodup_closureLoop (.start (childRefs t) (rootRefs t userId)))).mpr fun ref => ?_
    rw [hclosed.mem_iff]
    exact mem_memoTree_iff.symm

section cyclic

def cyclicTables : Tables where
  users := [1]
  memos := [⟨1, "a", 1⟩, ⟨2, "b", 2⟩]
  relations := [⟨1, 2, .COMMENT⟩, ⟨2, 1, .COMMENT⟩]
  attachments := []
  reactions := []
  shares := []
  inboxes := []
  settings := []
  identities := []

theorem iterative_perm_recursive_cyclic : ∃ memos n',
    (listDeleteUserMemoTreeIterative (fun _ => none) ⟨fun _ rows => rows, fun _ _ => .refl _⟩ 1 1
      3).run (0, cyclicTables) = .ok (some memos, (n', cyclicTables)) ∧
    memos.Nodup ∧ memos.Perm (memoTree cyclicTables 1) :=
  iterative_perm_recursive (by decide) _ 1 1 0 (by decide)

end cyclic

end Memoark.Store.MySQL
