import Mathlib.Logic.Relation
import Memoark.Order.Selection
import Memoark.Store.SizedCache

/-! Which entries `cleanupOldest` evicts, and what calls of one goroutine find in the cache. -/
namespace Memoark.Store.SizedCache
open Memoark.System LabelledSystem Go Memoark.Order

variable {K V : Type} [DecidableEq K]

section calls

def visitOldest (threshold : Int) (data : SyncMap K (Item V)) (candidates : List (KeyExpPair K))
    (keys : List K) : List (KeyExpPair K) :=
  keys.foldl
    (fun candidates key =>
      match data.load key with
      | some item => considered threshold candidates key item
      | none => candidates) candidates

def deleteAll (data : SyncMap K (Item V)) (keys : List K) : SyncMap K (Item V) :=
  keys.foldl (fun data key => data.delete key) data

/-- `cleanupOldest`, when nothing else uses the cache. -/
def cleanupOldest (maxItems : Int) (range : RangeOrder K) (s : Shared K V) : Shared K V :=
  if s.itemCount ≤ maxItems then s
  else
    let candidates := visitOldest (max (maxItems.tdiv 5) 1) s.data [] (range.arrange s.data.keys)
    { s with
      data := deleteAll s.data (candidates.map (·.key))
      itemCount := s.itemCount - candidates.length }

/-- The entry of a call of `SetWithTTL`, before the size is checked. -/
def setEntry (key : K) (value : V) (ttl : Int) (s : Shared K V) : Shared K V :=
  let item : Item V := ⟨value, s.now + ttl, s.sequence + 1⟩
  if (s.data.load key).isSome then
    { s with sequence := s.sequence + 1, data := (s.data.delete key).store key item }
  else
    { s with
      sequence := s.sequence + 1
      itemCount := s.itemCount + 1
      data := s.data.store key item }

/-- `SetWithTTL`, when nothing else uses the cache. -/
def setWithTTL (maxItems : Int) (range : RangeOrder K) (key : K) (value : V) (ttl : Int)
    (s : Shared K V) : Shared K V :=
  let s := setEntry key value ttl s
  if 0 < maxItems ∧ maxItems < s.itemCount then cleanupOldest maxItems range s else s

/-- `Get`, when nothing else uses the cache. -/
def get (key : K) (s : Shared K V) : Option V × Shared K V :=
  match s.data.load key with
  | none => (none, s)
  | some item =>
    if item.expiration < s.now then
      (none, { s with
        data := s.data.delete key
        expired := s.expired ++ [(item, s.data.load key)]
        itemCount := s.itemCount - 1 })
    else (some item.value, s)

end calls

section selection

/-- Whether the first comes before the second by expiration, then by sequence. -/
def Item.Before (a b : Item V) : Prop :=
  a.expiration < b.expiration ∨ a.expiration = b.expiration ∧ a.sequence < b.sequence

/-- The `n` entries that come first are removed, or all if they are fewer, and no others. -/
structure OldestRemoved (n : Nat) (before after : SyncMap K (Item V)) : Prop where
  kept : ∀ key item, after.load key = some item → before.load key = some item
  size : after.size = before.size - n
  oldest : ∀ key item key' item', before.load key = some item → after.load key = none →
    after.load key' = some item' → ¬item'.Before item

variable {candidates : List (KeyExpPair K)} {threshold : Int}

omit [DecidableEq K] in
theorem older_strictOrder : StrictOrder (KeyExpPair.older (K := K)) where
  asymm := by
    intro a b h
    unfold KeyExpPair.older at *
    grind
  negTrans := by
    intro a b c hab hbc
    unfold KeyExpPair.older at *
    grind

def NewestOf (candidates : List (KeyExpPair K)) (bound i : Nat) : Prop :=
  i < bound ∧ ∃ newest, candidates[i]? = some newest ∧
    ∀ j < bound, ∀ other, candidates[j]? = some other → newest.older other = false

omit [DecidableEq K] in
theorem newestOf_foldl (n : Nat) {bound i : Nat} (hbound : bound + n ≤ candidates.length)
    (h : NewestOf candidates bound i) :
    NewestOf candidates (bound + n) ((List.range' bound n).foldl
      (fun newest i =>
        match candidates[newest]?, candidates[i]? with
        | some a, some b => if a.older b then i else newest
        | _, _ => newest) i) := by
  induction n generalizing bound i with
  | zero => exact h
  | succ n ih =>
    obtain ⟨hi, newest, hnewest, hall⟩ := h
    have hlt : bound < candidates.length := by omega
    have hnext : candidates[bound]? = some candidates[bound] := List.getElem?_eq_getElem hlt
    have hstep : NewestOf candidates (bound + 1)
        (if newest.older candidates[bound] then bound else i) := by
      by_cases hold : newest.older candidates[bound] = true
      · rw [if_pos hold]
        refine ⟨by omega, _, hnext, ?_⟩
        intro j hj other hother
        by_cases hjb : j = bound
        · subst hjb
          rw [hnext] at hother
          obtain rfl := Option.some.inj hother
          apply Bool.of_not_eq_true
          intro hself
          have hback := older_strictOrder.asymm _ _ hself
          rw [hself] at hback
          cases hback
        · apply Bool.of_not_eq_true
          intro holder
          have hnewer := older_strictOrder.trans hold holder
          rw [hall j (by omega) other hother] at hnewer
          cases hnewer
      · rw [if_neg hold]
        refine ⟨by omega, newest, hnewest, ?_⟩
        intro j hj other hother
        by_cases hjb : j = bound
        · subst hjb
          rw [hnext] at hother
          obtain rfl := Option.some.inj hother
          exact Bool.of_not_eq_true hold
        · exact hall j (by omega) other hother
    have hrest := ih (by omega) hstep
    rw [Nat.add_assoc, Nat.add_comm 1 n] at hrest
    rw [List.range'_succ, List.foldl_cons, hnewest, hnext]
    exact hrest

omit [DecidableEq K] in
theorem newestIdx_spec (hne : candidates ≠ []) :
    ∃ newest, candidates[newestIdx candidates]? = some newest ∧
      ∀ other ∈ candidates, newest.older other = false := by
  have hpos := List.length_pos_of_ne_nil hne
  have hfirst : candidates[0]? = some candidates[0] := List.getElem?_eq_getElem hpos
  have hstart : NewestOf candidates 1 0 := by
    refine ⟨by omega, _, hfirst, ?_⟩
    intro j hj other hother
    obtain rfl : j = 0 := by omega
    rw [hfirst] at hother
    obtain rfl := Option.some.inj hother
    apply Bool.of_not_eq_true
    intro hself
    have hback := older_strictOrder.asymm _ _ hself
    rw [hself] at hback
    cases hback
  obtain ⟨-, newest, hnewest, hall⟩ :=
    newestOf_foldl (candidates.length - 1) (by omega) hstart
  refine ⟨newest, hnewest, ?_⟩
  intro other hother
  obtain ⟨j, hj, rfl⟩ := List.getElem_of_mem hother
  exact hall j (by omega) _ (List.getElem?_eq_getElem hj)

omit [DecidableEq K] in
/-- A visit keeps the candidates the first entries of those that were visited. -/
theorem considered_smallest {seen : List (KeyExpPair K)} (hpos : 0 < threshold)
    (h : Smallest KeyExpPair.older threshold.toNat seen candidates) (key : K) (item : Item V) :
    Smallest KeyExpPair.older threshold.toNat
      (seen ++ [⟨key, item.expiration, item.sequence⟩])
      (considered threshold candidates key item) := by
  have hlength : candidates.length ≤ threshold.toNat := by
    obtain ⟨-, -, hlength, -⟩ := h
    omega
  unfold considered
  dsimp only
  by_cases hroom : (candidates.length : Int) < threshold
  · rw [if_pos hroom]
    exact h.push (by omega) _
  · rw [if_neg hroom]
    have hfull : candidates.length = threshold.toNat := by omega
    have hne : candidates ≠ [] := by
      rintro rfl
      rw [List.length_nil] at hfull
      omega
    obtain ⟨newest, hnewest, hall⟩ := newestIdx_spec hne
    rw [hnewest]
    dsimp only
    split
    · rename_i hold
      exact h.replace older_strictOrder hfull hnewest hall hold
    · rename_i hold
      exact h.skip older_strictOrder hfull hall (Bool.of_not_eq_true hold)

/-- The entry of a key, as `cleanupOldest` compares it. -/
def pairsOf (data : SyncMap K (Item V)) (keys : List K) : List (KeyExpPair K) :=
  keys.filterMap fun key =>
    (data.load key).map fun item => ⟨key, item.expiration, item.sequence⟩

theorem visitOldest_smallest (hpos : 0 < threshold) (data : SyncMap K (Item V)) (keys : List K)
    {seen : List (KeyExpPair K)}
    (h : Smallest KeyExpPair.older threshold.toNat seen candidates) :
    Smallest KeyExpPair.older threshold.toNat (seen ++ pairsOf data keys)
      (visitOldest threshold data candidates keys) := by
  induction keys generalizing seen candidates with
  | nil =>
    unfold pairsOf
    rw [List.filterMap_nil, List.append_nil]
    exact h
  | cons key keys ih =>
    have hvisit : visitOldest threshold data candidates (key :: keys) =
        visitOldest threshold data
          (match data.load key with
          | some item => considered threshold candidates key item
          | none => candidates) keys := List.foldl_cons ..
    rw [hvisit]
    unfold pairsOf
    rw [List.filterMap_cons]
    cases hload : data.load key with
    | none => exact ih h
    | some item =>
      have hrest := ih (considered_smallest hpos h key item)
      rw [List.append_assoc, List.singleton_append] at hrest
      exact hrest

theorem load_deleteAll (data : SyncMap K (Item V)) (keys : List K) (key : K) :
    (deleteAll data keys).load key = if key ∈ keys then none else data.load key := by
  induction keys generalizing data with
  | nil => rfl
  | cons first keys ih =>
    have hcons : deleteAll data (first :: keys) = deleteAll (data.delete first) keys :=
      List.foldl_cons ..
    rw [hcons, ih]
    by_cases hkey : key = first
    · subst hkey
      simp
    · rw [SyncMap.load_delete_of_ne _ hkey]
      simp [hkey]

theorem size_deleteAll {data : SyncMap K (Item V)} {keys : List K} (hnodup : keys.Nodup)
    (hthere : ∀ key ∈ keys, (data.load key).isSome) :
    (deleteAll data keys).size + keys.length = data.size := by
  induction keys generalizing data with
  | nil => rfl
  | cons first keys ih =>
    obtain ⟨hfirst, hnodup⟩ := List.nodup_cons.mp hnodup
    have hcons : deleteAll data (first :: keys) = deleteAll (data.delete first) keys :=
      List.foldl_cons ..
    have hrest : ∀ key ∈ keys, ((data.delete first).load key).isSome := by
      intro key hkey
      have hne : key ≠ first := by
        rintro rfl
        exact hfirst hkey
      rw [SyncMap.load_delete_of_ne _ hne]
      exact hthere key (List.mem_cons_of_mem _ hkey)
    have hsize := data.size_delete_of_isSome (hthere first List.mem_cons_self)
    have hdeleted := ih hnodup hrest
    rw [hcons, List.length_cons]
    omega

theorem mem_pairsOf {data : SyncMap K (Item V)} {keys : List K} {pair : KeyExpPair K} :
    pair ∈ pairsOf data keys ↔ pair.key ∈ keys ∧ ∃ item, data.load pair.key = some item ∧
      pair = ⟨pair.key, item.expiration, item.sequence⟩ := by
  unfold pairsOf
  rw [List.mem_filterMap]
  constructor
  · rintro ⟨key, hkey, hpair⟩
    obtain ⟨item, hitem, rfl⟩ := Option.map_eq_some_iff.mp hpair
    exact ⟨hkey, item, hitem, rfl⟩
  · rintro ⟨hkey, item, hitem, hpair⟩
    refine ⟨pair.key, hkey, ?_⟩
    rw [hitem, hpair]
    rfl

theorem pairsOf_keys {data : SyncMap K (Item V)} {keys : List K}
    (hthere : ∀ key ∈ keys, (data.load key).isSome) : (pairsOf data keys).map (·.key) = keys := by
  induction keys with
  | nil => rfl
  | cons key keys ih =>
    obtain ⟨item, hitem⟩ := Option.isSome_iff_exists.mp (hthere key List.mem_cons_self)
    have hrest := ih fun other hother => hthere other (List.mem_cons_of_mem _ hother)
    unfold pairsOf at hrest ⊢
    rw [List.filterMap_cons, hitem, Option.map_some, List.map_cons, hrest]

def evicted (maxItems : Int) : Nat := (max (maxItems.tdiv 5) 1).toNat

theorem cleanupOldest_removes {maxItems : Int} {s : Shared K V} (range : RangeOrder K)
    (hover : maxItems < s.itemCount) :
    OldestRemoved (evicted maxItems) s.data (cleanupOldest maxItems range s).data ∧
      (cleanupOldest maxItems range s).itemCount - (cleanupOldest maxItems range s).data.size =
        s.itemCount - s.data.size := by
  have hperm := range.perm s.data.keys
  have hthere : ∀ key ∈ range.arrange s.data.keys, (s.data.load key).isSome := by
    intro key hkey
    exact s.data.mem_keys_iff.mp (hperm.subset hkey)
  have hkeys := pairsOf_keys hthere
  have hpos : 0 < max (maxItems.tdiv 5) 1 := by omega
  have hselected := visitOldest_smallest hpos s.data (range.arrange s.data.keys) (Smallest.nil _ _)
  rw [List.nil_append] at hselected
  unfold cleanupOldest
  rw [if_neg (by omega)]
  dsimp only
  generalize visitOldest (max (maxItems.tdiv 5) 1) s.data [] (range.arrange s.data.keys) = chosen
    at hselected ⊢
  obtain ⟨rest, hall, hlength, hfirst⟩ := hselected
  have hsize : (pairsOf s.data (range.arrange s.data.keys)).length = s.data.size := by
    have hmap := congrArg List.length hkeys
    rw [List.length_map, hperm.length_eq] at hmap
    rw [hmap]
    exact List.length_map _
  have hnodup : (chosen.map (·.key)).Nodup := by
    have hboth : ((chosen ++ rest).map (·.key)).Nodup := by
      rw [(hall.map _).nodup_iff, hkeys, hperm.nodup_iff]
      exact s.data.nodup
    rw [List.map_append] at hboth
    exact hboth.of_append_left
  have hchosen : ∀ key ∈ chosen.map (·.key), (s.data.load key).isSome := by
    intro key hkey
    obtain ⟨pair, hpair, rfl⟩ := List.mem_map.mp hkey
    obtain ⟨-, item, hitem, -⟩ := mem_pairsOf.mp (hall.subset (List.mem_append_left _ hpair))
    rw [hitem]
    rfl
  have hdeleted := size_deleteAll hnodup hchosen
  rw [List.length_map] at hdeleted
  have hevicted : evicted maxItems = (max (maxItems.tdiv 5) 1).toNat := rfl
  refine ⟨⟨?_, ?_, ?_⟩, ?_⟩
  · intro key item hitem
    rw [load_deleteAll] at hitem
    split at hitem
    · cases hitem
    · exact hitem
  · omega
  · intro key item key' item' hbefore hafter hkept hearlier
    rw [load_deleteAll] at hafter hkept
    split at hafter
    · rename_i hremoved
      obtain ⟨pair, hpair, rfl⟩ := List.mem_map.mp hremoved
      obtain ⟨-, found, hfound, hpairEq⟩ :=
        mem_pairsOf.mp (hall.subset (List.mem_append_left _ hpair))
      rw [hbefore] at hfound
      obtain rfl := Option.some.inj hfound
      split at hkept
      · cases hkept
      · rename_i hother
        have hthere' : key' ∈ range.arrange s.data.keys := by
          apply hperm.symm.subset
          rw [s.data.mem_keys_iff, hkept]
          rfl
        have hpair' : (⟨key', item'.expiration, item'.sequence⟩ : KeyExpPair K) ∈ chosen ++ rest :=
          hall.symm.subset (mem_pairsOf.mpr ⟨hthere', item', hkept, rfl⟩)
        rcases List.mem_append.mp hpair' with hmem | hmem
        · exact hother (List.mem_map_of_mem (f := KeyExpPair.key) hmem)
        · have hnot := hfirst _ hmem pair hpair
          rw [hpairEq] at hnot
          unfold KeyExpPair.older at hnot
          unfold Item.Before at hearlier
          simp only [Bool.or_eq_false_iff, Bool.and_eq_false_iff, decide_eq_false_iff_not] at hnot
          omega
    · rw [hbefore] at hafter
      cases hafter
  · omega

end selection

section session

inductive Op (K V : Type) where
  | tick (duration : Nat)
  | set (key : K) (value : V) (range : RangeOrder K)
  | get (key : K)

def Op.apply (maxItems ttl : Int) (s : Shared K V) : Op K V → Shared K V
  | .tick duration => { s with now := s.now + duration }
  | .set key value range => setWithTTL maxItems range key value ttl s
  | .get key => (SizedCache.get key s).2

structure Fresh (s : Shared K V) : Prop where
  itemCount : s.itemCount = 0
  data : s.data = .empty

def session (maxItems ttl : Int) : LabelledSystem (Shared K V) (Op K V) :=
  ⟨Fresh, fun s op => some (op.apply maxItems ttl s)⟩

def Unexpired (s : Shared K V) : Op K V → Prop
  | .get key => ∀ item, s.data.load key = some item → s.now ≤ item.expiration
  | _ => True

/-- The count is that of the entries and within the limit, and the entries are no newer than an
entry that is written now. -/
structure Bounded (maxItems ttl : Int) (s : Shared K V) : Prop where
  count : s.itemCount = s.data.size
  bound : 0 < maxItems → s.data.size ≤ maxItems
  expirations : ∀ key item, s.data.load key = some item → item.expiration ≤ s.now + ttl
  sequences : ∀ key item, s.data.load key = some item → item.sequence ≤ s.sequence

variable {maxItems ttl : Int} {s : Shared K V}

theorem setEntry_spec (h : Bounded maxItems ttl s) (key : K) (value : V) :
    (setEntry key value ttl s).itemCount = (setEntry key value ttl s).data.size ∧
      (setEntry key value ttl s).data.size ≤ s.data.size + 1 ∧
      (setEntry key value ttl s).now = s.now ∧
      (setEntry key value ttl s).sequence = s.sequence + 1 ∧
      (setEntry key value ttl s).data.load key = some ⟨value, s.now + ttl, s.sequence + 1⟩ ∧
      ∀ other, other ≠ key → (setEntry key value ttl s).data.load other = s.data.load other := by
  have hcount := h.count
  unfold setEntry
  dsimp only
  by_cases hthere : (s.data.load key).isSome
  · rw [if_pos hthere]
    have hdelete := s.data.size_delete_of_isSome hthere
    have hstore := @SyncMap.size_store_of_load_none _ _ _ (s.data.delete key) key
      ⟨value, s.now + ttl, s.sequence + 1⟩ (SyncMap.load_delete_self _)
    refine ⟨?_, ?_, rfl, rfl, SyncMap.load_store_self _, ?_⟩
    · rw [hstore]
      show s.itemCount = _
      omega
    · rw [hstore]
      omega
    · intro other hother
      rw [SyncMap.load_store_of_ne _ hother, SyncMap.load_delete_of_ne _ hother]
  · rw [if_neg hthere]
    have hnone : s.data.load key = none := Option.not_isSome_iff_eq_none.mp hthere
    have hstore := @SyncMap.size_store_of_load_none _ _ _ s.data key
      ⟨value, s.now + ttl, s.sequence + 1⟩ hnone
    refine ⟨?_, ?_, rfl, rfl, SyncMap.load_store_self _, ?_⟩
    · rw [hstore]
      show s.itemCount + 1 = _
      omega
    · rw [hstore]
    · intro other hother
      exact SyncMap.load_store_of_ne _ hother

theorem evicted_bounds (hpos : 0 < maxItems) : 0 < evicted maxItems ∧ evicted maxItems ≤ maxItems := by
  have hle : maxItems.tdiv 5 ≤ maxItems := Int.tdiv_le_self 5 (Int.le_of_lt hpos)
  unfold evicted
  omega

theorem before_written (h : Bounded maxItems ttl s) {key other : K} {value : V} {item : Item V}
    (hother : other ≠ key) (hload : (setEntry key value ttl s).data.load other = some item) :
    item.Before ⟨value, s.now + ttl, s.sequence + 1⟩ := by
  obtain ⟨-, -, -, -, -, hothers⟩ := setEntry_spec h key value
  rw [hothers other hother] at hload
  have hexpiration := h.expirations other item hload
  have hsequence := h.sequences other item hload
  unfold Item.Before
  dsimp only
  omega

theorem setWithTTL_spec (h : Bounded maxItems ttl s) (range : RangeOrder K) (key : K) (value : V) :
    Bounded maxItems ttl (setWithTTL maxItems range key value ttl s) ∧
      (setWithTTL maxItems range key value ttl s).now = s.now ∧
      (setWithTTL maxItems range key value ttl s).data.load key =
        some ⟨value, s.now + ttl, s.sequence + 1⟩ := by
  obtain ⟨hcount, hsize, hnow, hsequence, hload, hothers⟩ := setEntry_spec h key value
  have hexpirations : ∀ other item, (setEntry key value ttl s).data.load other = some item →
      item.expiration ≤ s.now + ttl ∧ item.sequence ≤ s.sequence + 1 := by
    intro other item hitem
    by_cases hother : other = key
    · rw [hother, hload] at hitem
      obtain rfl := Option.some.inj hitem
      exact ⟨Int.le_refl _, Nat.le_refl _⟩
    · rw [hothers other hother] at hitem
      exact ⟨h.expirations other item hitem, Nat.le_succ_of_le (h.sequences other item hitem)⟩
  unfold setWithTTL
  dsimp only
  split
  · rename_i hover
    obtain ⟨hpos, hover⟩ := hover
    obtain ⟨hremoved, hbalance⟩ := cleanupOldest_removes range hover
    have hbounds := evicted_bounds hpos
    have hbound := h.bound hpos
    have hnow' : (cleanupOldest maxItems range (setEntry key value ttl s)).now = s.now := by
      unfold cleanupOldest
      split <;> exact hnow
    have hsequence' : (cleanupOldest maxItems range (setEntry key value ttl s)).sequence =
        s.sequence + 1 := by
      unfold cleanupOldest
      split <;> exact hsequence
    have hsize' := hremoved.size
    refine ⟨⟨by omega, by omega, ?_, ?_⟩, hnow', ?_⟩
    · intro other item hitem
      rw [hnow']
      exact (hexpirations other item (hremoved.kept other item hitem)).1
    · intro other item hitem
      rw [hsequence']
      exact (hexpirations other item (hremoved.kept other item hitem)).2
    · -- Some entry is left, and the one that was written is the newest of all.
      cases hafter : (cleanupOldest maxItems range (setEntry key value ttl s)).data.load key with
      | some item =>
        rw [← hload]
        exact (hremoved.kept key item hafter).symm
      | none =>
        have hne : (cleanupOldest maxItems range (setEntry key value ttl s)).data.entries ≠ [] := by
          apply List.ne_nil_of_length_pos
          show 0 < (cleanupOldest maxItems range (setEntry key value ttl s)).data.size
          omega
        obtain ⟨entry, hentry⟩ := List.exists_mem_of_ne_nil _ hne
        have hkey := (SyncMap.mem_keys_iff _).mp (List.mem_map_of_mem (f := Prod.fst) hentry)
        obtain ⟨item, hitem⟩ := Option.isSome_iff_exists.mp hkey
        have hother : entry.1 ≠ key := by
          intro hsame
          rw [hsame, hafter] at hitem
          cases hitem
        have hbefore := before_written h hother (hremoved.kept entry.1 item hitem)
        exact absurd hbefore (hremoved.oldest key _ entry.1 item hload hafter hitem)
  · rename_i hwithin
    refine ⟨⟨hcount, ?_, ?_, ?_⟩, hnow, hload⟩
    · intro hpos
      have hle : ¬maxItems < (setEntry key value ttl s).itemCount := fun hlt => hwithin ⟨hpos, hlt⟩
      omega
    · intro other item hitem
      rw [hnow]
      exact (hexpirations other item hitem).1
    · intro other item hitem
      rw [hsequence]
      exact (hexpirations other item hitem).2

theorem get_unexpired {key : K} (h : Unexpired s (.get key : Op K V)) :
    (get key s).2 = s ∧ (get key s).1 = (s.data.load key).map (·.value) := by
  unfold get
  cases hload : s.data.load key with
  | none => exact ⟨rfl, rfl⟩
  | some item =>
    have hfresh := h item hload
    have hnot : ¬item.expiration < s.now := by omega
    dsimp only
    rw [if_neg hnot]
    exact ⟨rfl, rfl⟩

theorem Bounded.apply (h : Bounded maxItems ttl s) {op : Op K V} (hop : Unexpired s op) :
    Bounded maxItems ttl (op.apply maxItems ttl s) := by
  cases op with
  | tick duration =>
    refine ⟨h.count, h.bound, ?_, h.sequences⟩
    intro key item hitem
    have hexpiration := h.expirations key item hitem
    show item.expiration ≤ s.now + duration + ttl
    omega
  | set key value range => exact (setWithTTL_spec h range key value).1
  | get key =>
    show Bounded maxItems ttl (get key s).2
    rw [(get_unexpired hop).1]
    exact h

theorem bounded_of_reaches (h : (session maxItems ttl).Reaches Unexpired s) :
    Bounded maxItems ttl s := by
  refine h.invariant ?_ ?_
  · intro s hs
    have hnone : ∀ key, s.data.load key = none := by
      intro key
      rw [hs.data]
      rfl
    refine ⟨?_, ?_, ?_, ?_⟩
    · rw [hs.itemCount, hs.data]
      rfl
    · intro hpos
      rw [hs.data]
      exact Int.le_of_lt hpos
    · intro key item hitem
      rw [hnone key] at hitem
      cases hitem
    · intro key item hitem
      rw [hnone key] at hitem
      cases hitem
  · intro s op s' hs hop hstep
    obtain rfl := Option.some.inj hstep
    exact hs.apply hop

end session

/-- Over the limit, `cleanupOldest` removes the entries that come first by expiration and sequence,
in whatever order its range visits the map. In a session of one goroutine a `Get` after a `Set` of its
key returns the value, unless it has expired, and no `Set` leaves more entries than the limit. -/
theorem eviction_exact (maxItems ttl : Int) :
    (∀ (range : RangeOrder K) (s : Shared K V),
      if s.itemCount ≤ maxItems then cleanupOldest maxItems range s = s
      else OldestRemoved (max (maxItems.tdiv 5) 1).toNat s.data
        (cleanupOldest maxItems range s).data) ∧
    ∀ (s : Shared K V), (session maxItems ttl).Reaches Unexpired s →
      ∀ (range : RangeOrder K) (key : K) (value : V),
        (0 < maxItems → (setWithTTL maxItems range key value ttl s).data.size ≤ maxItems) ∧
        ∀ duration : Nat, duration ≤ ttl →
          (get key (Op.apply maxItems ttl (setWithTTL maxItems range key value ttl s)
            (.tick duration))).1 = some value := by
  constructor
  · intro range s
    split
    · rename_i hwithin
      exact if_pos hwithin
    · rename_i hover
      exact (cleanupOldest_removes range (by omega)).1
  · intro s hs range key value
    obtain ⟨hbounded, hnow, hload⟩ :=
      setWithTTL_spec (bounded_of_reaches hs) range key value
    refine ⟨hbounded.bound, ?_⟩
    intro duration hduration
    have hunexpired : Unexpired (Op.apply maxItems ttl
        (setWithTTL maxItems range key value ttl s) (.tick duration)) (.get key : Op K V) := by
      intro item hitem
      have hfound := hload.symm.trans hitem
      obtain rfl := Option.some.inj hfound
      show (setWithTTL maxItems range key value ttl s).now + duration ≤ s.now + ttl
      omega
    rw [(get_unexpired hunexpired).2]
    show ((setWithTTL maxItems range key value ttl s).data.load key).map (·.value) = some value
    rw [hload]
    rfl

def unused : Shared String Nat := ⟨0, 0, .empty, 0, []⟩

/-- A third entry in a cache for two. -/
theorem eviction_exact_third :
    (setWithTTL 2 (.id _) "c" 3 10 (setWithTTL 2 (.id _) "b" 2 10
      (setWithTTL 2 (.id _) "a" 1 10 unused))).data.size ≤ 2 ∧
    (get "c" (Op.apply 2 10 (setWithTTL 2 (.id _) "c" 3 10 (setWithTTL 2 (.id _) "b" 2 10
      (setWithTTL 2 (.id _) "a" 1 10 unused))) (.tick 0))).1 = some 3 := by
  have hmeets : (session 2 10).Meets Unexpired unused
      [.set "a" 1 (.id _), .set "b" 2 (.id _)] := ⟨trivial, trivial, trivial⟩
  have hunused : Fresh unused := ⟨rfl, rfl⟩
  have hreaches := Reaches.run (.init hunused) hmeets rfl
  obtain ⟨hsize, hget⟩ := (eviction_exact 2 10).2 _ hreaches (.id _) "c" 3
  exact ⟨Int.ofNat_le.mp (hsize (by decide)), hget 0 (by decide)⟩

/-- Within the limit nothing is removed, and without a limit there are more than 0. -/
theorem within_limit_kept :
    (∃ s : Shared String Nat, s.data.size = 1 ∧ (max (Int.tdiv 10 5) 1).toNat = 2 ∧
      (cleanupOldest 10 (.id _) s).data.size = 1) ∧
    ¬((setWithTTL 0 (.id _) "a" 1 10 unused).data.size : Int) ≤ 0 := by
  constructor
  · exact ⟨setWithTTL 10 (.id _) "a" 1 10 unused, by decide, by decide, by decide⟩
  · decide

end Memoark.Store.SizedCache
