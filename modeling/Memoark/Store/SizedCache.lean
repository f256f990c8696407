import Mathlib.Algebra.Order.Ring.Nat
import Mathlib.Data.Finset.Card
import Mathlib.Data.List.Perm.Basic
import Mathlib.Tactic.Tauto
import Memoark.Go.Sync
import Memoark.System.Runs

/-! `store/cache/cache.go`, each operation split into its steps on the map and on the counter. Every
value of the map is an item, and no caller gives an `OnEviction`. -/
namespace Memoark.Store.SizedCache
open Memoark.System LabelledSystem Go

structure Item (V : Type) where
  value : V
  expiration : Int
  sequence : Nat
  deriving DecidableEq

/-- A call of `Range`: each key is visited at most once, and those that are there all along are
visited. -/
structure Range (K : Type) where
  visited : List K
  /-- The keys there at the start that it has not yet looked at. -/
  ahead : List K

structure KeyExpPair (K : Type) where
  key : K
  expiration : Int
  sequence : Nat

structure Shared (K V : Type) where
  itemCount : Int
  sequence : Nat
  data : SyncMap K (Item V)
  now : Int
  /-- The items that a `Get` found expired, each with the one that it then deleted. -/
  expired : List (Item V × Option (Item V))

inductive Thread (K V : Type) where
  | setSequence (key : K) (value : V) (expiration : Int)
  | setLoad (key : K) (item : Item V)
  | setDelete (key : K) (item : Item V)
  | setAdd (key : K) (item : Item V)
  | setStore (key : K) (item : Item V)
  | setCheck
  | oldestCheck
  | oldestRange (range : Range K) (candidates : List (KeyExpPair K))
  | oldestDelete (candidates : List (KeyExpPair K)) (deletedCount : Nat)
  | getLoad (key : K)
  | getCheck (key : K) (item : Item V)
  | getDelete (key : K) (item : Item V)
  | getAdd
  | deleteLoad (key : K)
  | deleteAdd
  | clearRange (range : Range K)
  | clearDelete (key : K) (range : Range K)
  | clearStore
  | cleanupRange (range : Range K) (count : Nat)
  | cleanupCheck (key : K) (item : Item V) (range : Range K) (count : Nat)
  | cleanupDelete (key : K) (range : Range K) (count : Nat)
  | cleanupAdd (count : Nat)
  | returned (value : Option V)

inductive Call (K V : Type) where
  | set (key : K) (value : V) (ttl : Int)
  | get (key : K)
  | delete (key : K)
  | clear
  | cleanup

inductive Label (K V : Type) where
  | call (call : Call K V)
  /-- A step of a goroutine. A `Range` goes to a key, or ends. -/
  | run (thread : Nat) (key : Option K)
  | tick (duration : Nat)

structure State (K V : Type) where
  shared : Shared K V
  threads : List (Thread K V)

section operations

variable {K V : Type} [DecidableEq K]

def Range.start (data : SyncMap K (Item V)) : Range K := ⟨[], data.keys⟩

def Range.look (range : Range K) (data : SyncMap K (Item V)) (key : K) :
    Option (Range K × Option (Item V)) :=
  if key ∈ range.visited then none
  else
    match data.load key with
    | some item => some (⟨key :: range.visited, range.ahead.erase key⟩, some item)
    | none => some (⟨range.visited, range.ahead.erase key⟩, none)

def Call.begin (shared : Shared K V) : Call K V → Thread K V
  | .set key value ttl => .setSequence key value (shared.now + ttl)
  | .get key => .getLoad key
  | .delete key => .deleteLoad key
  | .clear => .clearRange (.start shared.data)
  | .cleanup => .cleanupRange (.start shared.data) 0

/-- Whether the first comes before the second in the order of removal. -/
def KeyExpPair.older (a b : KeyExpPair K) : Bool :=
  a.expiration < b.expiration || a.expiration = b.expiration && a.sequence < b.sequence

def newestIdx (candidates : List (KeyExpPair K)) : Nat :=
  (List.range' 1 (candidates.length - 1)).foldl
    (fun newest i =>
      match candidates[newest]?, candidates[i]? with
      | some a, some b => if a.older b then i else newest
      | _, _ => newest) 0

/-- The candidates of `cleanupOldest` after it has visited an entry. -/
def considered (threshold : Int) (candidates : List (KeyExpPair K)) (key : K) (item : Item V) :
    List (KeyExpPair K) :=
  let pair : KeyExpPair K := ⟨key, item.expiration, item.sequence⟩
  if candidates.length < threshold then candidates ++ [pair]
  else
    match candidates[newestIdx candidates]? with
    | some newest =>
      if pair.older newest then candidates.set (newestIdx candidates) pair else candidates
    | none => candidates

/-- A step of a goroutine, `none` when it has returned or the range cannot do this. -/
def Thread.step (maxItems : Int) (shared : Shared K V) (pick : Option K) :
    Thread K V → Option (Shared K V × Thread K V)
  | .setSequence key value expiration =>
    some ({ shared with sequence := shared.sequence + 1 },
      .setLoad key ⟨value, expiration, shared.sequence + 1⟩)
  | .setLoad key item =>
    -- Check if item already exists to avoid double counting.
    if (shared.data.load key).isSome then some (shared, .setDelete key item)
    else some (shared, .setAdd key item)
  | .setDelete key item => some ({ shared with data := shared.data.delete key }, .setStore key item)
  | .setAdd key item =>
    some ({ shared with itemCount := shared.itemCount + 1 }, .setStore key item)
  | .setStore key item => some ({ shared with data := shared.data.store key item }, .setCheck)
  | .setCheck =>
    if 0 < maxItems ∧ maxItems < shared.itemCount then some (shared, .oldestCheck)
    else some (shared, .returned none)
  | .oldestCheck =>
    if shared.itemCount ≤ maxItems then some (shared, .returned none)
    else some (shared, .oldestRange (.start shared.data) [])
  | .oldestRange range candidates =>
    match pick with
    | some key => (range.look shared.data key).map fun (range, found) =>
      match found with
      | some item =>
        (shared, .oldestRange range (considered (max (maxItems.tdiv 5) 1) candidates key item))
      | none => (shared, .oldestRange range candidates)
    | none => if range.ahead = [] then some (shared, .oldestDelete candidates 0) else none
  | .oldestDelete [] deletedCount =>
    some ({ shared with itemCount := shared.itemCount - deletedCount }, .returned none)
  | .oldestDelete (candidate :: rest) deletedCount =>
    some ({ shared with data := shared.data.delete candidate.key },
      .oldestDelete rest (deletedCount + 1))
  | .getLoad key =>
    match shared.data.load key with
    | some item => some (shared, .getCheck key item)
    | none => some (shared, .returned none)
  | .getCheck key item =>
    if item.expiration < shared.now then some (shared, .getDelete key item)
    else some (shared, .returned (some item.value))
  | .getDelete key item =>
    some ({ shared with
      data := shared.data.delete key
      expired := shared.expired ++ [(item, shared.data.load key)] }, .getAdd)
  | .getAdd => some ({ shared with itemCount := shared.itemCount - 1 }, .returned none)
  | .deleteLoad key =>
    -- `LoadAndDelete`.
    if (shared.data.load key).isSome then
      some ({ shared with data := shared.data.delete key }, .deleteAdd)
    else some (shared, .returned none)
  | .deleteAdd => some ({ shared with itemCount := shared.itemCount - 1 }, .returned none)
  | .clearRange range =>
    match pick with
    | some key => (range.look shared.data key).map fun (range, found) =>
      (shared, if found.isSome then .clearDelete key range else .clearRange range)
    | none => if range.ahead = [] then some (shared, .clearStore) else none
  | .clearDelete key range =>
    some ({ shared with data := shared.data.delete key }, .clearRange range)
  | .clearStore => some ({ shared with itemCount := 0 }, .returned none)
  | .cleanupRange range count =>
    match pick with
    | some key => (range.look shared.data key).map fun (range, found) =>
      match found with
      | some item => (shared, .cleanupCheck key item range count)
      | none => (shared, .cleanupRange range count)
    | none => if range.ahead = [] then some (shared, .cleanupAdd count) else none
  | .cleanupCheck key item range count =>
    if item.expiration < shared.now then some (shared, .cleanupDelete key range count)
    else some (shared, .cleanupRange range count)
  | .cleanupDelete key range count =>
    some ({ shared with data := shared.data.delete key }, .cleanupRange range (count + 1))
  | .cleanupAdd count =>
    some ({ shared with itemCount := shared.itemCount - count }, .returned none)
  | .returned _ => none

def step (maxItems : Int) (s : State K V) : Label K V → Option (State K V)
  | .call call => some { s with threads := s.threads ++ [call.begin s.shared] }
  | .run i pick => do
    let thread ← s.threads[i]?
    let (shared, thread) ← thread.step maxItems s.shared pick
    return ⟨shared, s.threads.set i thread⟩
  | .tick duration => some { s with shared.now := s.shared.now + duration }

structure Init (s : State K V) : Prop where
  itemCount : s.shared.itemCount = 0
  data : s.shared.data = .empty
  expired : s.shared.expired = []
  threads : s.threads = []

def system (maxItems : Int) : LabelledSystem (State K V) (Label K V) := ⟨Init, step maxItems⟩

def Quiescent (s : State K V) : Prop := ∀ thread ∈ s.threads, ∃ value, thread = .returned value

/-- The count is that of the entries when nothing runs, and no `Get` has deleted anything other than
the expired item that it found. -/
structure Consistent (s : State K V) : Prop where
  size : Quiescent s → s.shared.itemCount = s.shared.data.size
  fresh : ∀ removal ∈ s.shared.expired, ∀ item, removal.2 = some item → item = removal.1

def Thread.owes : Thread K V → Nat
  | .oldestDelete _ deletedCount => deletedCount
  | .getAdd => 1
  | .deleteAdd => 1
  | .cleanupRange _ count => count
  | .cleanupCheck _ _ _ count => count
  | .cleanupDelete _ _ count => count
  | .cleanupAdd count => count
  | _ => 0

def Thread.adding : Thread K V → Option K
  | .setAdd key _ => some key
  | _ => none

def Thread.adds (thread : Thread K V) : Nat := thread.adding.elim 0 fun _ => 1

def Thread.claim : Thread K V → Option K
  | .setDelete key _ => some key
  | .setAdd key _ => some key
  | .setStore key _ => some key
  | _ => none

def Thread.found : Thread K V → Option (K × Item V)
  | .getCheck key item => some (key, item)
  | .getDelete key item => some (key, item)
  | _ => none

def Thread.isClear : Thread K V → Bool
  | .clearRange _ => true
  | .clearDelete _ _ => true
  | .clearStore => true
  | _ => false

def owed (threads : List (Thread K V)) : Nat := (threads.map Thread.owes).sum

def uncounted (threads : List (Thread K V)) : List K := threads.filterMap Thread.adding

/-- The keys in the map and those that a `Set` is about to store. -/
def present (data : SyncMap K (Item V)) (threads : List (Thread K V)) : Finset K :=
  data.keys.toFinset ∪ (threads.filterMap Thread.claim).toFinset

def others (s : State K V) (i : Nat) : List (Thread K V) := s.threads.eraseIdx i

/-- No `Set` is between its look at the key and its store. -/
def Unclaimed (threads : List (Thread K V)) (key : K) : Prop :=
  ∀ thread ∈ threads, thread.claim ≠ some key

/-- A step that no other call has come in the way of: a `Set` does not miss a key that another is
about to store, and what is deleted is there and about to be stored by nobody. When a `Clear` sets
the count, nothing is to be taken from it, and the keys in the map or about to be stored are those
that are still to be added, each once. -/
def Thread.Apart (s : State K V) (others : List (Thread K V)) : Thread K V → Prop
  | .setLoad key _ => (s.shared.data.load key).isSome ∨ Unclaimed others key
  | .deleteLoad key => s.shared.data.load key = none ∨ Unclaimed others key
  | .getDelete key _ => (s.shared.data.load key).isSome ∧ Unclaimed others key
  | .cleanupDelete key _ _ => (s.shared.data.load key).isSome ∧ Unclaimed others key
  | .oldestDelete (candidate :: _) _ =>
    (s.shared.data.load candidate.key).isSome ∧ Unclaimed others candidate.key
  | .clearStore => (∀ other ∈ others, other.owes = 0) ∧ (uncounted others).Nodup ∧
    ∀ key ∈ present s.shared.data others, key ∈ uncounted others
  | _ => True

/-- How often each key has been stored, and how often it had been when a goroutine loaded it. -/
structure History (K : Type) where
  stores : K → Nat
  loaded : Nat → Nat

omit [DecidableEq K] in
def History.start : History K := ⟨fun _ => 0, fun _ => 0⟩

def History.record (h : History K) (s : State K V) : Label K V → History K
  | .run i _ =>
    match s.threads[i]? with
    | some (.setStore key _) => { h with stores := update h.stores key (h.stores key + 1) }
    | some (.getLoad key) => { h with loaded := update h.loaded i (h.stores key) }
    | _ => h
  | _ => h

def Thread.Current (s : State K V) (h : History K) (i : Nat) : Thread K V → Prop
  | .getDelete key _ => s.shared.data.load key = none ∨ h.stores key = h.loaded i
  | _ => True

/-- The count does not matter while another `Clear` is still to set it. -/
def Apart (s : State K V × History K) : Label K V → Prop
  | .run i _ =>
    match s.1.threads[i]? with
    | some thread => thread.Current s.1 s.2 i ∧
        ((∃ other ∈ others s.1 i, other.isClear = true) ∨ thread.Apart s.1 (others s.1 i))
    | none => True
  | _ => True

/-- Unless a `Clear` is under way, the count is right when the calls have added and taken what they
have to. What a `Get` has loaded is there as long as its key is not stored again. -/
structure Inv (s : State K V × History K) : Prop where
  count : (∀ thread ∈ s.1.threads, thread.isClear = false) →
    s.1.shared.itemCount + (uncounted s.1.threads).length =
      (present s.1.shared.data s.1.threads).card + owed s.1.threads
  fresh : ∀ removal ∈ s.1.shared.expired, ∀ item, removal.2 = some item → item = removal.1
  found : ∀ (i : Nat) (thread : Thread K V) (key : K) (item : Item V), s.1.threads[i]? = some thread →
    thread.found = some (key, item) → s.2.loaded i ≤ s.2.stores key ∧
      (s.2.stores key = s.2.loaded i → ∀ item', s.1.shared.data.load key = some item' → item' = item)

omit [DecidableEq K] in
theorem perm_others {s : State K V} {i : Nat} {thread : Thread K V}
    (h : s.threads[i]? = some thread) : s.threads.Perm (thread :: others s i) := by
  obtain ⟨hlt, rfl⟩ := List.getElem?_eq_some_iff.mp h
  exact (List.getElem_cons_eraseIdx_perm hlt).symm

omit [DecidableEq K] in
theorem owed_eq {threads rest : List (Thread K V)} {thread : Thread K V}
    (h : threads.Perm (thread :: rest)) : owed threads = thread.owes + owed rest :=
  (h.map Thread.owes).sum_nat

omit [DecidableEq K] in
theorem length_uncounted_eq {threads rest : List (Thread K V)} {thread : Thread K V}
    (h : threads.Perm (thread :: rest)) :
    (uncounted threads).length = thread.adds + (uncounted rest).length := by
  refine (h.filterMap Thread.adding).length_eq.trans ?_
  rw [List.filterMap_cons, Thread.adds]
  cases thread.adding with
  | none => exact (Nat.zero_add _).symm
  | some key => exact Nat.add_comm _ 1

omit [DecidableEq K] in
theorem owed_eq_zero {threads : List (Thread K V)} (h : ∀ thread ∈ threads, thread.owes = 0) :
    owed threads = 0 := by
  refine List.sum_eq_zero_iff_forall_eq_nat.mpr fun n hn => ?_
  obtain ⟨thread, hthread, rfl⟩ := List.mem_map.mp hn
  exact h thread hthread

section present

variable {data : SyncMap K (Item V)} {threads rest : List (Thread K V)} {thread thread' : Thread K V}
  {key : K}

theorem mem_present : key ∈ present data threads ↔
    (data.load key).isSome ∨ ∃ thread ∈ threads, thread.claim = some key := by
  unfold present
  rw [Finset.mem_union, List.mem_toFinset, List.mem_toFinset, SyncMap.mem_keys_iff,
    List.mem_filterMap]

theorem mem_present_cons : key ∈ present data (thread :: rest) ↔
    (data.load key).isSome ∨ thread.claim = some key ∨ ∃ other ∈ rest, other.claim = some key := by
  rw [mem_present, List.exists_mem_cons_iff]

theorem present_perm (h : threads.Perm rest) : present data threads = present data rest := by
  ext key
  rw [mem_present, mem_present]
  exact or_congr_right (exists_congr fun thread => and_congr_left fun _ => h.mem_iff)

theorem load_delete_isSome (other : K) :
    ((data.delete key).load other).isSome ↔ (data.load other).isSome ∧ other ≠ key := by
  by_cases h : other = key
  · subst h
    simp
  · rw [data.load_delete_of_ne h]
    simp [h]

theorem load_store_isSome (item : Item V) (other : K) :
    ((data.store key item).load other).isSome ↔ (data.load other).isSome ∨ other = key := by
  by_cases h : other = key
  · subst h
    simp
  · rw [data.load_store_of_ne h]
    simp [h]

theorem card_present_adding (hnodup : (uncounted threads).Nodup)
    (hadding : ∀ key ∈ present data threads, key ∈ uncounted threads) :
    (present data threads).card = (uncounted threads).length := by
  have hsame : present data threads = (uncounted threads).toFinset := by
    ext key
    rw [List.mem_toFinset]
    refine ⟨hadding key, fun hkey => ?_⟩
    obtain ⟨thread, hthread, hkey⟩ := List.mem_filterMap.mp hkey
    refine mem_present.mpr (.inr ⟨thread, hthread, ?_⟩)
    cases thread with
    | setAdd added item => exact hkey
    | _ => cases hkey
  rw [hsame, List.toFinset_card_of_nodup hnodup]

theorem card_present_delete (hsome : (data.load key).isSome) (hfree : Unclaimed rest key)
    (hclaim : thread.claim = none) (hclaim' : thread'.claim = none) :
    (present (data.delete key) (thread' :: rest)).card + 1 = (present data (thread :: rest)).card := by
  have herase : present (data.delete key) (thread' :: rest) =
      (present data (thread :: rest)).erase key := by
    ext other
    rw [Finset.mem_erase, mem_present_cons, mem_present_cons, load_delete_isSome, hclaim, hclaim']
    constructor
    · rintro (⟨hother, hne⟩ | hnone | ⟨claiming, hmem, hother⟩)
      · exact ⟨hne, .inl hother⟩
      · cases hnone
      · refine ⟨?_, .inr (.inr ⟨claiming, hmem, hother⟩)⟩
        rintro rfl
        exact hfree claiming hmem hother
    · rintro ⟨hne, hother | hnone | hclaimed⟩
      · exact .inl ⟨hother, hne⟩
      · cases hnone
      · exact .inr (.inr hclaimed)
  rw [herase]
  exact Finset.card_erase_add_one (mem_present_cons.mpr (.inl hsome))

end present

section step

variable {s : State K V} {shared : Shared K V} {thread thread' : Thread K V} {maxItems : Int}
  {pick : Option K} {rest : List (Thread K V)}

structure Balanced (rest : List (Thread K V)) (thread : Thread K V) (before after : Shared K V)
    (thread' : Thread K V) : Prop where
  clear : thread'.isClear = false
  balance : after.itemCount + thread'.adds + (present before.data (thread :: rest)).card +
      thread.owes = before.itemCount + thread.adds + (present after.data (thread' :: rest)).card +
        thread'.owes

theorem Balanced.delete {key : K} {deleted : Shared K V} {next : Thread K V}
    (h : some (deleted, next) = some (shared, thread'))
    (hcount : deleted.itemCount = s.shared.itemCount) (hdata : deleted.data = s.shared.data.delete key)
    (hapart : (s.shared.data.load key).isSome ∧ Unclaimed rest key) (hclear : next.isClear = false)
    (hclaim : thread.claim = none ∧ next.claim = none) (hadds : thread.adds = 0 ∧ next.adds = 0)
    (howes : next.owes = thread.owes + 1) : Balanced rest thread s.shared shared thread' := by
  obtain ⟨rfl, rfl⟩ := Prod.mk.inj (Option.some.inj h)
  have hcard := card_present_delete hapart.1 hapart.2 hclaim.1 hclaim.2
  refine ⟨hclear, ?_⟩
  rw [hdata, ← hcard, hcount, hadds.1, hadds.2, howes]
  omega

theorem Balanced.same {next : Thread K V} {after : Shared K V}
    (h : some (after, next) = some (shared, thread')) (hclear : next.isClear = false)
    (hpresent : ∀ key, (after.data.load key).isSome ∨ next.claim = some key ↔
      (s.shared.data.load key).isSome ∨ thread.claim = some key)
    (hcount : after.itemCount + next.adds + thread.owes =
      s.shared.itemCount + thread.adds + next.owes) :
    Balanced rest thread s.shared shared thread' := by
  obtain ⟨rfl, rfl⟩ := Prod.mk.inj (Option.some.inj h)
  have hsame : present after.data (next :: rest) = present s.shared.data (thread :: rest) := by
    ext key
    rw [mem_present_cons, mem_present_cons, ← or_assoc, ← or_assoc, hpresent key]
  refine ⟨hclear, ?_⟩
  rw [hsame]
  omega

theorem Balanced.pay {paid : Shared K V} {next : Thread K V}
    (h : some (paid, next) = some (shared, thread'))
    (hcount : paid.itemCount = s.shared.itemCount - thread.owes) (hdata : paid.data = s.shared.data)
    (hclear : next.isClear = false) (hclaim : next.claim = thread.claim)
    (hadds : next.adds = thread.adds) (howes : next.owes = 0) :
    Balanced rest thread s.shared shared thread' := by
  refine .same h hclear (fun key => ?_) ?_
  · rw [hdata, hclaim]
  · rw [hcount, hadds, howes]
    omega

/-- The goroutine reads the map, the count or the clock, and writes nothing. -/
def Thread.reads : Thread K V → Bool
  | .setCheck | .oldestCheck | .oldestRange _ _ => true
  | .getLoad _ | .getCheck _ _ => true
  | .clearRange _ | .cleanupRange _ _ | .cleanupCheck _ _ _ _ => true
  | _ => false

theorem Thread.step_reads (h : thread.step maxItems s.shared pick = some (shared, thread'))
    (hreads : thread.reads = true) :
    shared = s.shared ∧ thread'.isClear = thread.isClear ∧ thread'.owes = thread.owes ∧
      thread'.adds = thread.adds ∧ thread'.claim = thread.claim := by
  have hquiet : ∀ {next : Thread K V}, some (s.shared, next) = some (shared, thread') →
      next.isClear = thread.isClear → next.owes = thread.owes → next.adds = thread.adds →
      next.claim = thread.claim → shared = s.shared ∧ thread'.isClear = thread.isClear ∧
        thread'.owes = thread.owes ∧ thread'.adds = thread.adds ∧ thread'.claim = thread.claim := by
    intro next hnext hclear howes hadds hclaim
    obtain ⟨rfl, rfl⟩ := Prod.mk.inj (Option.some.inj hnext)
    exact ⟨rfl, hclear, howes, hadds, hclaim⟩
  cases thread with
  | setCheck | oldestCheck | getLoad | getCheck | cleanupCheck =>
    simp only [step] at h
    split at h
    · exact hquiet h rfl rfl rfl rfl
    · exact hquiet h rfl rfl rfl rfl
  | oldestRange | clearRange | cleanupRange =>
    cases pick with
    | some key =>
      obtain ⟨⟨range', found⟩, -, h⟩ := Option.map_eq_some_iff.mp h
      cases found with
      | some item => exact hquiet (congrArg some h) rfl rfl rfl rfl
      | none => exact hquiet (congrArg some h) rfl rfl rfl rfl
    | none =>
      obtain ⟨-, h⟩ := Option.ite_none_right_eq_some.mp h
      exact hquiet h rfl rfl rfl rfl
  | _ => cases hreads

theorem Thread.setLoad_balanced {key : K} {item : Item V}
    (h : (Thread.setLoad key item).step maxItems s.shared pick = some (shared, thread'))
    (hapart : (s.shared.data.load key).isSome ∨ Unclaimed rest key) :
    Balanced rest (.setLoad key item) s.shared shared thread' := by
  simp only [step] at h
  split at h
  · rename_i hsome
    refine .same h rfl (fun other => ?_) rfl
    constructor
    · rintro (hother | hclaim)
      · exact .inl hother
      · obtain rfl := Option.some.inj hclaim
        exact .inl hsome
    · rintro (hother | hclaim)
      · exact .inl hother
      · cases hclaim
  · rename_i hnone
    obtain ⟨rfl, rfl⟩ := Prod.mk.inj (Option.some.inj h)
    have hfree := hapart.resolve_left hnone
    have hinsert : present s.shared.data (.setAdd key item :: rest) =
        insert key (present s.shared.data (.setLoad key item :: rest)) := by
      ext other
      rw [Finset.mem_insert, mem_present_cons, mem_present_cons]
      simp only [claim, Option.some.injEq, reduceCtorEq, false_or, eq_comm (a := key)]
      tauto
    have hnot : key ∉ present s.shared.data (.setLoad key item :: rest) := by
      rw [mem_present_cons]
      rintro (hsome | hclaim | ⟨other, hmem, hother⟩)
      · exact hnone hsome
      · cases hclaim
      · exact hfree other hmem hother
    refine ⟨rfl, ?_⟩
    rw [hinsert, Finset.card_insert_of_notMem hnot]
    simp only [adds, adding, owes, Option.elim]
    omega

theorem Thread.step_balanced (h : thread.step maxItems s.shared pick = some (shared, thread'))
    (hclear : thread.isClear = false) (hapart : thread.Apart s rest) :
    Balanced rest thread s.shared shared thread' := by
  by_cases hreads : thread.reads = true
  · obtain ⟨rfl, hkept, howes, hadds, hclaim⟩ := step_reads h hreads
    refine .same (congrArg some rfl) (hkept.trans hclear) (fun key => by rw [hclaim]) ?_
    rw [howes, hadds]
  cases thread with
  | setSequence key value expiration => exact .same h rfl (fun _ => .rfl) rfl
  | setLoad key item => exact setLoad_balanced h hapart
  | setDelete key item =>
    refine .same h rfl (fun other => ?_) rfl
    rw [load_delete_isSome]
    simp only [claim, Option.some.injEq]
    tauto
  | setAdd key item =>
    refine .same h rfl (fun _ => .rfl) ?_
    simp only [adds, adding, owes, Option.elim]
    omega
  | setStore key item =>
    refine .same h rfl (fun other => ?_) rfl
    rw [load_store_isSome]
    simp only [claim, Option.some.injEq, reduceCtorEq, or_false, eq_comm (a := key)]
  | oldestDelete candidates deletedCount =>
    cases candidates with
    | nil => exact .pay h rfl rfl rfl rfl rfl rfl
    | cons candidate rest => exact .delete h rfl rfl hapart rfl ⟨rfl, rfl⟩ ⟨rfl, rfl⟩ rfl
  | getDelete key item => exact .delete h rfl rfl hapart rfl ⟨rfl, rfl⟩ ⟨rfl, rfl⟩ rfl
  | getAdd => exact .pay h rfl rfl rfl rfl rfl rfl
  | deleteLoad key =>
    simp only [step] at h
    split at h
    · rename_i hsome
      have hfree := hapart.resolve_left (Option.ne_none_iff_isSome.mpr hsome)
      exact .delete h rfl rfl ⟨hsome, hfree⟩ rfl ⟨rfl, rfl⟩ ⟨rfl, rfl⟩ rfl
    · exact .same h rfl (fun _ => .rfl) rfl
  | deleteAdd => exact .pay h rfl rfl rfl rfl rfl rfl
  | cleanupDelete key range count => exact .delete h rfl rfl hapart rfl ⟨rfl, rfl⟩ ⟨rfl, rfl⟩ rfl
  | cleanupAdd count => exact .pay h rfl rfl rfl rfl rfl rfl
  | clearDelete | clearStore => cases hclear
  | returned value => cases h
  | _ => exact absurd rfl hreads

theorem Thread.step_data (h : thread.step maxItems s.shared pick = some (shared, thread')) :
    (∃ key item, thread = .setStore key item ∧ shared.data = s.shared.data.store key item) ∨
      shared.data = s.shared.data ∨ ∃ key, shared.data = s.shared.data.delete key := by
  by_cases hreads : thread.reads = true
  · obtain ⟨rfl, -⟩ := step_reads h hreads
    exact .inr (.inl rfl)
  cases thread with
  | setStore key item =>
    obtain ⟨rfl, -⟩ := Prod.mk.inj (Option.some.inj h)
    exact .inl ⟨key, item, rfl, rfl⟩
  | setLoad key item =>
    simp only [step] at h
    split at h
    · exact .inr (.inl (by rw [← (Prod.mk.inj (Option.some.inj h)).1]))
    · exact .inr (.inl (by rw [← (Prod.mk.inj (Option.some.inj h)).1]))
  | oldestDelete candidates deletedCount =>
    cases candidates with
    | nil => exact .inr (.inl (by rw [← (Prod.mk.inj (Option.some.inj h)).1]))
    | cons candidate rest =>
      exact .inr (.inr ⟨candidate.key, by rw [← (Prod.mk.inj (Option.some.inj h)).1]⟩)
  | deleteLoad key =>
    simp only [step] at h
    split at h
    · exact .inr (.inr ⟨key, by rw [← (Prod.mk.inj (Option.some.inj h)).1]⟩)
    · exact .inr (.inl (by rw [← (Prod.mk.inj (Option.some.inj h)).1]))
  | setDelete key | getDelete key | clearDelete key | cleanupDelete key =>
    exact .inr (.inr ⟨key, by rw [← (Prod.mk.inj (Option.some.inj h)).1]⟩)
  | setSequence | setAdd | getAdd | deleteAdd | clearStore | cleanupAdd =>
    exact .inr (.inl (by rw [← (Prod.mk.inj (Option.some.inj h)).1]))
  | returned value => cases h
  | _ => exact absurd rfl hreads

theorem Thread.step_load (h : thread.step maxItems s.shared pick = some (shared, thread')) {key : K}
    (hstore : ∀ item, thread ≠ .setStore key item) {item : Item V}
    (hload : shared.data.load key = some item) : s.shared.data.load key = some item := by
  rcases step_data h with ⟨other, stored, rfl, hdata⟩ | hdata | ⟨other, hdata⟩
  · have hne : key ≠ other := by
      rintro rfl
      exact hstore stored rfl
    rw [hdata, SyncMap.load_store_of_ne _ hne] at hload
    exact hload
  · rw [hdata] at hload
    exact hload
  · rw [hdata] at hload
    by_cases hkey : key = other
    · subst hkey
      rw [SyncMap.load_delete_self] at hload
      cases hload
    · rw [SyncMap.load_delete_of_ne _ hkey] at hload
      exact hload

theorem Thread.step_expired (h : thread.step maxItems s.shared pick = some (shared, thread')) :
    shared.expired = s.shared.expired ∨
      ∃ key item, thread = .getDelete key item ∧
        shared.expired = s.shared.expired ++ [(item, s.shared.data.load key)] := by
  by_cases hreads : thread.reads = true
  · obtain ⟨rfl, -⟩ := step_reads h hreads
    exact .inl rfl
  cases thread with
  | getDelete key item =>
    obtain ⟨rfl, rfl⟩ := Prod.mk.inj (Option.some.inj h)
    exact .inr ⟨key, item, rfl, rfl⟩
  | oldestDelete candidates deletedCount =>
    left
    cases candidates with
    | nil => rw [← (Prod.mk.inj (Option.some.inj h)).1]
    | cons candidate rest => rw [← (Prod.mk.inj (Option.some.inj h)).1]
  | deleteLoad key | setLoad key =>
    left
    simp only [step] at h
    split at h
    · rw [← (Prod.mk.inj (Option.some.inj h)).1]
    · rw [← (Prod.mk.inj (Option.some.inj h)).1]
  | setSequence | setDelete | setAdd | setStore | getAdd | deleteAdd | clearDelete | clearStore
  | cleanupDelete | cleanupAdd =>
    left
    rw [← (Prod.mk.inj (Option.some.inj h)).1]
  | returned value => cases h
  | _ => exact absurd rfl hreads

theorem Thread.step_found (h : thread.step maxItems s.shared pick = some (shared, thread')) {key : K}
    {item : Item V} (hfound : thread'.found = some (key, item)) : shared = s.shared ∧
      (thread = .getLoad key ∧ s.shared.data.load key = some item ∨
        thread.found = some (key, item)) := by
  cases thread with
  | getLoad key' =>
    simp only [step] at h
    split at h
    · rename_i item' hload
      obtain ⟨rfl, rfl⟩ := Prod.mk.inj (Option.some.inj h)
      obtain ⟨rfl, rfl⟩ := Prod.mk.inj (Option.some.inj hfound)
      exact ⟨rfl, .inl ⟨rfl, hload⟩⟩
    · obtain ⟨rfl, rfl⟩ := Prod.mk.inj (Option.some.inj h)
      cases hfound
  | getCheck key' item' =>
    simp only [step] at h
    split at h
    · obtain ⟨rfl, rfl⟩ := Prod.mk.inj (Option.some.inj h)
      exact ⟨rfl, .inr hfound⟩
    · obtain ⟨rfl, rfl⟩ := Prod.mk.inj (Option.some.inj h)
      cases hfound
  | oldestDelete candidates deletedCount =>
    cases candidates with
    | nil =>
      obtain ⟨-, rfl⟩ := Prod.mk.inj (Option.some.inj h)
      cases hfound
    | cons candidate rest =>
      obtain ⟨-, rfl⟩ := Prod.mk.inj (Option.some.inj h)
      cases hfound
  | setLoad | setCheck | oldestCheck | deleteLoad | cleanupCheck =>
    simp only [step] at h
    split at h
    · obtain ⟨-, rfl⟩ := Prod.mk.inj (Option.some.inj h)
      cases hfound
    · obtain ⟨-, rfl⟩ := Prod.mk.inj (Option.some.inj h)
      cases hfound
  | oldestRange | clearRange | cleanupRange =>
    cases pick with
    | some other =>
      obtain ⟨⟨range', looked⟩, -, h⟩ := Option.map_eq_some_iff.mp h
      obtain ⟨-, rfl⟩ := Prod.mk.inj h
      cases looked with
      | some item => cases hfound
      | none => cases hfound
    | none =>
      obtain ⟨-, h⟩ := Option.ite_none_right_eq_some.mp h
      obtain ⟨-, rfl⟩ := Prod.mk.inj (Option.some.inj h)
      cases hfound
  | setSequence | setDelete | setAdd | setStore | getDelete | getAdd | deleteAdd | clearDelete
  | clearStore | cleanupDelete | cleanupAdd =>
    obtain ⟨-, rfl⟩ := Prod.mk.inj (Option.some.inj h)
    cases hfound
  | returned value => cases h

theorem Thread.step_clear (h : thread.step maxItems s.shared pick = some (shared, thread'))
    (hclear : thread.isClear = true) (hclear' : thread'.isClear = false) :
    thread = .clearStore ∧ shared.itemCount = 0 ∧ shared.data = s.shared.data ∧
      thread' = .returned none := by
  cases thread with
  | clearStore =>
    obtain ⟨rfl, rfl⟩ := Prod.mk.inj (Option.some.inj h)
    exact ⟨rfl, rfl, rfl, rfl⟩
  | clearRange range =>
    have hkept := (step_reads h rfl).2.1
    rw [hclear'] at hkept
    cases hkept
  | clearDelete key range =>
    obtain ⟨-, rfl⟩ := Prod.mk.inj (Option.some.inj h)
    cases hclear'
  | _ => cases hclear

end step

section runs

variable {s s' : State K V} {h : History K} {maxItems : Int}

theorem Inv.init (hinit : Init s) : Inv (s, .start) where
  count _ := by
    show s.shared.itemCount + (uncounted s.threads).length =
      (present s.shared.data s.threads).card + owed s.threads
    rw [hinit.itemCount, hinit.data, hinit.threads]
    rfl
  fresh removal hremoval := by
    have hnone : removal ∈ s.shared.expired := hremoval
    rw [hinit.expired] at hnone
    cases hnone
  found i thread key item hthread := by
    have hnone : s.threads[i]? = some thread := hthread
    rw [hinit.threads] at hnone
    cases hnone

theorem Inv.call (hinv : Inv (s, h)) (call : Call K V) :
    Inv ({ s with threads := s.threads ++ [call.begin s.shared] }, h) where
  count hclear := by
    have hzero : (call.begin s.shared).owes = 0 ∧ (call.begin s.shared).adds = 0 ∧
        (call.begin s.shared).claim = none := by
      cases call with
      | set | get | delete | clear | cleanup => exact ⟨rfl, rfl, rfl⟩
    have hperm : (s.threads ++ [call.begin s.shared]).Perm (call.begin s.shared :: s.threads) :=
      List.perm_append_singleton _ _
    have hcount := hinv.count fun thread hthread => hclear thread (List.mem_append_left _ hthread)
    have howed := owed_eq hperm
    have hadded := length_uncounted_eq hperm
    have hpresent : present s.shared.data (s.threads ++ [call.begin s.shared]) =
        present s.shared.data s.threads := by
      rw [present_perm hperm]
      ext key
      rw [mem_present_cons, mem_present, hzero.2.2]
      simp
    dsimp only at hcount ⊢
    rw [hpresent]
    omega
  fresh := hinv.fresh
  found i thread key item hthread hfound := by
    dsimp only at hthread
    rw [List.getElem?_append] at hthread
    split at hthread
    · exact hinv.found i thread key item hthread hfound
    · obtain ⟨-, hthread⟩ := Option.ite_none_right_eq_some.mp (List.getElem?_singleton ▸ hthread)
      obtain rfl := Option.some.inj hthread
      cases call with
      | set | get | delete | clear | cleanup => cases hfound

section record

variable {i : Nat} {pick : Option K} {thread : Thread K V}

theorem History.record_of (hthread : s.threads[i]? = some thread)
    (hstore : ∀ key item, thread ≠ .setStore key item) (hload : ∀ key, thread ≠ .getLoad key) :
    h.record s (.run i pick) = h := by
  unfold record
  dsimp only
  rw [hthread]
  cases thread with
  | setStore key item => exact absurd rfl (hstore key item)
  | getLoad key => exact absurd rfl (hload key)
  | _ => rfl

theorem History.record_store {key : K} {item : Item V}
    (hthread : s.threads[i]? = some (.setStore key item)) : h.record s (.run i pick) =
      { h with stores := update h.stores key (h.stores key + 1) } := by
  unfold record
  dsimp only
  rw [hthread]

theorem History.record_load {key : K} (hthread : s.threads[i]? = some (.getLoad key)) :
    h.record s (.run i pick) = { h with loaded := update h.loaded i (h.stores key) } := by
  unfold record
  dsimp only
  rw [hthread]

theorem History.record_other (hthread : s.threads[i]? = some thread) {j : Nat} (hj : j ≠ i) (key : K) :
    (h.record s (.run i pick)).loaded j = h.loaded j ∧
      ((h.record s (.run i pick)).stores key = h.stores key ∧
          (∀ item, thread ≠ .setStore key item) ∨
        (h.record s (.run i pick)).stores key = h.stores key + 1) := by
  by_cases hstore : ∃ key item, thread = .setStore key item
  · obtain ⟨stored, item, rfl⟩ := hstore
    rw [record_store hthread]
    refine ⟨rfl, ?_⟩
    by_cases hkey : key = stored
    · subst hkey
      exact .inr (update_self ..)
    · refine .inl ⟨update_of_ne hkey, fun item heq => hkey ?_⟩
      exact (Thread.setStore.inj heq).1.symm
  · have hne : ∀ key item, thread ≠ .setStore key item := fun key item heq => hstore ⟨key, item, heq⟩
    by_cases hload : ∃ key, thread = .getLoad key
    · obtain ⟨loaded, rfl⟩ := hload
      rw [record_load hthread]
      exact ⟨update_of_ne hj, .inl ⟨rfl, hne key⟩⟩
    · rw [record_of hthread hne fun key heq => hload ⟨key, heq⟩]
      exact ⟨rfl, .inl ⟨rfl, hne key⟩⟩

end record

theorem Inv.run_found {i j : Nat} {pick : Option K} {thread thread' other : Thread K V}
    {shared : Shared K V} (hinv : Inv (s, h)) (hthread : s.threads[i]? = some thread)
    (hstep : thread.step maxItems s.shared pick = some (shared, thread')) {key : K} {item : Item V}
    (hother : (s.threads.set i thread')[j]? = some other) (hfound : other.found = some (key, item)) :
    (h.record s (.run i pick)).loaded j ≤ (h.record s (.run i pick)).stores key ∧
      ((h.record s (.run i pick)).stores key = (h.record s (.run i pick)).loaded j →
        ∀ item', shared.data.load key = some item' → item' = item) := by
  have hlt : i < s.threads.length := (List.getElem?_eq_some_iff.mp hthread).1
  by_cases hj : j = i
  · subst hj
    rw [List.getElem?_set_self hlt] at hother
    obtain rfl := Option.some.inj hother
    obtain ⟨rfl, ⟨rfl, hload⟩ | hbefore⟩ := Thread.step_found hstep hfound
    · rw [History.record_load hthread]
      dsimp only
      rw [update_self]
      refine ⟨Nat.le_refl _, fun _ item' hitem' => ?_⟩
      rw [hload] at hitem'
      exact (Option.some.inj hitem').symm
    · have hsame : h.record s (.run j pick) = h := by
        refine History.record_of hthread (fun _ _ heq => ?_) fun _ heq => ?_
        · rw [heq] at hbefore
          cases hbefore
        · rw [heq] at hbefore
          cases hbefore
      rw [hsame]
      exact hinv.found j thread key item hthread hbefore
  · rw [List.getElem?_set_ne fun hij => hj hij.symm] at hother
    obtain ⟨hle, hcurrent⟩ := hinv.found j other key item hother hfound
    have hle : h.loaded j ≤ h.stores key := hle
    obtain ⟨hloaded, ⟨hstores, hne⟩ | hstores⟩ :=
      @History.record_other K V _ s h i pick _ hthread j hj key
    · rw [hloaded, hstores]
      refine ⟨hle, fun heq item' hitem' => ?_⟩
      exact hcurrent heq item' (Thread.step_load hstep hne hitem')
    · rw [hloaded, hstores]
      exact ⟨Nat.le_succ_of_le hle, fun heq => by omega⟩

theorem Inv.run {i : Nat} {pick : Option K} {thread thread' : Thread K V} {shared : Shared K V}
    (hinv : Inv (s, h)) (hapart : Apart (s, h) (.run i pick)) (hthread : s.threads[i]? = some thread)
    (hstep : thread.step maxItems s.shared pick = some (shared, thread')) :
    Inv (⟨shared, s.threads.set i thread'⟩, h.record s (.run i pick)) := by
  have hlt : i < s.threads.length := (List.getElem?_eq_some_iff.mp hthread).1
  have hperm := perm_others hthread
  have hperm' : (s.threads.set i thread').Perm (thread' :: others s i) := by
    have hp := perm_others (s := ⟨shared, s.threads.set i thread'⟩) (List.getElem?_set_self hlt)
    unfold others at hp
    rw [List.eraseIdx_set_eq] at hp
    exact hp
  simp only [Apart, hthread] at hapart
  obtain ⟨hcurrent, hapart⟩ := hapart
  refine ⟨fun hclear => ?_, fun removal hremoval item hitem => ?_,
    fun j other key item hother hfound => hinv.run_found hthread hstep hother hfound⟩
  · have hothers : ∀ other ∈ others s i, other.isClear = false :=
      fun other hother => hclear other (hperm'.mem_iff.mpr (List.mem_cons_of_mem _ hother))
    have hclear' : thread'.isClear = false := hclear thread' (hperm'.mem_iff.mpr List.mem_cons_self)
    have hapart : thread.Apart s (others s i) := by
      rcases hapart with ⟨other, hother, hother'⟩ | hapart
      · rw [hothers other hother] at hother'
        cases hother'
      · exact hapart
    have howed := owed_eq hperm
    have howed' := owed_eq hperm'
    have hadded := length_uncounted_eq hperm
    have hadded' := length_uncounted_eq hperm'
    have hpresent : present s.shared.data s.threads = present s.shared.data (thread :: others s i) :=
      present_perm hperm
    have hpresent' : present shared.data (s.threads.set i thread') =
        present shared.data (thread' :: others s i) := present_perm hperm'
    dsimp only
    rw [hpresent', howed', hadded']
    cases hthreadClear : thread.isClear with
    | true =>
      obtain ⟨rfl, hzero, hdata, rfl⟩ := Thread.step_clear hstep hthreadClear hclear'
      obtain ⟨hnone, hnodup, hadding⟩ := hapart
      have hsame : present shared.data (.returned none :: others s i) =
          present s.shared.data (others s i) := by
        ext key
        rw [hdata, mem_present_cons, mem_present]
        simp [Thread.claim]
      rw [hsame, hzero, card_present_adding hnodup hadding, owed_eq_zero hnone]
      simp only [Thread.adds, Thread.adding, Thread.owes, Option.elim]
      omega
    | false =>
      have hcount := hinv.count fun other hother => by
        rcases List.mem_cons.mp (hperm.mem_iff.mp hother) with rfl | hother
        · exact hthreadClear
        · exact hothers other hother
      have hbalance := (Thread.step_balanced hstep hthreadClear hapart).balance
      dsimp only at hcount
      rw [hpresent, howed, hadded] at hcount
      omega
  · rcases Thread.step_expired hstep with hsame | ⟨key, found, rfl, hexpired⟩
    · exact hinv.fresh removal (hsame ▸ hremoval) item hitem
    · have hremoval : removal ∈ s.shared.expired ++ [(found, s.shared.data.load key)] :=
        hexpired ▸ hremoval
      rcases List.mem_append.mp hremoval with hold | hnew
      · exact hinv.fresh removal hold item hitem
      · obtain rfl := List.mem_singleton.mp hnew
        have hload : s.shared.data.load key = some item := hitem
        rcases hcurrent with hnone | hstores
        · rw [hnone] at hload
          cases hload
        · exact (hinv.found i _ key found hthread rfl).2 hstores item hload

theorem Inv.step {label : Label K V} (hinv : Inv (s, h)) (hapart : Apart (s, h) label)
    (hstep : step maxItems s label = some s') : Inv (s', h.record s label) := by
  cases label with
  | call call =>
    obtain rfl := Option.some.inj hstep
    exact hinv.call call
  | run i pick =>
    obtain ⟨thread, hthread, hstep⟩ := Option.bind_eq_some_iff.mp hstep
    obtain ⟨⟨shared, thread'⟩, hrun, hstep⟩ := Option.bind_eq_some_iff.mp hstep
    obtain rfl := Option.some.inj hstep
    exact hinv.run hapart hthread hrun
  | tick duration =>
    obtain rfl := Option.some.inj hstep
    exact ⟨hinv.count, hinv.fresh, hinv.found⟩

theorem Inv.consistent (hinv : Inv (s, h)) : Consistent s := by
  refine ⟨fun hquiet => ?_, hinv.fresh⟩
  have hreturned : ∀ thread ∈ s.threads, thread.isClear = false ∧ thread.owes = 0 ∧
      thread.adding = none ∧ thread.claim = none := by
    intro thread hthread
    obtain ⟨value, rfl⟩ := hquiet thread hthread
    exact ⟨rfl, rfl, rfl, rfl⟩
  have howed : owed s.threads = 0 := owed_eq_zero fun thread hthread => (hreturned thread hthread).2.1
  have hadded : uncounted s.threads = [] :=
    List.filterMap_eq_nil_iff.mpr fun thread hthread => (hreturned thread hthread).2.2.1
  have hpresent : present s.shared.data s.threads = s.shared.data.keys.toFinset := by
    ext key
    rw [mem_present, List.mem_toFinset, SyncMap.mem_keys_iff, or_iff_left]
    rintro ⟨thread, hthread, hclaim⟩
    rw [(hreturned thread hthread).2.2.2] at hclaim
    cases hclaim
  have hsize : s.shared.data.keys.toFinset.card = s.shared.data.size := by
    have hnodup : s.shared.data.keys.Nodup := s.shared.data.nodup
    rw [List.toFinset_card_of_nodup hnodup]
    exact List.length_map _
  have hcount := hinv.count fun thread hthread => (hreturned thread hthread).1
  dsimp only at hcount
  rw [hpresent, hsize, howed, hadded] at hcount
  simpa using hcount

/-- As long as no call comes in the way of another, the count is right whenever all calls have
returned, and a `Get` deletes only the expired item that it found. -/
theorem throughout_consistent (hinit : Init s) {labels : List (Label K V)}
    (hapart : ((system maxItems).tracked .start History.record).Meets Apart (s, .start) labels) :
    (system maxItems).Throughout Consistent s labels :=
  hapart.throughout_tracked (I := Inv) (.init hinit) (fun _ _ hinv => hinv.consistent)
    fun _ _ _ _ hinv hlabel hstep => hinv.step hlabel hstep

end runs

end operations

def new : State String Nat := ⟨⟨0, 0, .empty, 0, []⟩, []⟩

theorem new_init : Init new := ⟨rfl, rfl, rfl, rfl⟩

/-- Two calls of `Set` of a key that is there overlap, and a `Get` then finds its item expired. -/
theorem throughout_consistent_overlapping :
    (system 1000).Throughout Consistent new [.call (.set "a" 1 10), .run 0 none, .run 0 none,
      .run 0 none, .run 0 none, .run 0 none, .call (.set "a" 2 10), .call (.set "a" 3 10),
      .run 1 none, .run 2 none, .run 1 none, .run 2 none, .run 1 none, .run 2 none, .run 1 none,
      .run 2 none, .run 1 none, .run 2 none, .tick 11, .call (.get "a"), .run 3 none, .run 3 none,
      .run 3 none, .run 3 none] := by
  have hfree : ∀ threads : List (Thread String Nat),
      (∀ thread ∈ threads, thread = .returned none) → Unclaimed threads "a" := by
    intro threads hreturned thread hthread hclaim
    rw [hreturned thread hthread] at hclaim
    cases hclaim
  refine throughout_consistent new_init ⟨trivial, ⟨trivial, .inr trivial⟩,
    ⟨trivial, .inr (.inr (hfree [] (List.forall_mem_nil _)))⟩, ⟨trivial, .inr trivial⟩,
    ⟨trivial, .inr trivial⟩, ⟨trivial, .inr trivial⟩, trivial, trivial, ⟨trivial, .inr trivial⟩,
    ⟨trivial, .inr trivial⟩, ⟨trivial, .inr (.inl rfl)⟩, ⟨trivial, .inr (.inl rfl)⟩,
    ⟨trivial, .inr trivial⟩, ⟨trivial, .inr trivial⟩, ⟨trivial, .inr trivial⟩,
    ⟨trivial, .inr trivial⟩, ⟨trivial, .inr trivial⟩, ⟨trivial, .inr trivial⟩, trivial, trivial,
    ⟨trivial, .inr trivial⟩, ⟨trivial, .inr trivial⟩, ⟨.inr rfl, .inr ⟨rfl, hfree _ ?_⟩⟩,
    ⟨trivial, .inr trivial⟩, trivial⟩
  intro thread hthread
  have hthree : thread ∈ List.replicate 3 (.returned none) := hthread
  exact List.eq_of_mem_replicate hthree

/-- Three calls of `Get` find the same expired item. The first deletes it, the second the item that
was stored since, and the third nothing, but each takes one from the count. -/
theorem expired_gets_inconsistent :
    ∃ s : State String Nat, (system 1000).Reaches (fun _ _ => True) s ∧ Quiescent s ∧
      s.shared.itemCount = -1 ∧ s.shared.data.size = 0 ∧
      (⟨1, 10, 1⟩, some ⟨2, 21, 2⟩) ∈ s.shared.expired ∧ ¬Consistent s := by
  have hquiet : Quiescent (K := String) ⟨⟨-1, 2, .empty, 11,
      [(⟨1, 10, 1⟩, some ⟨1, 10, 1⟩), (⟨1, 10, 1⟩, some ⟨2, 21, 2⟩), (⟨1, 10, 1⟩, none)]⟩,
      List.replicate 5 (.returned none)⟩ := by
    intro thread hthread
    exact ⟨none, (List.eq_of_mem_replicate hthread)⟩
  have hmeets := meets_true (S := system 1000) new [.call (.set "a" 1 10), .run 0 none,
    .run 0 none, .run 0 none, .run 0 none, .run 0 none, .tick 11, .call (.get "a"),
    .call (.get "a"), .call (.get "a"), .run 1 none, .run 1 none, .run 2 none, .run 2 none,
    .run 3 none, .run 3 none, .run 1 none, .run 1 none, .call (.set "a" 2 10), .run 4 none,
    .run 4 none, .run 4 none, .run 4 none, .run 4 none, .run 2 none, .run 2 none, .run 3 none,
    .run 3 none]
  refine ⟨_, .run (.init new_init) hmeets rfl, hquiet, rfl, rfl, ?_, ?_⟩
  · exact List.mem_cons_of_mem _ List.mem_cons_self
  · intro h
    cases h.size hquiet

end Memoark.Store.SizedCache
