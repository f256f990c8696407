import Mathlib.Data.List.Nodup

/-! Buffered channels of Go, where what panics is an error, its `sync.Map`, and the orders in which
maps are ranged over. -/
namespace Memoark.Go

/-- The buffer holds what is sent and not yet received. -/
structure Chan (α : Type) where
  cap : Nat
  buffer : List α
  closed : Bool
  fits : buffer.length ≤ cap

namespace Chan

variable {α : Type}

def make (cap : Nat) : Chan α := ⟨cap, [], false, Nat.zero_le cap⟩

def close (ch : Chan α) : Except String (Chan α) :=
  if ch.closed then .error "close of closed channel" else .ok { ch with closed := true }

def trySend (ch : Chan α) (a : α) : Except String (Chan α) :=
  if ch.closed then .error "send on closed channel"
  else if h : ch.buffer.length < ch.cap then
    .ok { ch with
      buffer := ch.buffer ++ [a]
      fits := by
        rw [List.length_append]
        exact h }
  else .ok ch

/-- A receive, which waits (`none`) at an open channel with nothing to receive. Of a closed channel
with nothing to receive it has no value. -/
def receive (ch : Chan α) : Option (Option α × Chan α) :=
  match h : ch.buffer with
  | a :: rest =>
    some (some a, { ch with
      buffer := rest
      fits := by
        have hfits := ch.fits
        rw [h, List.length_cons] at hfits
        exact Nat.le_of_succ_le hfits })
  | [] => if ch.closed then some (none, ch) else none

theorem close_of_open {ch : Chan α} (h : ch.closed = false) :
    ch.close = .ok { ch with closed := true } := by
  unfold close
  rw [h]
  rfl

theorem trySend_of_open {ch : Chan α} (h : ch.closed = false) (a : α) :
    ∃ ch', ch.trySend a = .ok ch' ∧ ch'.cap = ch.cap ∧ ch'.closed = false ∧
      (ch'.buffer = ch.buffer ++ [a] ∨ ch'.buffer = ch.buffer) := by
  have hopen : ¬ch.closed = true := by
    rw [h]
    exact Bool.false_ne_true
  unfold trySend
  rw [if_neg hopen]
  split
  · exact ⟨_, rfl, rfl, h, .inl rfl⟩
  · exact ⟨ch, rfl, rfl, h, .inr rfl⟩

theorem buffer_of_receive {ch ch' : Chan α} {value : Option α} (h : ch.receive = some (value, ch')) :
    ch.buffer = value.toList ++ ch'.buffer ∧ ch'.cap = ch.cap ∧ ch'.closed = ch.closed := by
  unfold receive at h
  split at h
  · rename_i a rest hbuffer
    obtain ⟨rfl, rfl⟩ := Prod.mk.inj (Option.some.inj h)
    exact ⟨hbuffer, rfl, rfl⟩
  · rename_i hbuffer
    split at h
    · obtain ⟨rfl, rfl⟩ := Prod.mk.inj (Option.some.inj h)
      exact ⟨rfl, rfl, rfl⟩
    · cases h

end Chan

structure RangeOrder (α : Type) where
  arrange : List α → List α
  perm : ∀ entries, (arrange entries).Perm entries

def RangeOrder.id (α : Type) : RangeOrder α where
  arrange entries := entries
  perm _ := .refl _

structure SyncMap (K V : Type) where
  entries : List (K × V)
  nodup : (entries.map Prod.fst).Nodup

namespace SyncMap

variable {K V : Type} [DecidableEq K] (m : SyncMap K V) {key : K} {value : V}

def empty : SyncMap K V := ⟨[], List.nodup_nil⟩

def keys : List K := m.entries.map Prod.fst

def size : Nat := m.entries.length

def load (key : K) : Option V := (m.entries.find? (·.1 = key)).map Prod.snd

def delete (key : K) : SyncMap K V where
  entries := m.entries.filter (·.1 ≠ key)
  nodup := m.nodup.sublist (List.filter_sublist.map Prod.fst)

theorem not_mem_keys_delete (key : K) : key ∉ (m.delete key).keys := by
  intro h
  obtain ⟨entry, hentry, hkey⟩ := List.mem_map.mp h
  have hne := (List.mem_filter.mp hentry).2
  simp [hkey] at hne

def store (key : K) (value : V) : SyncMap K V where
  entries := (key, value) :: (m.delete key).entries
  nodup := List.nodup_cons.mpr ⟨m.not_mem_keys_delete key, (m.delete key).nodup⟩

theorem load_eq_none_iff : m.load key = none ↔ ∀ entry ∈ m.entries, entry.1 ≠ key := by
  unfold load
  rw [Option.map_eq_none_iff, List.find?_eq_none]
  simp only [decide_eq_true_eq, ne_eq]

theorem mem_of_load (h : m.load key = some value) : (key, value) ∈ m.entries := by
  obtain ⟨entry, hfind, rfl⟩ := Option.map_eq_some_iff.mp h
  have hkey : entry.1 = key := by simpa using List.find?_some hfind
  rw [← hkey]
  exact List.mem_of_find?_eq_some hfind

theorem mem_of_mem_delete {entry : K × V} (h : entry ∈ (m.delete key).entries) :
    entry ∈ m.entries := (List.mem_filter.mp h).1

theorem mem_store {entry : K × V} (h : entry ∈ (m.store key value).entries) :
    entry = (key, value) ∨ entry ∈ m.entries := by
  rcases List.mem_cons.mp h with rfl | h
  · exact .inl rfl
  · exact .inr (m.mem_of_mem_delete h)

theorem mem_keys_iff : key ∈ m.keys ↔ (m.load key).isSome := by
  rw [← not_iff_not, Bool.not_eq_true, Option.isSome_eq_false_iff, Option.isNone_iff_eq_none,
    load_eq_none_iff]
  constructor
  · intro h entry hentry hkey
    exact h (hkey ▸ List.mem_map_of_mem hentry)
  · intro h hmem
    obtain ⟨entry, hentry, hkey⟩ := List.mem_map.mp hmem
    exact h entry hentry hkey

theorem keys_delete : (m.delete key).keys = m.keys.filter (· ≠ key) := by
  unfold keys
  rw [List.filter_map]
  rfl

theorem keys_store : (m.store key value).keys = key :: m.keys.filter (· ≠ key) :=
  congrArg (key :: ·) m.keys_delete

@[simp] theorem load_delete_self : (m.delete key).load key = none :=
  (load_eq_none_iff _).mpr fun _ hentry => of_decide_eq_true (List.mem_filter.mp hentry).2

theorem load_delete_of_ne {other : K} (h : other ≠ key) :
    (m.delete key).load other = m.load other := by
  change ((m.entries.filter (·.1 ≠ key)).find? (·.1 = other)).map Prod.snd = _
  rw [List.find?_filter]
  have hsame : ∀ entry : K × V,
      (decide (entry.1 ≠ key) = true ∧ decide (entry.1 = other) = true) ↔ entry.1 = other := by
    intro entry
    simp only [decide_eq_true_eq, and_iff_right_iff_imp]
    rintro rfl
    exact h
  simp only [hsame]
  rfl

@[simp] theorem load_store_self : (m.store key value).load key = some value := by
  unfold load store
  simp

theorem load_store_of_ne {other : K} (h : other ≠ key) :
    (m.store key value).load other = m.load other := by
  rw [← m.load_delete_of_ne h]
  unfold load store
  simp [h.symm]

theorem delete_of_load_none (h : m.load key = none) : (m.delete key).entries = m.entries := by
  refine List.filter_eq_self.mpr fun entry hentry => ?_
  exact decide_eq_true (m.load_eq_none_iff.mp h entry hentry)

theorem size_delete_of_isSome (h : (m.load key).isSome) : (m.delete key).size + 1 = m.size := by
  obtain ⟨value, hload⟩ := Option.isSome_iff_exists.mp h
  obtain ⟨entry, hfind, -⟩ := Option.map_eq_some_iff.mp hload
  obtain ⟨hkey, before, after, hentries, hbefore⟩ := List.find?_eq_some_iff_append.mp hfind
  have hnodup := m.nodup
  rw [hentries, List.map_append, List.map_cons, List.nodup_middle, List.nodup_cons] at hnodup
  have hother : ∀ entry' ∈ before ++ after, decide (entry'.1 ≠ key) = true := by
    intro entry' hentry'
    refine decide_eq_true fun hkey' => hnodup.1 ?_
    rw [of_decide_eq_true hkey, ← hkey', ← List.map_append]
    exact List.mem_map_of_mem hentry'
  change (m.entries.filter (·.1 ≠ key)).length + 1 = m.entries.length
  rw [hentries, List.filter_append, List.filter_cons_of_neg (by simpa using hkey),
    ← List.filter_append, List.filter_eq_self.mpr hother, List.length_append, List.length_append,
    List.length_cons]
  omega

theorem size_store_of_load_none (h : m.load key = none) : (m.store key value).size = m.size + 1 := by
  unfold size store
  rw [List.length_cons, m.delete_of_load_none h]

end SyncMap

end Memoark.Go
