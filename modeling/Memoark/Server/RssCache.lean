import Memoark.Go.Sync
import Memoark.Server.Rss
import Memoark.System.Runs

/-! Requests for feeds, step by step, with the cache that they share, while the store changes. -/
namespace Memoark.Server.Rss
open Memoark.System LabelledSystem Store Go

def defaultCacheDuration : Int := 3600000000000

def maxCacheSize : Nat := 50

structure CacheEntry where
  content : Feed
  etag : String
  lastModified : Option Int
  createdAt : Int

inductive Route where
  | explore
  | user (username : String)

structure Request where
  route : Route
  base : BaseURL
  ifNoneMatch : String

def Request.cacheKey (r : Request) : String :=
  match r.route with
  | .explore => "explore"
  | .user username => "user:" ++ username

inductive Response where
  | notModified
  | served (content : Feed) (etag : String) (lastModified : Option Int)
  | failed (status : Nat) (message : String)

inductive Phase where
  | getFromCache
  | deleteExpired
  | getUser (username : String)
  | listMemos (user : Option User)
  /-- The headings, attachments and users of a feed are read in one step. -/
  | generate (user : Option User) (memoList : List Memo)
  | putInCache (content : Feed) (lastModified : Option Int)
  | responded (response : Response)

structure Handler where
  request : Request
  phase : Phase

structure RSSService where
  RenderHTML : RenderHTML
  etag : Feed → String

structure State where
  store : RSSStore
  now : Int
  cache : SyncMap String CacheEntry
  handlers : List Handler

inductive Label where
  | request (r : Request)
  /-- A step of a handler. A loop over the cache visits its keys in the order. -/
  | run (handler : Nat) (order : List String)
  /-- The read of the store fails that a handler waits for. -/
  | storeFails (handler : Nat)
  /-- Memos are updated, archived or deleted, or anything else in the store changes. -/
  | change (store : RSSStore)
  | wait (nanos : Nat)

def Request.miss (r : Request) : Phase :=
  match r.route with
  | .explore => .listMemos none
  | .user username => .getUser username

def oldest (cache : SyncMap String CacheEntry) (order : List String) : String × Int :=
  order.foldl (fun (oldestKey, oldestTime) k =>
    match cache.load k with
    | none => (oldestKey, oldestTime)
    | some v =>
      if oldestKey = "" ∨ v.createdAt < oldestTime then (k, v.createdAt)
      else (oldestKey, oldestTime)) ("", 0)

def evicted (cache : SyncMap String CacheEntry) (order : List String) : SyncMap String CacheEntry :=
  if maxCacheSize ≤ cache.size then
    let oldestKey := (oldest cache order).1
    if oldestKey ≠ "" then cache.delete oldestKey else cache
  else cache

variable (svc : RSSService)

def State.advance (s : State) (r : Request) (order : List String) :
    Phase → Option (SyncMap String CacheEntry × Phase)
  | .getFromCache =>
    match s.cache.load r.cacheKey with
    | none => some (s.cache, r.miss)
    | some cached =>
      if defaultCacheDuration < s.now - cached.createdAt then some (s.cache, .deleteExpired)
      else if r.ifNoneMatch = cached.etag then some (s.cache, .responded .notModified)
      else some (s.cache, .responded (.served cached.content cached.etag cached.lastModified))
  | .deleteExpired => some (s.cache.delete r.cacheKey, r.miss)
  | .getUser username =>
    match s.store.getUserNamed username with
    | none => some (s.cache, .responded (.failed 404 "User not found"))
    | some user => some (s.cache, .listMemos (some user))
  | .listMemos user => some (s.cache, .generate user (s.store.listMemos (feedFind user)))
  | .generate user memoList =>
    match generateRSSFromMemoList svc.RenderHTML s.store s.now memoList r.base.text user with
    | .error _ => some (s.cache, .responded (.failed 500 "Failed to generate rss"))
    | .ok (feed, lastModified) => some (s.cache, .putInCache feed lastModified)
  | .putInCache feed lastModified =>
    if order.Perm s.cache.keys then
      let entry : CacheEntry := ⟨feed, svc.etag feed, lastModified, s.now⟩
      some ((evicted s.cache order).store r.cacheKey entry,
        .responded (.served feed entry.etag lastModified))
    else none
  | .responded _ => none

def Phase.failure : Phase → Option Response
  | .getUser _ => some (.failed 500 "Failed to find user")
  | .listMemos _ => some (.failed 500 "Failed to find memo list")
  | .generate _ _ => some (.failed 500 "Failed to generate rss")
  | _ => none

def step (s : State) : Label → Option State
  | .request r => some { s with handlers := s.handlers ++ [⟨r, .getFromCache⟩] }
  | .run i order => do
    let h ← s.handlers[i]?
    let (cache, phase) ← s.advance svc h.request order h.phase
    return { s with cache := cache, handlers := s.handlers.set i { h with phase := phase } }
  | .storeFails i => do
    let h ← s.handlers[i]?
    let response ← h.phase.failure
    return { s with handlers := s.handlers.set i { h with phase := .responded response } }
  | .change store => some { s with store := store }
  | .wait nanos => some { s with now := s.now + nanos }

def feeds : LabelledSystem State Label :=
  ⟨fun s => s.cache.entries = [] ∧ s.handlers = [], step svc⟩

def State.served (s : State) (h : Handler) : Option CacheEntry :=
  match h.phase with
  | .getFromCache =>
    (s.cache.load h.request.cacheKey).filter fun cached =>
      ¬defaultCacheDuration < s.now - cached.createdAt ∧ h.request.ifNoneMatch ≠ cached.etag
  | _ => none

def Phase.Quiet : Phase → Prop
  | .generate _ _ => False
  | .putInCache _ _ => False
  | .responded (.served _ _ _) => False
  | _ => True

section advance

variable {svc} {s : State} {r : Request} {p phase : Phase} {order : List String}
  {cache : SyncMap String CacheEntry}

theorem Request.quiet_miss (r : Request) : r.miss.Quiet := by
  unfold Request.miss
  cases r.route with
  | explore => trivial
  | user username => trivial

theorem State.mem_of_served {h : Handler} {cached : CacheEntry} (hserved : s.served h = some cached) :
    (h.request.cacheKey, cached) ∈ s.cache.entries ∧
      s.now ≤ cached.createdAt + defaultCacheDuration := by
  unfold State.served at hserved
  split at hserved
  · obtain ⟨hload, hfresh⟩ := Option.filter_eq_some_iff.mp hserved
    have htime := (of_decide_eq_true hfresh).1
    exact ⟨s.cache.mem_of_load hload, by omega⟩
  · cases hserved

theorem advance_cases (h : s.advance svc r order p = some (cache, phase)) :
    ((∀ entry ∈ cache.entries, entry ∈ s.cache.entries) ∧ phase.Quiet) ∨
    (cache = s.cache ∧ ∃ cached, p = .getFromCache ∧ s.served ⟨r, p⟩ = some cached ∧
      phase = .responded (.served cached.content cached.etag cached.lastModified)) ∨
    (cache = s.cache ∧ ∃ user, p = .listMemos user ∧
      phase = .generate user (s.store.listMemos (feedFind user))) ∨
    (cache = s.cache ∧ ∃ user memoList feed lastModified, p = .generate user memoList ∧
      generateRSSFromMemoList svc.RenderHTML s.store s.now memoList r.base.text user =
        .ok (feed, lastModified) ∧ phase = .putInCache feed lastModified) ∨
    ∃ feed lastModified, p = .putInCache feed lastModified ∧ order.Perm s.cache.keys ∧
      cache = (evicted s.cache order).store r.cacheKey ⟨feed, svc.etag feed, lastModified, s.now⟩ ∧
      phase = .responded (.served feed (svc.etag feed) lastModified) := by
  cases p with
  | getFromCache =>
    dsimp only [State.advance] at h
    split at h
    · obtain ⟨rfl, rfl⟩ := Prod.mk.inj (Option.some.inj h)
      exact .inl ⟨fun _ hentry => hentry, r.quiet_miss⟩
    · rename_i cached hload
      split at h
      · obtain ⟨rfl, rfl⟩ := Prod.mk.inj (Option.some.inj h)
        exact .inl ⟨fun _ hentry => hentry, trivial⟩
      · rename_i hfresh
        split at h
        · obtain ⟨rfl, rfl⟩ := Prod.mk.inj (Option.some.inj h)
          exact .inl ⟨fun _ hentry => hentry, trivial⟩
        · rename_i hmatch
          obtain ⟨rfl, rfl⟩ := Prod.mk.inj (Option.some.inj h)
          refine .inr (.inl ⟨rfl, cached, rfl, ?_, rfl⟩)
          unfold State.served
          dsimp only
          rw [hload]
          exact Option.filter_some_pos (decide_eq_true ⟨hfresh, hmatch⟩)
  | deleteExpired =>
    obtain ⟨rfl, rfl⟩ := Prod.mk.inj (Option.some.inj h)
    exact .inl ⟨fun _ => s.cache.mem_of_mem_delete, r.quiet_miss⟩
  | getUser username =>
    dsimp only [State.advance] at h
    split at h
    · obtain ⟨rfl, rfl⟩ := Prod.mk.inj (Option.some.inj h)
      exact .inl ⟨fun _ hentry => hentry, trivial⟩
    · obtain ⟨rfl, rfl⟩ := Prod.mk.inj (Option.some.inj h)
      exact .inl ⟨fun _ hentry => hentry, trivial⟩
  | listMemos user =>
    obtain ⟨rfl, rfl⟩ := Prod.mk.inj (Option.some.inj h)
    exact .inr (.inr (.inl ⟨rfl, user, rfl, rfl⟩))
  | generate user memoList =>
    dsimp only [State.advance] at h
    split at h
    · obtain ⟨rfl, rfl⟩ := Prod.mk.inj (Option.some.inj h)
      exact .inl ⟨fun _ hentry => hentry, trivial⟩
    · rename_i feed lastModified hgenerate
      obtain ⟨rfl, rfl⟩ := Prod.mk.inj (Option.some.inj h)
      exact .inr (.inr (.inr (.inl
        ⟨rfl, user, memoList, feed, lastModified, rfl, hgenerate, rfl⟩)))
  | putInCache feed lastModified =>
    dsimp only [State.advance] at h
    obtain ⟨horder, h⟩ := Option.ite_none_right_eq_some.mp h
    obtain ⟨rfl, rfl⟩ := Prod.mk.inj (Option.some.inj h)
    exact .inr (.inr (.inr (.inr ⟨feed, lastModified, rfl, horder, rfl, rfl⟩)))
  | responded response => cases h

end advance

section alone

variable {svc} {s : State} {r : Request} {feed : Feed} {lastModified : Option Int}

theorem step_last {handlers : List Handler} {p phase : Phase} {order : List String}
    {cache : SyncMap String CacheEntry} (hs : s.handlers = handlers ++ [⟨r, p⟩])
    (hadvance : s.advance svc r order p = some (cache, phase)) :
    (feeds svc).step s (.run handlers.length order) =
      some { s with cache := cache, handlers := handlers ++ [⟨r, phase⟩] } := by
  have hi : s.handlers[handlers.length]? = some ⟨r, p⟩ := by
    rw [hs, List.getElem?_concat_length]
  have hset : s.handlers.set handlers.length ⟨r, phase⟩ = handlers ++ [⟨r, phase⟩] := by
    rw [hs, List.set_append_right _ _ (Nat.le_refl _), Nat.sub_self]
    rfl
  change (s.handlers[handlers.length]?.bind _) = _
  rw [hi, Option.bind_some]
  change ((s.advance svc r order p).bind _) = _
  rw [hadvance, Option.bind_some, ← hset]
  rfl

theorem run_explore (hroute : r.route = .explore) (hload : s.cache.load r.cacheKey = none)
    (hgenerate : generateRSSFromMemoList svc.RenderHTML s.store s.now
      (s.store.listMemos (feedFind none)) r.base.text none = .ok (feed, lastModified)) :
    (feeds svc).run s [.request r, .run s.handlers.length [], .run s.handlers.length [],
        .run s.handlers.length [], .run s.handlers.length s.cache.keys] =
      some { s with
        cache := (evicted s.cache s.cache.keys).store r.cacheKey
          ⟨feed, svc.etag feed, lastModified, s.now⟩
        handlers := s.handlers ++ [⟨r, .responded (.served feed (svc.etag feed) lastModified)⟩] } := by
  have hmiss : r.miss = .listMemos none := by rw [Request.miss, hroute]
  rw [run_cons (show (feeds svc).step s (.request r) = some _ from rfl)]
  rw [run_cons (step_last (r := r) rfl (by rw [State.advance, hload]))]
  rw [run_cons (step_last (r := r) rfl (by rw [hmiss, State.advance]))]
  rw [run_cons (step_last (r := r) rfl (by rw [State.advance, hgenerate]))]
  rw [run_cons (step_last (r := r) rfl (by rw [State.advance, if_pos (List.Perm.refl _)]))]
  rfl

end alone

theorem handler_set {handlers : List Handler} {h h' : Handler} {i j : Nat}
    (hj : (handlers.set i h)[j]? = some h') : (j = i ∧ h' = h) ∨ handlers[j]? = some h' := by
  by_cases hij : j = i
  · subst hij
    have hlt : j < handlers.length := by simpa using (List.getElem?_eq_some_iff.mp hj).1
    rw [List.getElem?_set_self hlt] at hj
    exact .inl ⟨rfl, (Option.some.inj hj).symm⟩
  · rw [List.getElem?_set_ne (Ne.symm hij)] at hj
    exact .inr hj

theorem step_invariant {svc : RSSService} {E : CacheEntry → Prop} {P : Nat → Handler → Prop} {s s' : State}
    {op : Label} (hstep : (feeds svc).step s op = some s')
    (hcache : ∀ entry ∈ s.cache.entries, E entry.2)
    (hhandlers : ∀ j h, s.handlers[j]? = some h → P j h)
    (hstart : ∀ j r, op = .request r → P j ⟨r, .getFromCache⟩)
    (hfailed : ∀ j r p status message, s.handlers[j]? = some ⟨r, p⟩ →
      P j ⟨r, .responded (.failed status message)⟩)
    (hadvance : ∀ i r p order cache phase, op = .run i order → s.handlers[i]? = some ⟨r, p⟩ →
      s.advance svc r order p = some (cache, phase) → s'.handlers[i]? = some ⟨r, phase⟩ →
      (∀ entry ∈ cache.entries, E entry.2) ∧ P i ⟨r, phase⟩) :
    (∀ entry ∈ s'.cache.entries, E entry.2) ∧ ∀ j h, s'.handlers[j]? = some h → P j h := by
  cases op with
  | request r =>
    obtain rfl := Option.some.inj hstep
    refine ⟨hcache, fun j h hj => ?_⟩
    have hj : (s.handlers ++ [⟨r, .getFromCache⟩])[j]? = some h := hj
    rcases Nat.lt_or_ge j s.handlers.length with hlt | hge
    · rw [List.getElem?_append_left hlt] at hj
      exact hhandlers j h hj
    · rw [List.getElem?_append_right hge] at hj
      obtain rfl := List.mem_singleton.mp (List.mem_of_getElem? hj)
      exact hstart j r rfl
  | run i order =>
    obtain ⟨⟨r, p⟩, hi, hstep⟩ := Option.bind_eq_some_iff.mp hstep
    obtain ⟨⟨cache, phase⟩, hphase, hs⟩ := Option.bind_eq_some_iff.mp hstep
    obtain rfl := Option.some.inj hs
    have hlt : i < s.handlers.length := (List.getElem?_eq_some_iff.mp hi).1
    obtain ⟨hentries, hP⟩ := hadvance i r p order cache phase rfl hi hphase
      (List.getElem?_set_self hlt)
    refine ⟨hentries, fun j h hj => ?_⟩
    rcases handler_set hj with ⟨rfl, rfl⟩ | hj
    · exact hP
    · exact hhandlers j h hj
  | storeFails i =>
    obtain ⟨⟨r, p⟩, hi, hstep⟩ := Option.bind_eq_some_iff.mp hstep
    obtain ⟨response, hfailure, hs⟩ := Option.bind_eq_some_iff.mp hstep
    obtain rfl := Option.some.inj hs
    refine ⟨hcache, fun j h hj => ?_⟩
    rcases handler_set hj with ⟨rfl, rfl⟩ | hj
    · obtain ⟨status, message, rfl⟩ : ∃ status message, response = .failed status message := by
        unfold Phase.failure at hfailure
        split at hfailure
        · exact ⟨_, _, (Option.some.inj hfailure).symm⟩
        · exact ⟨_, _, (Option.some.inj hfailure).symm⟩
        · exact ⟨_, _, (Option.some.inj hfailure).symm⟩
        · cases hfailure
      exact hfailed j r p status message hi
    · exact hhandlers j h hj
  | change store =>
    obtain rfl := Option.some.inj hstep
    exact ⟨hcache, hhandlers⟩
  | wait nanos =>
    obtain rfl := Option.some.inj hstep
    exact ⟨hcache, hhandlers⟩

section history

variable {svc} {s₀ s s' : State} {ops : List Label} {op : Label} {i : Nat}

def PublicMemo (store : RSSStore) (memo : Memo) : Prop :=
  ∃ row ∈ store.memos, row.rowStatus = .normal ∧ row.visibility = .Public ∧
    ∃ parent, memo = row.withParent parent

def Shows (svc : RSSService) (store : RSSStore) (feed : Feed) : Prop :=
  ∀ item ∈ feed.items, ∃ memo, PublicMemo store memo ∧
    ∃ baseURL, item.Of svc.RenderHTML memo baseURL

theorem publicMemo_of_listed {store : RSSStore} {user : Option User} {memo : Memo}
    (h : memo ∈ store.listMemos (feedFind user)) : PublicMemo store memo := by
  obtain ⟨row, hrow, hmatches, parent, -, -, hmemo⟩ := Database.exists_of_mem_listMemos h
  simp only [FindMemo.matchesRow, feedFind, asked, askedIn, Bool.and_eq_true] at hmatches
  obtain ⟨⟨-, hstatus⟩, hvisibility⟩ := hmatches
  have hnormal : RowStatus.normal = row.rowStatus := by simpa using hstatus
  exact ⟨row, hrow, hnormal.symm, by simpa using hvisibility, parent, hmemo.symm⟩

def PutsInCache (svc : RSSService) (feed : Feed) (s s' : State) : Prop :=
  ∃ i r lastModified order, s.handlers[i]? = some ⟨r, .putInCache feed lastModified⟩ ∧
    (feeds svc).step s (.run i order) = some s'

def Responds (svc : RSSService) (i : Nat) (h : Handler) (s s' : State) : Prop :=
  ∃ p order, s.handlers[i]? = some ⟨h.request, p⟩ ∧
    (feeds svc).step s (.run i order) = some s' ∧ s'.handlers[i]? = some h

/-- A feed in the cache: its memos were public in a state of the run, and later it was put there. -/
def EntryInv (svc : RSSService) (s₀ : State) (ops : List Label) (s : State) (e : CacheEntry) :
    Prop :=
  ∃ listed put stored, (feeds svc).Passes s₀ ops [listed, put, stored] s ∧
    Shows svc listed.store e.content ∧ PutsInCache svc e.content put stored ∧ e.createdAt = put.now

/-- A feed that was served: its memos were public in a state of the run, and later it was put into
the cache. The handler did that itself, or it responded an hour after that or earlier. -/
inductive ServedInv (svc : RSSService) (s₀ : State) (ops : List Label) (s : State) (i : Nat)
    (h : Handler) (feed : Feed) : Prop
  | generated {listed put stored : State} :
    (feeds svc).Passes s₀ ops [listed, put, stored] s → Shows svc listed.store feed →
      PutsInCache svc feed put stored → Responds svc i h put stored → ServedInv svc s₀ ops s i h feed
  | cached {listed put stored before after : State} :
    (feeds svc).Passes s₀ ops [listed, put, stored, before, after] s →
      Shows svc listed.store feed → PutsInCache svc feed put stored →
      before.now ≤ put.now + defaultCacheDuration → Responds svc i h before after →
      ServedInv svc s₀ ops s i h feed

def PhaseInv (svc : RSSService) (s₀ : State) (ops : List Label) (s : State) (i : Nat)
    (h : Handler) : Prop :=
  match h.phase with
  | .generate _ memoList =>
    ∃ listed, (feeds svc).Passes s₀ ops [listed] s ∧ ∀ memo ∈ memoList, PublicMemo listed.store memo
  | .putInCache feed _ =>
    ∃ listed, (feeds svc).Passes s₀ ops [listed] s ∧ Shows svc listed.store feed
  | .responded (.served feed _ _) => ServedInv svc s₀ ops s i h feed
  | _ => True

theorem EntryInv.concat {e : CacheEntry} (h : EntryInv svc s₀ ops s e)
    (hstep : (feeds svc).step s op = some s') : EntryInv svc s₀ (ops ++ [op]) s' e := by
  obtain ⟨listed, put, stored, hpasses, hrest⟩ := h
  exact ⟨listed, put, stored, hpasses.concat hstep, hrest⟩

theorem ServedInv.concat {h : Handler} {feed : Feed} (hinv : ServedInv svc s₀ ops s i h feed)
    (hstep : (feeds svc).step s op = some s') : ServedInv svc s₀ (ops ++ [op]) s' i h feed := by
  cases hinv with
  | generated hpasses hshows hputs hresponds =>
    exact .generated (hpasses.concat hstep) hshows hputs hresponds
  | cached hpasses hshows hputs htime hresponds =>
    exact .cached (hpasses.concat hstep) hshows hputs htime hresponds

theorem PhaseInv.concat {h : Handler} (hinv : PhaseInv svc s₀ ops s i h)
    (hstep : (feeds svc).step s op = some s') : PhaseInv svc s₀ (ops ++ [op]) s' i h := by
  unfold PhaseInv at hinv ⊢
  split at hinv
  · obtain ⟨listed, hpasses, hpublic⟩ := hinv
    exact ⟨listed, hpasses.concat hstep, hpublic⟩
  · obtain ⟨listed, hpasses, hshows⟩ := hinv
    exact ⟨listed, hpasses.concat hstep, hshows⟩
  · exact hinv.concat hstep
  · trivial

structure Inv (svc : RSSService) (s₀ : State) (ops : List Label) (s : State) : Prop where
  run : (feeds svc).Passes s₀ ops [] s
  cache : ∀ entry ∈ s.cache.entries, EntryInv svc s₀ ops s entry.2
  handlers : ∀ i h, s.handlers[i]? = some h → PhaseInv svc s₀ ops s i h

theorem mem_evicted {cache : SyncMap String CacheEntry} {order : List String}
    {entry : String × CacheEntry} (h : entry ∈ (evicted cache order).entries) :
    entry ∈ cache.entries := by
  unfold evicted at h
  split at h
  · dsimp only at h
    split at h
    · exact cache.mem_of_mem_delete h
    · exact h
  · exact h

theorem PhaseInv.of_quiet {r : Request} {phase : Phase} (h : phase.Quiet) :
    PhaseInv svc s₀ ops s i ⟨r, phase⟩ := by
  cases phase with
  | generate user memoList => exact False.elim h
  | putInCache feed lastModified => exact False.elim h
  | responded response =>
    cases response with
    | served feed etag lastModified => exact False.elim h
    | _ => trivial
  | _ => trivial

theorem Inv.advance (hinv : Inv svc s₀ ops s) {r : Request} {p phase : Phase} {order : List String}
    {cache : SyncMap String CacheEntry} (hi : s.handlers[i]? = some ⟨r, p⟩)
    (hadvance : s.advance svc r order p = some (cache, phase))
    (hstep : (feeds svc).step s (.run i order) = some s')
    (hi' : s'.handlers[i]? = some ⟨r, phase⟩) :
    (∀ entry ∈ cache.entries, EntryInv svc s₀ (ops ++ [.run i order]) s' entry.2) ∧
      PhaseInv svc s₀ (ops ++ [.run i order]) s' i ⟨r, phase⟩ := by
  have hcache : ∀ entry ∈ s.cache.entries, EntryInv svc s₀ (ops ++ [.run i order]) s' entry.2 :=
    fun entry hentry => (hinv.cache entry hentry).concat hstep
  have hphase := hinv.handlers i _ hi
  rcases advance_cases hadvance with ⟨hentries, hquiet⟩ | ⟨rfl, cached, rfl, hserved, rfl⟩ |
    ⟨rfl, user, rfl, rfl⟩ | ⟨rfl, user, memoList, feed, lastModified, rfl, hgenerate, rfl⟩ |
    ⟨feed, lastModified, rfl, -, rfl, rfl⟩
  · exact ⟨fun entry hentry => hcache entry (hentries entry hentry), PhaseInv.of_quiet hquiet⟩
  · obtain ⟨hmem, htime⟩ := s.mem_of_served hserved
    obtain ⟨listed, put, stored, hpasses, hshows, hputs, hcreated⟩ := hinv.cache _ hmem
    dsimp only at hshows hputs hcreated
    rw [hcreated] at htime
    exact ⟨hcache, .cached (hpasses.last.concat hstep).last hshows hputs htime
      ⟨.getFromCache, order, hi, hstep, hi'⟩⟩
  · exact ⟨hcache, s, hinv.run.last.concat hstep, fun memo hmemo => publicMemo_of_listed hmemo⟩
  · obtain ⟨listed, hpasses, hpublic⟩ := hphase
    refine ⟨hcache, listed, hpasses.concat hstep, fun item hitem => ?_⟩
    obtain ⟨memo, hmemo, hof, -⟩ := (generate_spec hgenerate).2 item hitem
    exact ⟨memo, hpublic memo hmemo, r.base.text, hof⟩
  · obtain ⟨listed, hpasses, hshows⟩ := hphase
    have hlisted := (hpasses.last.concat hstep).last
    have hputs : PutsInCache svc feed s s' := ⟨i, r, lastModified, order, hi, hstep⟩
    refine ⟨fun entry hentry => ?_, .generated hlisted hshows hputs ⟨_, order, hi, hstep, hi'⟩⟩
    rcases SyncMap.mem_store _ hentry with rfl | hentry
    · exact ⟨listed, s, s', hlisted, hshows, hputs, rfl⟩
    · exact hcache entry (mem_evicted hentry)

theorem Inv.step (hinv : Inv svc s₀ ops s) (hstep : (feeds svc).step s op = some s') :
    Inv svc s₀ (ops ++ [op]) s' := by
  obtain ⟨hcache, hhandlers⟩ := step_invariant (E := EntryInv svc s₀ (ops ++ [op]) s')
    (P := PhaseInv svc s₀ (ops ++ [op]) s') hstep
    (fun entry hentry => (hinv.cache entry hentry).concat hstep)
    (fun j h hj => (hinv.handlers j h hj).concat hstep) (fun _ _ _ => trivial)
    (fun _ _ _ _ _ _ => trivial) fun i r p order cache phase hop hi hadvance hi' => by
      subst hop
      exact hinv.advance hi hadvance hstep hi'
  exact ⟨hinv.run.concat hstep, hcache, hhandlers⟩

theorem inv_init (h : (feeds svc).init s₀) : Inv svc s₀ [] s₀ := by
  obtain ⟨hcache, hhandlers⟩ := h
  refine ⟨rfl, ?_, ?_⟩
  · rw [hcache]
    exact fun entry hentry => absurd hentry List.not_mem_nil
  · rw [hhandlers]
    rintro i h ⟨⟩

theorem inv_run (h : (feeds svc).init s₀) (hrun : (feeds svc).run s₀ ops = some s) :
    Inv svc s₀ ops s :=
  LabelledSystem.run_history hrun (inv_init h) fun _ _ _ _ => Inv.step

/-- The memos of a feed that was served were public before it was put into the cache, and it was
served from there for an hour at most. -/
theorem served_public (hinit : (feeds svc).init s₀) (hrun : (feeds svc).run s₀ ops = some s)
    {h : Handler} (hi : s.handlers[i]? = some h) {feed : Feed} {etag : String}
    {lastModified : Option Int} (hserved : h.phase = .responded (.served feed etag lastModified)) :
    ServedInv svc s₀ ops s i h feed := by
  have hphase := (inv_run hinit hrun).handlers i h hi
  unfold PhaseInv at hphase
  rw [hserved] at hphase
  exact hphase

def plain : RSSService := ⟨.ok, fun _ => "\"0\""⟩

def note (visibility : Visibility) : MemoRecord :=
  ⟨1, "note", 1, 0, 0, .normal, "text", visibility, false, ⟨none, none, []⟩⟩

def noteStore (visibility : Visibility) : RSSStore :=
  { users := [], memos := [note visibility], relations := [], attachments := [], reactions := []
    heading := ⟨"Memos", ""⟩, profile := fun _ => ⟨"", ""⟩ }

def start : State := ⟨noteStore .Public, 0, .empty, []⟩

def explore (host : String) : Request := ⟨.explore, ⟨"https", host⟩, ""⟩

theorem listMemos_note :
    (noteStore .Public).listMemos (feedFind none) = [(note .Public).withParent none] := by
  have hrows : (noteStore .Public).memos.filter (feedFind none).matchesRow = [note .Public] :=
    List.filter_cons_of_pos (by decide)
  have hmemos : [note .Public].flatMap (fun row =>
      (((noteStore .Public).parents row).filter (feedFind none).matchesParent).map
        row.withParent) = [(note .Public).withParent none] := rfl
  unfold Database.listMemos
  rw [hrows]
  dsimp only
  rw [hmemos, List.mergeSort_singleton]
  rfl

theorem generate_note (base : String) : ∃ item : Item, item.link = base ++ "/memos/" ++ "note" ∧
    generateRSSFromMemoList plain.RenderHTML start.store start.now
      (start.store.listMemos (feedFind none)) base none =
        .ok (⟨"Memos", base, "", 0, [item]⟩, some 0) := by
  unfold start
  dsimp only
  rw [listMemos_note]
  exact ⟨_, rfl, rfl⟩

theorem served_public_twice :
    ∃ (s : State) (h : Handler) (feed : Feed),
      (feeds plain).run start [.request (explore "localhost"), .run 0 [], .run 0 [], .run 0 [],
        .run 0 [], .change (noteStore .Private), .request (explore "localhost"), .run 1 []] =
          some s ∧ feed.items ≠ [] ∧
      ServedInv plain start [.request (explore "localhost"), .run 0 [], .run 0 [], .run 0 [],
        .run 0 [], .change (noteStore .Private), .request (explore "localhost"), .run 1 []]
        s 1 h feed := by
  obtain ⟨item, -, hgenerate⟩ := generate_note (explore "localhost").base.text
  have hrun := run_append (run_explore rfl rfl hgenerate)
    [.change (noteStore .Private), .request (explore "localhost"), .run 1 []]
  exact ⟨_, _, _, hrun, List.cons_ne_nil item [], served_public ⟨rfl, rfl⟩ hrun rfl rfl⟩

/-- The note is made private and then served once more. -/
theorem served_private :
    ¬∀ (svc : RSSService) (s₀ s s' : State) (ops : List Label) (i : Nat) (order : List String)
      (h : Handler) (feed : Feed) (etag : String) (lastModified : Option Int),
      (feeds svc).init s₀ → (feeds svc).run s₀ ops = some s →
      (feeds svc).step s (.run i order) = some s' → s'.handlers[i]? = some h →
      h.phase = .responded (.served feed etag lastModified) → Shows svc s'.store feed := by
  intro hall
  obtain ⟨item, -, hgenerate⟩ := generate_note (explore "localhost").base.text
  have hrun := run_append (run_explore rfl rfl hgenerate)
    [.change (noteStore .Private), .request (explore "localhost")]
  have hshows := hall plain start _ _ _ 1 [] _ _ _ _ ⟨rfl, rfl⟩ hrun rfl rfl rfl
  obtain ⟨memo, ⟨row, hrow, -, hpublic, -⟩, -⟩ := hshows item List.mem_cons_self
  rw [List.mem_singleton.mp hrow] at hpublic
  cases hpublic

end history

end Memoark.Server.Rss
