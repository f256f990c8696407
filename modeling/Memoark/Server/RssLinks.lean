import Memoark.Server.RssCache

/-! The links of the feeds that are served: which host they lead to, and what the hosts of other
requests have to do with it. -/
namespace Memoark.Server.Rss
open Memoark.System LabelledSystem Store Go

variable {svc : RSSService} {s₀ s s' t t' : State} {ops : List Label} {op : Label} {i : Nat}

def OwnCache (s : State) : Label → Prop
  | .run i _ => ∀ h, s.handlers[i]? = some h → ∀ cached, s.served h = some cached →
    cached.content.items = [] ∨ cached.content.link = h.request.base.text
  | _ => True

section own

def Known (svc : RSSService) (s₀ : State) (ops : List Label) (s : State) (a : AttachmentRecord) :
    Prop :=
  ∃ t, (feeds svc).Passes s₀ ops [t] s ∧ a ∈ t.store.attachments

structure Item.Links (known : AttachmentRecord → Prop) (baseURL : String) (item : Item) : Prop where
  link : ∃ uid, item.link = baseURL ++ "/memos/" ++ uid
  enclosure : ∀ e, item.enclosure = some e → ∃ a, known a ∧ e.url = attachmentURL baseURL a

theorem Item.Links.mono {known known' : AttachmentRecord → Prop} {baseURL : String} {item : Item}
    (h : item.Links known baseURL) (hknown : ∀ a, known a → known' a) :
    item.Links known' baseURL := by
  refine ⟨h.link, fun e he => ?_⟩
  obtain ⟨a, ha, hurl⟩ := h.enclosure e he
  exact ⟨a, hknown a ha, hurl⟩

theorem generate_links {render : RenderHTML} {store : RSSStore} {now : Int} {memoList : List Memo}
    {baseURL : String} {user : Option User} {feed : Feed} {lastModified : Option Int}
    (h : generateRSSFromMemoList render store now memoList baseURL user = .ok (feed, lastModified))
    {item : Item} (hitem : item ∈ feed.items) :
    item.Links (fun a => a ∈ store.attachments) baseURL := by
  obtain ⟨memo, -, hof, attachments, hattachments, henclosure⟩ := (generate_spec h).2 item hitem
  refine ⟨⟨memo.uid, hof.link⟩, fun e he => ?_⟩
  rw [henclosure] at he
  obtain ⟨a, ha, rfl⟩ := Option.map_eq_some_iff.mp he
  exact ⟨a, hattachments a (List.mem_of_find?_eq_some ha), rfl⟩

def LinksInv (svc : RSSService) (s₀ : State) (ops : List Label) (s : State) (feed : Feed) : Prop :=
  ∀ item ∈ feed.items, item.Links (Known svc s₀ ops s) feed.link

theorem LinksInv.concat {feed : Feed} (h : LinksInv svc s₀ ops s feed)
    (hstep : (feeds svc).step s op = some s') : LinksInv svc s₀ (ops ++ [op]) s' feed := by
  refine fun item hitem => (h item hitem).mono ?_
  rintro a ⟨t, hpasses, ha⟩
  exact ⟨t, hpasses.concat hstep, ha⟩

/-- A feed that is about to be put into the cache, or that was served, is the request's own. -/
def OwnFeed (svc : RSSService) (s₀ : State) (ops : List Label) (s : State) (h : Handler) : Prop :=
  match h.phase with
  | .putInCache feed _ => LinksInv svc s₀ ops s feed ∧ feed.link = h.request.base.text
  | .responded (.served feed _ _) =>
    LinksInv svc s₀ ops s feed ∧ (feed.items = [] ∨ feed.link = h.request.base.text)
  | _ => True

theorem OwnFeed.concat {h : Handler} (hinv : OwnFeed svc s₀ ops s h)
    (hstep : (feeds svc).step s op = some s') : OwnFeed svc s₀ (ops ++ [op]) s' h := by
  unfold OwnFeed at hinv ⊢
  split at hinv
  · exact ⟨hinv.1.concat hstep, hinv.2⟩
  · exact ⟨hinv.1.concat hstep, hinv.2⟩
  · trivial

structure OwnInv (svc : RSSService) (s₀ : State) (ops : List Label) (s : State) : Prop where
  run : (feeds svc).Passes s₀ ops [] s
  cache : ∀ entry ∈ s.cache.entries, LinksInv svc s₀ ops s entry.2.content
  handlers : ∀ (i : Nat) (h : Handler), s.handlers[i]? = some h → OwnFeed svc s₀ ops s h

theorem OwnFeed.of_quiet {r : Request} {phase : Phase} (h : phase.Quiet) :
    OwnFeed svc s₀ ops s ⟨r, phase⟩ := by
  cases phase with
  | generate user memoList => exact False.elim h
  | putInCache feed lastModified => exact False.elim h
  | responded response =>
    cases response with
    | served feed etag lastModified => exact False.elim h
    | _ => trivial
  | _ => trivial

theorem OwnInv.advance (hinv : OwnInv svc s₀ ops s) {r : Request} {p phase : Phase}
    {order : List String} {cache : SyncMap String CacheEntry}
    (hi : s.handlers[i]? = some ⟨r, p⟩) (hown : OwnCache s (.run i order))
    (hadvance : s.advance svc r order p = some (cache, phase))
    (hstep : (feeds svc).step s (.run i order) = some s') :
    (∀ entry ∈ cache.entries, LinksInv svc s₀ (ops ++ [.run i order]) s' entry.2.content) ∧
      OwnFeed svc s₀ (ops ++ [.run i order]) s' ⟨r, phase⟩ := by
  have hcache : ∀ entry ∈ s.cache.entries,
      LinksInv svc s₀ (ops ++ [.run i order]) s' entry.2.content :=
    fun entry hentry => (hinv.cache entry hentry).concat hstep
  have hfeed := (hinv.handlers i _ hi).concat hstep
  rcases advance_cases hadvance with ⟨hentries, hquiet⟩ | ⟨rfl, cached, rfl, hserved, rfl⟩ |
    ⟨rfl, user, rfl, rfl⟩ | ⟨rfl, user, memoList, feed, lastModified, rfl, hgenerate, rfl⟩ |
    ⟨feed, lastModified, rfl, -, rfl, rfl⟩
  · exact ⟨fun entry hentry => hcache entry (hentries entry hentry), OwnFeed.of_quiet hquiet⟩
  · exact ⟨hcache, hcache _ (s.mem_of_served hserved).1, hown _ hi cached hserved⟩
  · exact ⟨hcache, trivial⟩
  · have hlink := (generate_spec hgenerate).1
    refine ⟨hcache, fun item hitem => ?_, hlink⟩
    rw [hlink]
    exact (generate_links hgenerate hitem).mono fun a ha => ⟨s, hinv.run.last.concat hstep, ha⟩
  · refine ⟨fun entry hentry => ?_, hfeed.1, .inr hfeed.2⟩
    rcases SyncMap.mem_store _ hentry with rfl | hentry
    · exact hfeed.1
    · exact hcache entry (mem_evicted hentry)

theorem OwnInv.step (hinv : OwnInv svc s₀ ops s) (hown : OwnCache s op)
    (hstep : (feeds svc).step s op = some s') : OwnInv svc s₀ (ops ++ [op]) s' := by
  obtain ⟨hcache, hhandlers⟩ := step_invariant
    (E := fun e => LinksInv svc s₀ (ops ++ [op]) s' e.content)
    (P := fun _ => OwnFeed svc s₀ (ops ++ [op]) s') hstep
    (fun entry hentry => (hinv.cache entry hentry).concat hstep)
    (fun j h hj => (hinv.handlers j h hj).concat hstep) (fun _ _ _ => trivial)
    (fun _ _ _ _ _ _ => trivial) fun i r p order cache phase hop hi hadvance _ => by
      subst hop
      exact hinv.advance hi hown hadvance hstep
  exact ⟨hinv.run.concat hstep, hcache, hhandlers⟩

theorem ownInv_run (hinit : (feeds svc).init s₀) (hmeets : (feeds svc).Meets OwnCache s₀ ops)
    (hrun : (feeds svc).run s₀ ops = some s) : OwnInv svc s₀ ops s := by
  obtain ⟨hcache, hhandlers⟩ := hinit
  refine hmeets.run_history hrun ⟨rfl, ?_, ?_⟩ fun _ _ _ _ => OwnInv.step
  · rw [hcache]
    exact fun entry hentry => absurd hentry List.not_mem_nil
  · rw [hhandlers]
    rintro i h ⟨⟩

theorem meets_one_base {base : BaseURL} (hinit : (feeds svc).init s₀)
    (hops : ∀ r, .request r ∈ ops → r.base = base) : (feeds svc).Meets OwnCache s₀ ops := by
  obtain ⟨hcache, hhandlers⟩ := hinit
  refine meets_of_invariant (I := fun s => (∀ entry ∈ s.cache.entries,
      entry.2.content.link = base.text) ∧ ∀ (i : Nat) (h : Handler), s.handlers[i]? = some h →
        h.request.base = base ∧ ∀ feed lastModified, h.phase = .putInCache feed lastModified →
          feed.link = base.text) ?_ ?_ ?_
  · rw [hcache, hhandlers]
    refine ⟨fun entry hentry => absurd hentry List.not_mem_nil, ?_⟩
    rintro i h ⟨⟩
  · rintro s op - ⟨hcache, hhandlers⟩
    cases op with
    | run i order =>
      intro h hi cached hserved
      refine .inr ?_
      rw [hcache _ (s.mem_of_served hserved).1, (hhandlers i h hi).1]
    | request r => trivial
    | storeFails i => trivial
    | change store => trivial
    | wait nanos => trivial
  · rintro s op hop s' ⟨hcache, hhandlers⟩ hstep
    refine step_invariant (E := fun e => e.content.link = base.text)
      (P := fun _ h => h.request.base = base ∧ ∀ feed lastModified,
        h.phase = .putInCache feed lastModified → feed.link = base.text) hstep hcache hhandlers
      ?_ ?_ ?_
    · rintro j r rfl
      refine ⟨hops r hop, ?_⟩
      rintro feed lastModified ⟨⟩
    · intro j r p status message hj
      refine ⟨(hhandlers j _ hj).1, ?_⟩
      rintro feed lastModified ⟨⟩
    · intro i r p order cache phase _ hi hadvance _
      obtain ⟨rfl, hput⟩ := hhandlers i _ hi
      rcases advance_cases hadvance with ⟨hentries, hquiet⟩ | ⟨rfl, cached, rfl, hserved, rfl⟩ |
        ⟨rfl, user, rfl, rfl⟩ | ⟨rfl, user, memoList, feed, lastModified, rfl, hgenerate, rfl⟩ |
        ⟨feed, lastModified, rfl, -, rfl, rfl⟩
      · refine ⟨fun entry hentry => hcache entry (hentries entry hentry), rfl, ?_⟩
        rintro feed lastModified rfl
        exact False.elim hquiet
      · refine ⟨hcache, rfl, ?_⟩
        rintro feed lastModified ⟨⟩
      · refine ⟨hcache, rfl, ?_⟩
        rintro feed lastModified ⟨⟩
      · refine ⟨hcache, rfl, ?_⟩
        rintro feed lastModified ⟨⟩
        exact (generate_spec hgenerate).1
      · refine ⟨fun entry hentry => ?_, rfl, ?_⟩
        · rcases SyncMap.mem_store _ hentry with rfl | hentry
          · exact hput feed lastModified rfl
          · exact hcache entry (mem_evicted hentry)
        · rintro feed lastModified ⟨⟩

end own

section pair

/-- Feeds that are generated from the same memos, each for a request's own base URL. -/
structure SameFeed (feed feed' : Feed) : Prop where
  length : feed.items.length = feed'.items.length
  items : feed.link = feed'.link → feed.items = feed'.items

theorem SameFeed.refl (feed : Feed) : SameFeed feed feed := ⟨rfl, fun _ => rfl⟩

structure SameEntry (e e' : CacheEntry) : Prop where
  createdAt : e.createdAt = e'.createdAt
  content : SameFeed e.content e'.content

structure SameCache (cache cache' : SyncMap String CacheEntry) : Prop where
  keys : cache.keys = cache'.keys
  entries : ∀ (key : String) (e e' : CacheEntry), cache.load key = some e →
    cache'.load key = some e' → SameEntry e e'

inductive SamePhase : Phase → Phase → Prop
  | same (p : Phase) : SamePhase p p
  | putInCache {feed feed' : Feed} {lastModified : Option Int} : SameFeed feed feed' →
    SamePhase (.putInCache feed lastModified) (.putInCache feed' lastModified)
  | responded {response response' : Response} :
    (∀ feed etag lastModified feed' etag' lastModified',
      response = .served feed etag lastModified → response' = .served feed' etag' lastModified' →
        SameFeed feed feed') → SamePhase (.responded response) (.responded response')

structure SameHandler (h h' : Handler) : Prop where
  route : h.request.route = h'.request.route
  phase : SamePhase h.phase h'.phase

structure SameHandlers (handlers handlers' : List Handler) : Prop where
  length : handlers.length = handlers'.length
  each : ∀ (i : Nat) (h h' : Handler), handlers[i]? = some h → handlers'[i]? = some h' →
    SameHandler h h'

/-- What two states have in common after steps that differ in the hosts of requests. -/
structure Same (s s' : State) : Prop where
  store : s.store = s'.store
  now : s.now = s'.now
  cache : SameCache s.cache s'.cache
  handlers : SameHandlers s.handlers s'.handlers

inductive SameButBase : Label → Label → Prop
  | same (op : Label) : SameButBase op op
  | request (r : Request) (base : BaseURL) :
    SameButBase (.request r) (.request { r with base := base })

section cache

variable {cache cache' : SyncMap String CacheEntry} {key : String} {e e' : CacheEntry}

theorem SameCache.load_none (h : SameCache cache cache') (key : String) :
    cache.load key = none ↔ cache'.load key = none := by
  rw [← not_iff_not, ← ne_eq, ← ne_eq, Option.ne_none_iff_isSome, Option.ne_none_iff_isSome,
    ← cache.mem_keys_iff, ← cache'.mem_keys_iff, h.keys]

theorem SameCache.delete (h : SameCache cache cache') (key : String) :
    SameCache (cache.delete key) (cache'.delete key) := by
  refine ⟨?_, fun other e e' he he' => ?_⟩
  · rw [cache.keys_delete, cache'.keys_delete, h.keys]
  · by_cases hkey : other = key
    · subst hkey
      rw [SyncMap.load_delete_self] at he
      cases he
    · rw [SyncMap.load_delete_of_ne _ hkey] at he he'
      exact h.entries other e e' he he'

theorem SameCache.put (h : SameCache cache cache') (key : String) (hentry : SameEntry e e') :
    SameCache (cache.store key e) (cache'.store key e') := by
  refine ⟨?_, fun other f f' hf hf' => ?_⟩
  · rw [cache.keys_store, cache'.keys_store, h.keys]
  · by_cases hkey : other = key
    · subst hkey
      rw [SyncMap.load_store_self] at hf hf'
      obtain rfl := Option.some.inj hf
      obtain rfl := Option.some.inj hf'
      exact hentry
    · rw [SyncMap.load_store_of_ne _ hkey] at hf hf'
      exact h.entries other f f' hf hf'

theorem SameCache.oldest_eq (h : SameCache cache cache') (order : List String) :
    oldest cache order = oldest cache' order := by
  unfold oldest
  congr 1
  funext candidate k
  obtain ⟨oldestKey, oldestTime⟩ := candidate
  dsimp only
  cases hload : cache.load k with
  | none => rw [(h.load_none k).mp hload]
  | some v =>
    cases hload' : cache'.load k with
    | none =>
      rw [(h.load_none k).mpr hload'] at hload
      cases hload
    | some v' => dsimp only; rw [(h.entries k v v' hload hload').createdAt]

theorem SameCache.evicted (h : SameCache cache cache') (order : List String) :
    SameCache (evicted cache order) (evicted cache' order) := by
  have hsize : cache.size = cache'.size := by
    have hlength := congrArg List.length h.keys
    unfold SyncMap.keys at hlength
    rwa [List.length_map, List.length_map] at hlength
  unfold Rss.evicted
  rw [hsize, h.oldest_eq order]
  split
  · dsimp only
    split
    · exact h.delete _
    · exact h
  · exact h

end cache

theorem SameFeed.of_generate {render : RenderHTML} {store : RSSStore} {now : Int}
    {memoList : List Memo} {user : Option User} {base base' : String}
    {result result' : Feed × Option Int}
    (h : generateRSSFromMemoList render store now memoList base user = .ok result)
    (h' : generateRSSFromMemoList render store now memoList base' user = .ok result') :
    SameFeed result.1 result'.1 ∧ result.2 = result'.2 := by
  rcases generate_uniform render store now memoList user with ⟨message, herror⟩ |
    ⟨feed, count, lastModified, hfeed⟩
  · rw [herror] at h
    cases h
  · rw [(hfeed base).2.2] at h
    rw [(hfeed base').2.2] at h'
    obtain rfl := Except.ok.inj h
    obtain rfl := Except.ok.inj h'
    refine ⟨⟨(hfeed base).2.1.trans (hfeed base').2.1.symm, fun hlink => ?_⟩, rfl⟩
    dsimp only at hlink ⊢
    rw [(hfeed base).1, (hfeed base').1] at hlink
    rw [hlink]

theorem generate_error {render : RenderHTML} {store : RSSStore} {now : Int} {memoList : List Memo}
    {user : Option User} {base base' message : String}
    (h : generateRSSFromMemoList render store now memoList base user = .error message) :
    generateRSSFromMemoList render store now memoList base' user = .error message := by
  rcases generate_uniform render store now memoList user with ⟨message', herror⟩ |
    ⟨feed, count, lastModified, hfeed⟩
  · rw [herror] at h ⊢
    exact h
  · rw [(hfeed base).2.2] at h
    cases h

theorem Request.miss_congr {r r' : Request} (h : r.route = r'.route) : r.miss = r'.miss := by
  unfold Request.miss
  rw [h]

theorem Request.cacheKey_congr {r r' : Request} (h : r.route = r'.route) :
    r.cacheKey = r'.cacheKey := by
  unfold Request.cacheKey
  rw [h]

variable {r r' : Request} {order : List String} {phase phase' : Phase}
  {cache cache' : SyncMap String CacheEntry}

theorem Same.getFromCache (h : Same s s') (hroute : r.route = r'.route)
    (hadvance : s.advance svc r order .getFromCache = some (cache, phase))
    (hadvance' : s'.advance svc r' order .getFromCache = some (cache', phase')) :
    SameCache cache cache' ∧ SamePhase phase phase' := by
  dsimp only [State.advance] at hadvance hadvance'
  rw [← Request.cacheKey_congr hroute] at hadvance'
  cases hload : s.cache.load r.cacheKey with
  | none =>
    rw [hload] at hadvance
    rw [(h.cache.load_none _).mp hload, ← Request.miss_congr hroute] at hadvance'
    obtain ⟨rfl, rfl⟩ := Prod.mk.inj (Option.some.inj hadvance)
    obtain ⟨rfl, rfl⟩ := Prod.mk.inj (Option.some.inj hadvance')
    exact ⟨h.cache, .same _⟩
  | some cached =>
    cases hload' : s'.cache.load r.cacheKey with
    | none =>
      rw [(h.cache.load_none _).mpr hload'] at hload
      cases hload
    | some cached' =>
      have hentry := h.cache.entries _ _ _ hload hload'
      rw [hload] at hadvance
      rw [hload', ← h.now] at hadvance'
      dsimp only at hadvance hadvance'
      rw [← hentry.createdAt] at hadvance'
      by_cases hexpired : defaultCacheDuration < s.now - cached.createdAt
      · rw [if_pos hexpired] at hadvance hadvance'
        obtain ⟨rfl, rfl⟩ := Prod.mk.inj (Option.some.inj hadvance)
        obtain ⟨rfl, rfl⟩ := Prod.mk.inj (Option.some.inj hadvance')
        exact ⟨h.cache, .same _⟩
      · rw [if_neg hexpired] at hadvance hadvance'
        -- The hashes of the feeds may differ, and then only one of the responses has a body.
        have hresponse : ∀ {r : Request} {cached : CacheEntry}
            {cache₀ cache : SyncMap String CacheEntry} {phase : Phase},
            (if r.ifNoneMatch = cached.etag then some (cache₀, Phase.responded .notModified)
              else some (cache₀, .responded (.served cached.content cached.etag
                cached.lastModified))) = some (cache, phase) →
            cache = cache₀ ∧ ∃ response, phase = .responded response ∧
              ∀ feed etag lastModified, response = .served feed etag lastModified →
                feed = cached.content := by
          intro r cached cache₀ cache phase hif
          split at hif
          · obtain ⟨rfl, rfl⟩ := Prod.mk.inj (Option.some.inj hif)
            refine ⟨rfl, _, rfl, ?_⟩
            rintro feed etag lastModified ⟨⟩
          · obtain ⟨rfl, rfl⟩ := Prod.mk.inj (Option.some.inj hif)
            refine ⟨rfl, _, rfl, ?_⟩
            rintro feed etag lastModified ⟨⟩
            rfl
        obtain ⟨rfl, response, rfl, hfeed⟩ := hresponse hadvance
        obtain ⟨rfl, response', rfl, hfeed'⟩ := hresponse hadvance'
        refine ⟨h.cache, .responded ?_⟩
        intro feed etag lastModified feed' etag' lastModified' hserved hserved'
        rw [hfeed _ _ _ hserved, hfeed' _ _ _ hserved']
        exact hentry.content

theorem Same.putInCache (h : Same s s') (hroute : r.route = r'.route) {feed feed' : Feed}
    {lastModified : Option Int} (hfeed : SameFeed feed feed')
    (hadvance : s.advance svc r order (.putInCache feed lastModified) = some (cache, phase))
    (hadvance' : s'.advance svc r' order (.putInCache feed' lastModified) = some (cache', phase')) :
    SameCache cache cache' ∧ SamePhase phase phase' := by
  dsimp only [State.advance] at hadvance hadvance'
  obtain ⟨-, hadvance⟩ := Option.ite_none_right_eq_some.mp hadvance
  obtain ⟨-, hadvance'⟩ := Option.ite_none_right_eq_some.mp hadvance'
  obtain ⟨rfl, rfl⟩ := Prod.mk.inj (Option.some.inj hadvance)
  obtain ⟨rfl, rfl⟩ := Prod.mk.inj (Option.some.inj hadvance')
  rw [← Request.cacheKey_congr hroute]
  refine ⟨(h.cache.evicted order).put _ ⟨h.now, hfeed⟩, .responded ?_⟩
  rintro _ _ _ _ _ _ ⟨⟩ ⟨⟩
  exact hfeed

/-- What a handler does next depends on the hosts in the links of the feed only. -/
theorem Same.advance (h : Same s s') (hroute : r.route = r'.route) {p p' : Phase}
    (hphase : SamePhase p p') (hadvance : s.advance svc r order p = some (cache, phase))
    (hadvance' : s'.advance svc r' order p' = some (cache', phase')) :
    SameCache cache cache' ∧ SamePhase phase phase' := by
  cases hphase with
  | same =>
    cases p with
    | getFromCache => exact h.getFromCache hroute hadvance hadvance'
    | deleteExpired =>
      obtain ⟨rfl, rfl⟩ := Prod.mk.inj (Option.some.inj hadvance)
      obtain ⟨rfl, rfl⟩ := Prod.mk.inj (Option.some.inj hadvance')
      rw [← Request.cacheKey_congr hroute, ← Request.miss_congr hroute]
      exact ⟨h.cache.delete _, .same _⟩
    | getUser username =>
      dsimp only [State.advance] at hadvance hadvance'
      rw [← h.store] at hadvance'
      cases huser : s.store.getUserNamed username with
      | none =>
        rw [huser] at hadvance hadvance'
        obtain ⟨rfl, rfl⟩ := Prod.mk.inj (Option.some.inj hadvance)
        obtain ⟨rfl, rfl⟩ := Prod.mk.inj (Option.some.inj hadvance')
        exact ⟨h.cache, .same _⟩
      | some user =>
        rw [huser] at hadvance hadvance'
        obtain ⟨rfl, rfl⟩ := Prod.mk.inj (Option.some.inj hadvance)
        obtain ⟨rfl, rfl⟩ := Prod.mk.inj (Option.some.inj hadvance')
        exact ⟨h.cache, .same _⟩
    | listMemos user =>
      obtain ⟨rfl, rfl⟩ := Prod.mk.inj (Option.some.inj hadvance)
      obtain ⟨rfl, rfl⟩ := Prod.mk.inj (Option.some.inj hadvance')
      rw [h.store]
      exact ⟨h.cache, .same _⟩
    | generate user memoList =>
      dsimp only [State.advance] at hadvance hadvance'
      rw [← h.store, ← h.now] at hadvance'
      cases hgenerate : generateRSSFromMemoList svc.RenderHTML s.store s.now memoList r.base.text
          user with
      | error message =>
        rw [hgenerate] at hadvance
        rw [generate_error hgenerate] at hadvance'
        obtain ⟨rfl, rfl⟩ := Prod.mk.inj (Option.some.inj hadvance)
        obtain ⟨rfl, rfl⟩ := Prod.mk.inj (Option.some.inj hadvance')
        exact ⟨h.cache, .same _⟩
      | ok result =>
        cases hgenerate' : generateRSSFromMemoList svc.RenderHTML s.store s.now memoList
            r'.base.text user with
        | error message =>
          rw [generate_error hgenerate'] at hgenerate
          cases hgenerate
        | ok result' =>
          rw [hgenerate] at hadvance
          rw [hgenerate'] at hadvance'
          obtain ⟨hfeed, hmodified⟩ := SameFeed.of_generate hgenerate hgenerate'
          obtain ⟨rfl, rfl⟩ := Prod.mk.inj (Option.some.inj hadvance)
          obtain ⟨rfl, rfl⟩ := Prod.mk.inj (Option.some.inj hadvance')
          rw [hmodified]
          exact ⟨h.cache, .putInCache hfeed⟩
    | putInCache feed lastModified => exact h.putInCache hroute (.refl feed) hadvance hadvance'
    | responded response => cases hadvance
  | putInCache hfeed => exact h.putInCache hroute hfeed hadvance hadvance'
  | responded _ => cases hadvance

theorem SameHandlers.append {handlers handlers' : List Handler} {h h' : Handler}
    (hsame : SameHandlers handlers handlers') (hlast : SameHandler h h') :
    SameHandlers (handlers ++ [h]) (handlers' ++ [h']) := by
  refine ⟨?_, fun i k k' hk hk' => ?_⟩
  · rw [List.length_append, List.length_append, hsame.length]
    rfl
  · rcases Nat.lt_or_ge i handlers.length with hlt | hge
    · rw [List.getElem?_append_left hlt] at hk
      rw [List.getElem?_append_left (hsame.length ▸ hlt)] at hk'
      exact hsame.each i k k' hk hk'
    · rw [List.getElem?_append_right hge] at hk
      rw [List.getElem?_append_right (hsame.length ▸ hge)] at hk'
      obtain rfl := List.mem_singleton.mp (List.mem_of_getElem? hk)
      obtain rfl := List.mem_singleton.mp (List.mem_of_getElem? hk')
      exact hlast

theorem SameHandlers.set {handlers handlers' : List Handler} {h h' : Handler}
    (hsame : SameHandlers handlers handlers') (i : Nat) (hnew : SameHandler h h') :
    SameHandlers (handlers.set i h) (handlers'.set i h') := by
  refine ⟨?_, fun j k k' hk hk' => ?_⟩
  · rw [List.length_set, List.length_set, hsame.length]
  · by_cases hij : i = j
    · subst hij
      have hlt : i < handlers.length := by simpa using (List.getElem?_eq_some_iff.mp hk).1
      rw [List.getElem?_set_self hlt] at hk
      rw [List.getElem?_set_self (hsame.length ▸ hlt)] at hk'
      obtain rfl := Option.some.inj hk
      obtain rfl := Option.some.inj hk'
      exact hnew
    · rw [List.getElem?_set_ne hij] at hk hk'
      exact hsame.each j k k' hk hk'

theorem Same.step {op op' : Label} (h : Same s s') (hop : SameButBase op op')
    (hstep : (feeds svc).step s op = some t) (hstep' : (feeds svc).step s' op' = some t') :
    Same t t' := by
  cases hop with
  | request r base =>
    obtain rfl := Option.some.inj hstep
    obtain rfl := Option.some.inj hstep'
    exact ⟨h.store, h.now, h.cache, h.handlers.append ⟨rfl, .same _⟩⟩
  | same =>
    cases op with
    | request r =>
      obtain rfl := Option.some.inj hstep
      obtain rfl := Option.some.inj hstep'
      exact ⟨h.store, h.now, h.cache, h.handlers.append ⟨rfl, .same _⟩⟩
    | run i order =>
      obtain ⟨k, hk, hstep⟩ := Option.bind_eq_some_iff.mp hstep
      obtain ⟨⟨cache, phase⟩, hadvance, hs⟩ := Option.bind_eq_some_iff.mp hstep
      obtain ⟨k', hk', hstep'⟩ := Option.bind_eq_some_iff.mp hstep'
      obtain ⟨⟨cache', phase'⟩, hadvance', hs'⟩ := Option.bind_eq_some_iff.mp hstep'
      obtain rfl := Option.some.inj hs
      obtain rfl := Option.some.inj hs'
      obtain ⟨hroute, hphase⟩ := h.handlers.each i k k' hk hk'
      obtain ⟨hcache, hnext⟩ := h.advance hroute hphase hadvance hadvance'
      exact ⟨h.store, h.now, hcache, h.handlers.set i ⟨hroute, hnext⟩⟩
    | storeFails i =>
      obtain ⟨k, hk, hstep⟩ := Option.bind_eq_some_iff.mp hstep
      obtain ⟨response, hfailure, hs⟩ := Option.bind_eq_some_iff.mp hstep
      obtain ⟨k', hk', hstep'⟩ := Option.bind_eq_some_iff.mp hstep'
      obtain ⟨response', hfailure', hs'⟩ := Option.bind_eq_some_iff.mp hstep'
      obtain rfl := Option.some.inj hs
      obtain rfl := Option.some.inj hs'
      obtain ⟨hroute, hphase⟩ := h.handlers.each i k k' hk hk'
      have hresponse : response = response' := by
        generalize k.phase = p at hphase hfailure
        generalize k'.phase = p' at hphase hfailure'
        cases hphase with
        | same => exact Option.some.inj (hfailure.symm.trans hfailure')
        | putInCache _ => cases hfailure
        | responded _ => cases hfailure
      rw [hresponse]
      exact ⟨h.store, h.now, h.cache, h.handlers.set i ⟨hroute, .same _⟩⟩
    | change store =>
      obtain rfl := Option.some.inj hstep
      obtain rfl := Option.some.inj hstep'
      exact ⟨rfl, h.now, h.cache, h.handlers⟩
    | wait nanos =>
      obtain rfl := Option.some.inj hstep
      obtain rfl := Option.some.inj hstep'
      exact ⟨h.store, congrArg (· + (nanos : Int)) h.now, h.cache, h.handlers⟩

theorem Same.init (hinit : (feeds svc).init s) : Same s s := by
  obtain ⟨hcache, hhandlers⟩ := hinit
  refine ⟨rfl, rfl, ⟨rfl, fun key e e' he _ => ?_⟩, ⟨rfl, fun i h h' hi _ => ?_⟩⟩
  · have hmem := s.cache.mem_of_load he
    rw [hcache] at hmem
    cases hmem
  · rw [hhandlers] at hi
    cases hi

theorem same_run {ops ops' : List Label} (hinit : (feeds svc).init s₀)
    (hops : List.Forall₂ SameButBase ops ops') (hrun : (feeds svc).run s₀ ops = some s)
    (hrun' : (feeds svc).run s₀ ops' = some s') : Same s s' :=
  run_related hops (.init hinit) hrun hrun' fun _ _ _ _ _ _ => Same.step

end pair

/-- Where no handler serves items from the cache that were generated for another scheme or host, the
links of a feed are made with the base URL of its request, and they would be the same if the schemes
and hosts of other requests were different. -/
theorem own_links (hinit : (feeds svc).init s₀) (hmeets : (feeds svc).Meets OwnCache s₀ ops)
    (hrun : (feeds svc).run s₀ ops = some s) :
    (∀ (i : Nat) (h : Handler) (feed : Feed) (etag : String) (lastModified : Option Int),
      s.handlers[i]? = some h → h.phase = .responded (.served feed etag lastModified) →
        ∀ item ∈ feed.items, item.Links (Known svc s₀ ops s) h.request.base.text) ∧
    ∀ (ops' : List Label) (s' : State), List.Forall₂ SameButBase ops ops' →
      (feeds svc).Meets OwnCache s₀ ops' → (feeds svc).run s₀ ops' = some s' →
      ∀ (i : Nat) (h h' : Handler) (feed feed' : Feed) (etag etag' : String)
        (lastModified lastModified' : Option Int),
        s.handlers[i]? = some h → s'.handlers[i]? = some h' → h.request.base = h'.request.base →
        h.phase = .responded (.served feed etag lastModified) →
        h'.phase = .responded (.served feed' etag' lastModified') → feed.items = feed'.items := by
  have hserved : ∀ {ops : List Label} {s : State} {i : Nat} {h : Handler} {feed : Feed}
      {etag : String} {lastModified : Option Int}, OwnInv svc s₀ ops s → s.handlers[i]? = some h →
      h.phase = .responded (.served feed etag lastModified) →
      LinksInv svc s₀ ops s feed ∧ (feed.items = [] ∨ feed.link = h.request.base.text) := by
    intro ops s i h feed etag lastModified hinv hi hphase
    have hfeed := hinv.handlers i h hi
    unfold OwnFeed at hfeed
    rw [hphase] at hfeed
    exact hfeed
  have hinv := ownInv_run hinit hmeets hrun
  constructor
  · intro i h feed etag lastModified hi hphase item hitem
    obtain ⟨hlinks, hempty | hlink⟩ := hserved hinv hi hphase
    · rw [hempty] at hitem
      cases hitem
    · rw [← hlink]
      exact hlinks item hitem
  · intro ops' s' hops hmeets' hrun' i h h' feed feed' etag etag' lastModified lastModified' hi hi'
      hbase hphase hphase'
    have hinv' := ownInv_run hinit hmeets' hrun'
    have hsame := ((same_run hinit hops hrun hrun').handlers.each i h h' hi hi').phase
    rw [hphase, hphase'] at hsame
    have hfeed : SameFeed feed feed' := by
      cases hsame with
      | same => exact .refl feed
      | responded hresponse => exact hresponse _ _ _ _ _ _ rfl rfl
    have hnone : feed.items = [] ↔ feed'.items = [] := by
      rw [← List.length_eq_zero_iff, ← List.length_eq_zero_iff, hfeed.length]
    rcases (hserved hinv hi hphase).2 with hempty | hlink
    · rw [hempty, hnone.mp hempty]
    · rcases (hserved hinv' hi' hphase').2 with hempty' | hlink'
      · rw [hempty', hnone.mpr hempty']
      · apply hfeed.items
        rw [hlink, hlink', hbase]

/-- The feed is generated for the first request and served to the second. -/
theorem own_links_twice :
    ∃ (s : State) (feed : Feed), (feeds plain).run start [.request (explore "localhost"),
        .run 0 [], .run 0 [], .run 0 [], .run 0 [], .request (explore "localhost"), .run 1 []] =
          some s ∧
      s.handlers[1]? = some ⟨explore "localhost", .responded (.served feed "\"0\"" (some 0))⟩ ∧
      feed.items ≠ [] ∧ ∀ item ∈ feed.items, ∃ uid, item.link = "https://localhost/memos/" ++ uid := by
  obtain ⟨item, -, hgenerate⟩ := generate_note (explore "localhost").base.text
  have hrun := run_append (run_explore rfl rfl hgenerate)
    [.request (explore "localhost"), .run 1 []]
  have hmeets : (feeds plain).Meets OwnCache start [.request (explore "localhost"), .run 0 [],
      .run 0 [], .run 0 [], .run 0 [], .request (explore "localhost"), .run 1 []] := by
    apply meets_one_base ⟨rfl, rfl⟩
    intro r hr
    have hexplore : r = explore "localhost" := by simpa using hr
    rw [hexplore]
  refine ⟨_, _, hrun, rfl, List.cons_ne_nil item [], fun item hitem => ?_⟩
  obtain ⟨uid, huid⟩ := ((own_links ⟨rfl, rfl⟩ hmeets hrun).1 1 _ _ _ _ rfl rfl item hitem).link
  exact ⟨uid, huid⟩

/-- The items that were generated for a request to `a` are served to one to `b`. -/
theorem other_links :
    ¬∀ (svc : RSSService) (s₀ s : State) (ops : List Label) (i : Nat) (h : Handler) (feed : Feed)
      (etag : String) (lastModified : Option Int), (feeds svc).init s₀ →
      (feeds svc).run s₀ ops = some s → s.handlers[i]? = some h →
      h.phase = .responded (.served feed etag lastModified) →
      ∀ item ∈ feed.items, item.Links (Known svc s₀ ops s) h.request.base.text := by
  intro hall
  obtain ⟨item, hitem, hgenerate⟩ := generate_note (explore "a").base.text
  have hrun := run_append (run_explore rfl rfl hgenerate)
    [.request (explore "b"), .run 1 []]
  have hlinks := hall plain start _ _ 1 _ _ _ _ ⟨rfl, rfl⟩ hrun rfl rfl item List.mem_cons_self
  obtain ⟨uid, huid⟩ := hlinks.link
  rw [hitem] at huid
  have hnote : (explore "a").base.text ++ "/memos/" ++ "note" =
      (explore "b").base.text ++ "/memos/" ++ uid := huid
  have ha : ((explore "a").base.text ++ "/memos/" ++ "note").toList[8]? = some 'a' := by decide
  have hb : ((explore "b").base.text ++ "/memos/" ++ uid).toList[8]? = some 'b' := by
    rw [String.toList_append, String.toList_append, List.append_assoc]
    rfl
  rw [hnote, hb] at ha
  cases ha

end Memoark.Server.Rss
