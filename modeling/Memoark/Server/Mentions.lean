import Memoark.Go.Strings
import Memoark.Go.Sync
import Memoark.Markdown.Extract
import Memoark.Program.Contract
import Memoark.Store.Storage

/-! Whom the mentions in a memo notify (`memo_mention_helpers.go`). -/
namespace Memoark.Server.Mentions
open Store
open Markdown (Categories Service Kind Node toLower)
open Program (Durable)

section dispatch

variable (U : Categories) (service : Service)

/-- `ListUsers` with user names and a status; SQLite compares user names byte by byte. -/
def listUsersNamed (db : Database) (usernameList : List String) (rowStatus : RowStatus) :
    List UserRecord :=
  db.users.filter fun u => askedIn usernameList u.username && asked (some rowStatus) u.rowStatus

def targetsOf (users : List UserRecord) : Go.SyncMap Nat UserRecord :=
  users.foldl (fun targets user => targets.store user.id user) .empty

def resolveMentionTargets (db : Database) (content : String) : Go.SyncMap Nat UserRecord :=
  if content = "" then .empty
  else
    let data := service.extractAll U content
    if data.mentions = [] then .empty
    else targetsOf (listUsersNamed db data.mentions .normal)

def canUserAccessMentionContext (target : UserRecord) (memo : Memo) (relatedMemo : Option Memo) :
    Bool :=
  if relatedMemo.any fun relatedMemo =>
      relatedMemo.visibility = .Private ∧ target.id ≠ relatedMemo.creatorId then false
  else if memo.visibility = .Private ∧ target.id ≠ memo.creatorId then false
  else true

def hasCommentInbox (target : UserRecord) (memo : Memo) (relatedMemo : Option Memo) : Bool :=
  relatedMemo.any fun relatedMemo =>
    target.id = relatedMemo.creatorId ∧ memo.visibility ≠ .Private ∧
      memo.creatorId ≠ relatedMemo.creatorId

def shouldSkipMentionInbox (target : UserRecord) (memo : Memo) (relatedMemo : Option Memo) : Bool :=
  if target.id = memo.creatorId then true
  else if hasCommentInbox target memo relatedMemo then true
  else !canUserAccessMentionContext target memo relatedMemo

def mentionMessage (memo : Memo) (relatedMemo : Option Memo) : InboxMessage :=
  .MEMO_MENTION (some ⟨memo.id, (relatedMemo.map (·.id)).getD 0⟩)

def notifyTarget (memo : Memo) (relatedMemo : Option Memo)
    (previousTargets : Go.SyncMap Nat UserRecord) (entry : Nat × UserRecord) : Statement Unit :=
  if (previousTargets.load entry.1).isSome then return
  else if shouldSkipMentionInbox entry.2 memo relatedMemo then return
  else
    (Storage.createInbox memo.creatorId entry.2.id (mentionMessage memo relatedMemo)).mapError
      ("failed to create mention inbox: " ++ ·)

def dispatchMemoMentionNotifications (range : Go.RangeOrder (Nat × UserRecord))
    (memo relatedMemo : Option Memo) (previousContent : String) : Statement Unit :=
  match memo with
  | none => return
  | some memo => do
    let s ← Durable.get
    let currentTargets := resolveMentionTargets U service s.toDatabase memo.content
    if currentTargets.size = 0 then return
    else
      let s ← Durable.get
      let previousTargets := resolveMentionTargets U service s.toDatabase previousContent
      Durable.forEach (notifyTarget memo relatedMemo previousTargets)
        (range.arrange currentTargets.entries)

end dispatch

section targets

variable {U : Categories} {service : Service} {db : Database} {content : String}

theorem entries_foldl_store {users : List UserRecord} (m : Go.SyncMap Nat UserRecord)
    (hids : (users.map (·.id)).Nodup) (hfresh : ∀ user ∈ users, m.load user.id = none) :
    (users.foldl (fun targets user => targets.store user.id user) m).entries =
      (users.map fun user => (user.id, user)).reverse ++ m.entries := by
  induction users generalizing m with
  | nil => rfl
  | cons user users ih =>
    rw [List.map_cons, List.nodup_cons] at hids
    have hentries : (m.store user.id user).entries = (user.id, user) :: m.entries :=
      congrArg ((user.id, user) :: ·) (m.delete_of_load_none (hfresh user List.mem_cons_self))
    have hrest : ∀ other ∈ users, (m.store user.id user).load other.id = none := by
      intro other hother
      have hne : other.id ≠ user.id := by
        intro hid
        apply hids.1
        rw [← hid]
        exact List.mem_map_of_mem hother
      rw [m.load_store_of_ne hne]
      exact hfresh other (List.mem_cons_of_mem _ hother)
    rw [List.foldl_cons, ih _ hids.2 hrest, hentries, List.map_cons, List.reverse_cons,
      List.append_assoc]
    rfl

theorem targetsOf_entries {users : List UserRecord} (hids : (users.map (·.id)).Nodup) :
    (targetsOf users).entries = (users.map fun user => (user.id, user)).reverse := by
  have hentries := entries_foldl_store .empty hids fun _ _ => rfl
  rw [show (Go.SyncMap.empty : Go.SyncMap Nat UserRecord).entries = [] from rfl,
    List.append_nil] at hentries
  exact hentries

theorem resolveMentionTargets_entries (hempty : service.mentioned U "" = [])
    (hids : (db.users.map (·.id)).Nodup) :
    (resolveMentionTargets U service db content).entries =
      ((db.users.filter fun user => user.username ∈ service.mentioned U content ∧
        user.rowStatus = .normal).map fun user => (user.id, user)).reverse := by
  have hnone : ∀ text, service.mentioned U text = [] →
      (db.users.filter fun user => user.username ∈ service.mentioned U text ∧
        user.rowStatus = .normal) = [] := by
    intro text htext
    simp [htext]
  unfold resolveMentionTargets
  dsimp only
  split
  · rename_i hcontent
    rw [hcontent, hnone "" hempty]
    rfl
  · have hmem : ∀ name, name ∈ (service.extractAll U content).mentions ↔
        name ∈ service.mentioned U content := by
      intro name
      rw [Markdown.extractAll_mentions]
      exact Markdown.mem_uniquePreserveCase
    split
    · rename_i hmentions
      have hcontent : service.mentioned U content = [] := by
        apply List.eq_nil_iff_forall_not_mem.mpr
        intro name hname
        have hname := (hmem name).mpr hname
        rw [hmentions] at hname
        cases hname
      rw [hnone content hcontent]
      rfl
    · rename_i hmentions
      have hlisted : listUsersNamed db (service.extractAll U content).mentions .normal =
          db.users.filter fun user => user.username ∈ service.mentioned U content ∧
            user.rowStatus = .normal := by
        unfold listUsersNamed
        congr 1
        funext user
        simp [askedIn, asked, hmentions, hmem, eq_comm]
      rw [hlisted]
      exact targetsOf_entries (hids.sublist (List.filter_sublist.map UserRecord.id))

theorem mem_resolveMentionTargets (hempty : service.mentioned U "" = [])
    (hids : (db.users.map (·.id)).Nodup) {entry : Nat × UserRecord} :
    entry ∈ (resolveMentionTargets U service db content).entries ↔
      entry.2 ∈ db.users ∧ entry.1 = entry.2.id ∧ entry.2.rowStatus = .normal ∧
        entry.2.username ∈ service.mentioned U content := by
  rw [resolveMentionTargets_entries hempty hids, List.mem_reverse, List.mem_map]
  constructor
  · intro h
    obtain ⟨user, huser, rfl⟩ := h
    obtain ⟨hmem, hnamed⟩ := List.mem_filter.mp huser
    obtain ⟨hname, hnormal⟩ := of_decide_eq_true hnamed
    exact ⟨hmem, rfl, hnormal, hname⟩
  · intro h
    obtain ⟨hmem, hid, hnormal, hname⟩ := h
    refine ⟨entry.2, List.mem_filter.mpr ⟨hmem, ?_⟩, Prod.ext hid.symm rfl⟩
    exact decide_eq_true ⟨hname, hnormal⟩

theorem load_resolveMentionTargets (hempty : service.mentioned U "" = [])
    (hids : (db.users.map (·.id)).Nodup) {user : UserRecord} (huser : user ∈ db.users)
    (hnormal : user.rowStatus = .normal) :
    ((resolveMentionTargets U service db content).load user.id).isSome ↔
      user.username ∈ service.mentioned U content := by
  rw [← Go.SyncMap.mem_keys_iff]
  constructor
  · intro h
    obtain ⟨entry, hentry, hid⟩ := List.mem_map.mp h
    obtain ⟨hmem, hkey, -, hname⟩ := (mem_resolveMentionTargets hempty hids).mp hentry
    have hsame := List.inj_on_of_nodup_map hids hmem huser (hkey.symm.trans hid)
    rw [← hsame]
    exact hname
  · intro h
    have hentry := (@mem_resolveMentionTargets U service db content hempty hids
      (user.id, user)).mpr ⟨huser, rfl, hnormal, h⟩
    exact List.mem_map_of_mem hentry

end targets

section sent

variable {memo : Memo} {relatedMemo : Option Memo} {s s' s'' : Storage}

/-- Between two states, a message about the memo is created for each of the receivers. -/
structure Sends (memo : Memo) (relatedMemo : Option Memo) (receivers : List Nat)
    (s s' : Storage) : Prop where
  created : ∃ created, s'.inboxes = s.inboxes ++ created ∧
    created.map (·.receiverId) = receivers ∧
    ∀ i ∈ created, i.senderId = memo.creatorId ∧
      i.message = .message (mentionMessage memo relatedMemo)
  database : s'.toDatabase = s.toDatabase

theorem Sends.nil : Sends memo relatedMemo [] s s := by
  constructor
  · exact ⟨[], (List.append_nil _).symm, rfl, fun _ h => by cases h⟩
  · rfl

theorem Sends.append {receivers receivers' : List Nat} (h : Sends memo relatedMemo receivers s s')
    (h' : Sends memo relatedMemo receivers' s' s'') :
    Sends memo relatedMemo (receivers ++ receivers') s s'' := by
  obtain ⟨created, hinboxes, hreceivers, hmessages⟩ := h.created
  obtain ⟨created', hinboxes', hreceivers', hmessages'⟩ := h'.created
  constructor
  · refine ⟨created ++ created', ?_, ?_, ?_⟩
    · rw [hinboxes', hinboxes, List.append_assoc]
    · rw [List.map_append, hreceivers, hreceivers']
    · intro i hi
      rcases List.mem_append.mp hi with hi | hi
      · exact hmessages i hi
      · exact hmessages' i hi
  · rw [h'.database, h.database]

def notified (memo : Memo) (relatedMemo : Option Memo) (previousTargets : Go.SyncMap Nat UserRecord)
    (entry : Nat × UserRecord) : Bool :=
  !(previousTargets.load entry.1).isSome && !shouldSkipMentionInbox entry.2 memo relatedMemo

theorem notifyTarget_run (previousTargets : Go.SyncMap Nat UserRecord) (entry : Nat × UserRecord)
    (s : Storage) : ∃ s', (notifyTarget memo relatedMemo previousTargets entry).run s = (.ok (), s') ∧
      Sends memo relatedMemo
        (if notified memo relatedMemo previousTargets entry then [entry.2.id] else []) s s' := by
  unfold notifyTarget notified
  by_cases hprevious : (previousTargets.load entry.1).isSome
  · rw [if_pos hprevious, hprevious]
    exact ⟨s, rfl, .nil⟩
  · rw [if_neg hprevious]
    by_cases hskip : shouldSkipMentionInbox entry.2 memo relatedMemo
    · rw [if_pos hskip, hskip, Bool.not_true, Bool.and_false]
      exact ⟨s, rfl, .nil⟩
    · rw [if_neg hskip]
      simp only [hprevious, hskip, Bool.not_false, Bool.and_self, if_true]
      refine ⟨_, rfl, ⟨_, rfl, rfl, ?_⟩, rfl⟩
      intro i hi
      obtain rfl := List.mem_singleton.mp hi
      exact ⟨rfl, rfl⟩

theorem forEach_notifyTarget_run (previousTargets : Go.SyncMap Nat UserRecord)
    (entries : List (Nat × UserRecord)) (s : Storage) :
    ∃ s', (Durable.forEach (notifyTarget memo relatedMemo previousTargets) entries).run s =
        (.ok (), s') ∧
      Sends memo relatedMemo
        ((entries.filter (notified memo relatedMemo previousTargets)).map (·.2.id)) s s' := by
  induction entries generalizing s with
  | nil => exact ⟨s, rfl, .nil⟩
  | cons entry entries ih =>
    obtain ⟨s₁, hrun, hsends⟩ := @notifyTarget_run memo relatedMemo previousTargets entry s
    obtain ⟨s₂, hrest, hsendsRest⟩ := ih s₁
    refine ⟨s₂, (Durable.run_bind_of_ok hrun).trans hrest, ?_⟩
    have hboth := hsends.append hsendsRest
    rw [List.filter_cons]
    split
    · rename_i hnotified
      rw [if_pos hnotified] at hboth
      exact hboth
    · rename_i hnotified
      rw [if_neg hnotified] at hboth
      exact hboth

end sent

section exactness

variable {U : Categories} {service : Service} {range : Go.RangeOrder (Nat × UserRecord)}
  {memo : Memo} {relatedMemo : Option Memo} {previousContent : String} {s : Storage}

/-- A user is to be notified when the mentions have this name for the user: it is new, and the user
may read the memo and has no other message about it. -/
structure Due (U : Categories) (service : Service) (memo : Memo) (relatedMemo : Option Memo)
    (previousContent : String) (name : String) (user : UserRecord) : Prop where
  normal : user.rowStatus = .normal
  mentioned : name ∈ service.mentioned U memo.content
  new : name ∉ service.mentioned U previousContent
  notAuthor : user.id ≠ memo.creatorId
  noCommentInbox : hasCommentInbox user memo relatedMemo = false
  access : canUserAccessMentionContext user memo relatedMemo = true

/-- One message is created for each of the users, and none for anyone else. -/
def Notifies (memo : Memo) (relatedMemo : Option Memo) (due : UserRecord → Prop)
    (s s' : Storage) : Prop :=
  ∃ receivers, Sends memo relatedMemo receivers s s' ∧ receivers.Nodup ∧
    ∀ id, id ∈ receivers ↔ ∃ user ∈ s.users, user.id = id ∧ due user

theorem shouldSkipMentionInbox_eq_false {user : UserRecord} :
    shouldSkipMentionInbox user memo relatedMemo = false ↔ user.id ≠ memo.creatorId ∧
      hasCommentInbox user memo relatedMemo = false ∧
        canUserAccessMentionContext user memo relatedMemo = true := by
  unfold shouldSkipMentionInbox
  split
  · simp [*]
  · split <;> simp [*]

def receivers (range : Go.RangeOrder (Nat × UserRecord)) (memo : Memo) (relatedMemo : Option Memo)
    (targets previousTargets : Go.SyncMap Nat UserRecord) : List Nat :=
  ((range.arrange targets.entries).filter (notified memo relatedMemo previousTargets)).map (·.2.id)

theorem receivers_nodup {targets previousTargets : Go.SyncMap Nat UserRecord}
    (hkeys : ∀ entry ∈ targets.entries, entry.1 = entry.2.id) :
    (receivers range memo relatedMemo targets previousTargets).Nodup := by
  have hperm := range.perm targets.entries
  have harranged : ((range.arrange targets.entries).map (·.2.id)).Nodup := by
    have hsame : (range.arrange targets.entries).map (·.2.id) =
        (range.arrange targets.entries).map Prod.fst := by
      apply List.map_congr_left
      intro entry hentry
      exact (hkeys entry (hperm.mem_iff.mp hentry)).symm
    rw [hsame]
    exact (hperm.map Prod.fst).nodup_iff.mpr targets.nodup
  exact harranged.sublist (List.filter_sublist.map _)

theorem mem_receivers (hempty : service.mentioned U "" = []) (hids : (s.users.map (·.id)).Nodup)
    (id : Nat) :
    id ∈ receivers range memo relatedMemo
        (resolveMentionTargets U service s.toDatabase memo.content)
        (resolveMentionTargets U service s.toDatabase previousContent) ↔
      ∃ user ∈ s.users, user.id = id ∧
        Due U service memo relatedMemo previousContent user.username user := by
  have hperm := range.perm (resolveMentionTargets U service s.toDatabase memo.content).entries
  unfold receivers
  rw [List.mem_map]
  constructor
  · intro h
    obtain ⟨entry, hentry, hid⟩ := h
    obtain ⟨hmem, hnotified⟩ := List.mem_filter.mp hentry
    obtain ⟨huser, hkey, hnormal, hname⟩ :=
      (mem_resolveMentionTargets hempty hids).mp (hperm.mem_iff.mp hmem)
    unfold notified at hnotified
    rw [Bool.and_eq_true, Bool.not_eq_true', Bool.not_eq_true', hkey] at hnotified
    obtain ⟨hauthor, hinbox, haccess⟩ := shouldSkipMentionInbox_eq_false.mp hnotified.2
    have hnew : entry.2.username ∉ service.mentioned U previousContent := by
      intro hprevious
      have hsome := (load_resolveMentionTargets hempty hids huser hnormal).mpr hprevious
      rw [hnotified.1] at hsome
      cases hsome
    exact ⟨entry.2, huser, hid, hnormal, hname, hnew, hauthor, hinbox, haccess⟩
  · intro h
    obtain ⟨user, huser, hid, hdue⟩ := h
    have hentry := (@mem_resolveMentionTargets U service s.toDatabase memo.content hempty hids
      (user.id, user)).mpr ⟨huser, rfl, hdue.normal, hdue.mentioned⟩
    have hnone : ((resolveMentionTargets U service s.toDatabase previousContent).load
        user.id).isSome = false := by
      rw [← Bool.not_eq_true, load_resolveMentionTargets hempty hids huser hdue.normal]
      exact hdue.new
    have hskip := shouldSkipMentionInbox_eq_false.mpr
      ⟨hdue.notAuthor, hdue.noCommentInbox, hdue.access⟩
    refine ⟨(user.id, user), List.mem_filter.mpr ⟨hperm.mem_iff.mpr hentry, ?_⟩, hid⟩
    unfold notified
    rw [hnone, hskip]
    rfl

theorem dispatch_notifies (hempty : service.mentioned U "" = [])
    (hids : (s.users.map (·.id)).Nodup) :
    ∃ s', (dispatchMemoMentionNotifications U service range (some memo) relatedMemo
        previousContent).run s = (.ok (), s') ∧
      Notifies memo relatedMemo
        (fun user => Due U service memo relatedMemo previousContent user.username user) s s' := by
  let targets := resolveMentionTargets U service s.toDatabase memo.content
  let previousTargets := resolveMentionTargets U service s.toDatabase previousContent
  have hnodup : (receivers range memo relatedMemo targets previousTargets).Nodup := by
    apply receivers_nodup
    intro entry hentry
    exact ((mem_resolveMentionTargets hempty hids).mp hentry).2.1
  have hmem := @mem_receivers U service range memo relatedMemo previousContent s hempty hids
  have hget : (Durable.get : Statement Storage).run s = (.ok s, s) := rfl
  unfold dispatchMemoMentionNotifications
  rw [Durable.run_bind_of_ok hget]
  dsimp only
  split
  · rename_i hsize
    have hentries : targets.entries = [] := List.length_eq_zero_iff.mp hsize
    have hnone : receivers range memo relatedMemo targets previousTargets = [] := by
      have hperm := range.perm targets.entries
      unfold receivers
      rw [hentries] at hperm ⊢
      rw [hperm.eq_nil]
      rfl
    refine ⟨s, rfl, [], .nil, List.nodup_nil, ?_⟩
    rw [hnone] at hmem
    exact hmem
  · rw [Durable.run_bind_of_ok hget]
    obtain ⟨s', hrun, hsends⟩ := @forEach_notifyTarget_run memo relatedMemo previousTargets
      (range.arrange targets.entries) s
    exact ⟨s', hrun, _, hsends, hnodup, hmem⟩

theorem Notifies.due_iff {due due' : UserRecord → Prop} {s' : Storage}
    (hids : (s.users.map (·.id)).Nodup) (h : Notifies memo relatedMemo due s s')
    (h' : Notifies memo relatedMemo due' s s') {user : UserRecord} (huser : user ∈ s.users) :
    due user ↔ due' user := by
  obtain ⟨receivers, hsends, -, hmem⟩ := h
  obtain ⟨receivers', hsends', -, hmem'⟩ := h'
  obtain ⟨created, hinboxes, hreceivers, -⟩ := hsends.created
  obtain ⟨created', hinboxes', hreceivers', -⟩ := hsends'.created
  have hcreated : created = created' :=
    List.append_cancel_left (hinboxes.symm.trans hinboxes')
  have hsame : receivers = receivers' := by rw [← hreceivers, ← hreceivers', hcreated]
  subst hsame
  have hfor : ∀ {due : UserRecord → Prop},
      (∃ other ∈ s.users, other.id = user.id ∧ due other) ↔ due user := by
    intro due
    constructor
    · intro h
      obtain ⟨other, hother, hid, hdue⟩ := h
      obtain rfl := List.inj_on_of_nodup_map hids hother huser hid
      exact hdue
    · intro h
      exact ⟨user, huser, rfl, h⟩
  have hboth := (hmem user.id).symm.trans (hmem' user.id)
  exact hfor.symm.trans (hboth.trans hfor)

theorem Notifies.congr {due due' : UserRecord → Prop} {s' : Storage}
    (h : Notifies memo relatedMemo due s s') (hsame : ∀ user ∈ s.users, due user ↔ due' user) :
    Notifies memo relatedMemo due' s s' := by
  obtain ⟨receivers, hsends, hnodup, hmem⟩ := h
  refine ⟨receivers, hsends, hnodup, fun id => ?_⟩
  rw [hmem]
  constructor
  · intro h
    obtain ⟨user, huser, hid, hdue⟩ := h
    exact ⟨user, huser, hid, (hsame user huser).mp hdue⟩
  · intro h
    obtain ⟨user, huser, hid, hdue⟩ := h
    exact ⟨user, huser, hid, (hsame user huser).mpr hdue⟩

theorem toLower_of_mentioned (hlower : ∀ c, U.lower (U.lower c) = U.lower c) {content name : String}
    (h : name ∈ service.mentioned U content) : toLower U name = name := by
  obtain ⟨v, -, hname⟩ := List.mem_filterMap.mp h
  unfold Markdown.mentionOf at hname
  cases hkind : v.2.kind with
  | Mention username =>
    rw [hkind] at hname
    obtain rfl := Option.some.inj hname
    unfold toLower
    rw [String.toList_ofList, List.map_map]
    congr 1
    apply List.map_congr_left
    intro c _
    exact hlower c
  | _ =>
    rw [hkind] at hname
    cases hname

/-- The users that a mention names whatever the letter case are notified exactly if those among
them that are to be notified have user names in lower case. -/
theorem mentions_exact (hlower : ∀ c, U.lower (U.lower c) = U.lower c)
    (hempty : service.mentioned U "" = []) (hids : (s.users.map (·.id)).Nodup)
    (range : Go.RangeOrder (Nat × UserRecord)) (memo : Memo) (relatedMemo : Option Memo)
    (previousContent : String) :
    ∃ s', (dispatchMemoMentionNotifications U service range (some memo) relatedMemo
        previousContent).run s = (.ok (), s') ∧
      (Notifies memo relatedMemo (fun user =>
          Due U service memo relatedMemo previousContent (toLower U user.username) user) s s' ↔
        ∀ user ∈ s.users,
          Due U service memo relatedMemo previousContent (toLower U user.username) user →
            toLower U user.username = user.username) := by
  obtain ⟨s', hrun, hnotifies⟩ := @dispatch_notifies U service range memo relatedMemo
    previousContent s hempty hids
  refine ⟨s', hrun, ?_⟩
  constructor
  · intro h user huser hdue
    have hexact := (h.due_iff hids hnotifies huser).mp hdue
    exact toLower_of_mentioned hlower hexact.mentioned
  · intro hcase
    apply hnotifies.congr
    intro user huser
    constructor
    · intro hexact
      rw [toLower_of_mentioned hlower hexact.mentioned]
      exact hexact
    · intro hdue
      have hsame := hcase user huser hdue
      rw [hsame] at hdue
      exact hdue

def mentionService : Service where
  parse content := .node .Document
    (if content = "" then []
    else [.node .Paragraph [.node (.Mention (String.ofList (content.toList.drop 1))) []]])

def welcome (content : String) : Memo where
  id := 7
  uid := "welcome"
  rowStatus := .normal
  creatorId := 2
  createdTs := 5
  updatedTs := 5
  content := content
  visibility := .Public
  pinned := false
  payload := ⟨none, none, []⟩
  parentUid := none

def twoUsers (username : String) : Storage where
  users := [⟨1, .normal, username, .USER⟩, ⟨2, .normal, "bob", .USER⟩]
  memos := [(welcome "").record]
  relations := []
  attachments := []
  reactions := []
  inboxes := []
  nextMemoId := 8
  nextReactionId := 1
  nextInboxId := 1

theorem mentions_exact_ada : ∃ s',
    (dispatchMemoMentionNotifications Markdown.asciiCategories mentionService (.id _)
        (some (welcome "@Ada")) none "").run (twoUsers "ada") = (.ok (), s') ∧
      Notifies (welcome "@Ada") none (fun user =>
          Due Markdown.asciiCategories mentionService (welcome "@Ada") none ""
            (toLower Markdown.asciiCategories user.username) user) (twoUsers "ada") s' := by
  obtain ⟨s', hrun, hexact⟩ := @mentions_exact Markdown.asciiCategories mentionService
    (twoUsers "ada") Go.toLower_toLower rfl (by decide) (.id _) (welcome "@Ada") none ""
  refine ⟨s', hrun, hexact.mpr ?_⟩
  intro user huser _
  rcases List.mem_cons.mp huser with rfl | huser
  · decide
  · obtain rfl := List.mem_singleton.mp huser
    decide

/-- A user whose name has an upper-case letter is not notified, even by that name. -/
theorem upper_case_not_notified : ∃ s',
    (dispatchMemoMentionNotifications Markdown.asciiCategories mentionService (.id _)
        (some (welcome "@Ada")) none "").run (twoUsers "Ada") = (.ok (), s') ∧ s'.inboxes = [] ∧
      ¬Notifies (welcome "@Ada") none (fun user =>
          Due Markdown.asciiCategories mentionService (welcome "@Ada") none ""
            (toLower Markdown.asciiCategories user.username) user) (twoUsers "Ada") s' := by
  obtain ⟨s', hrun, hnotifies⟩ := @dispatch_notifies Markdown.asciiCategories mentionService (.id _)
    (welcome "@Ada") none "" (twoUsers "Ada") rfl (by decide)
  have hinboxes : ((dispatchMemoMentionNotifications Markdown.asciiCategories mentionService (.id _)
      (some (welcome "@Ada")) none "").run (twoUsers "Ada")).2.inboxes = [] := by decide
  rw [hrun] at hinboxes
  refine ⟨s', hrun, hinboxes, fun h => ?_⟩
  have hada : (⟨1, .normal, "Ada", .USER⟩ : UserRecord) ∈ (twoUsers "Ada").users := List.mem_cons_self
  have hdue := (h.due_iff (by decide) hnotifies hada).mp
    ⟨rfl, by decide, by decide, by decide, rfl, rfl⟩
  have hmentioned := hdue.mentioned
  revert hmentioned
  decide

end exactness

end Memoark.Server.Mentions
