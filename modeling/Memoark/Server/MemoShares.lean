import Memoark.Server.AttachmentAccess
import Memoark.Server.ResourceName
import Memoark.System.Runs

/-! Share links: `CreateMemoShare`, `ListMemoShares`, `DeleteMemoShare` and `GetMemoByShare` of
`memo_share_service.go` side by side, one statement at a time, while other calls write the memos and
the users. -/
namespace Memoark.Server.MemoShares
open Store Memoark.System

structure ShareMessage where
  name : String
  createTime : Api.Timestamp
  expireTime : Option Api.Timestamp

inductive Request where
  /-- With the parent and the expiry of the share. -/
  | createMemoShare (parent : String) (expireTime : Option Api.Timestamp)
  | listMemoShares (parent : String)
  | deleteMemoShare (name : String)
  | getMemoByShare (shareId : String)

inductive Answer where
  | share (message : ShareMessage)
  | shares (messages : List ShareMessage)
  | empty
  | memo (message : Api.Memo)

/-- What is done with the shares of the memo once it is read. -/
inductive Operation where
  | create (expireTime : Option Api.Timestamp)
  | list
  | delete (shareToken : String)

inductive Step where
  | fetchCurrentUser
  | getMemo (user : UserRecord) (memoUID : String) (operation : Operation)
  | createMemoShare (user : UserRecord) (memo : Memo) (expiresTs : Option Int)
  | listMemoShares (user : UserRecord) (memo : Memo)
  | getMemoShare (user : UserRecord) (memo : Memo) (shareToken : String)
  | deleteMemoShare (user : UserRecord) (memo : Memo) (shareToken : String)
  | getActiveMemoShare (shareId : String)
  | getSharedMemo (ms : MemoShare)
  | convert (ms : MemoShare) (memo : Memo)

structure Grant where
  token : String
  user : UserRecord
  memo : Memo
  expiresTs : Option Int

structure Revocation where
  token : String
  user : UserRecord
  memo : Memo

structure Running where
  userID : Nat
  request : Request
  revoked : List Revocation
  startedAt : Int

inductive Call where
  | idle
  | running (call : Running) (next : Step)
  | returned (call : Running) (result : Except Status Answer)

/-- What the last reads of `GetMemoByShare` return. The tables may change between them. -/
structure Children where
  reactions : List ReactionRecord
  attachments : List AttachmentRecord
  relations : Except Unit (List Api.MemoRelation)
  tables : Database

inductive Label where
  | start (n userID : Nat) (request : Request)
  /-- The next statement, with the token that `shortuuid.New` returns. -/
  | step (n : Nat) (token : String)
  | finish (n : Nat) (children : Children)
  /-- The statement fails; where one of the last reads does, with what is answered to it. -/
  | fails (n : Nat) (last : Status)
  | tick (seconds : Nat)
  /-- Other calls write the tables, and remove shares. -/
  | write (db : Database) (keep : MemoShare → Bool)

structure State where
  db : Database
  shares : List MemoShare
  nextID : Nat
  now : Int
  calls : Nat → Call
  grants : List Grant
  revoked : List Revocation

def shareName (memoUID token : String) : String := memoName memoUID ++ "/shares/" ++ token

def convertMemoShareFromStore (ms : MemoShare) (memoUID : String) : ShareMessage where
  name := shareName memoUID ms.uid
  createTime := timestamp ms.createdTs
  expireTime := ms.expiresTs.map timestamp

def parseRequest : Request → Except Status (String × Operation)
  | .createMemoShare parent expireTime => do
    let memoUID ← (extractMemoUIDFromName parent).mapError
      fun err => ⟨.InvalidArgument, "invalid memo name: " ++ err⟩
    return (memoUID, .create expireTime)
  | .listMemoShares parent => do
    let memoUID ← (extractMemoUIDFromName parent).mapError
      fun err => ⟨.InvalidArgument, "invalid memo name: " ++ err⟩
    return (memoUID, .list)
  | .deleteMemoShare name => do
    match ← (getNameParentTokens name ["memos/", "shares/"]).mapError
      fun err => (⟨.InvalidArgument, "invalid share name: " ++ err⟩ : Status) with
    | [memoUID, shareToken] => return (memoUID, .delete shareToken)
    | _ => throw ⟨.InvalidArgument, "invalid share name: " ++ name⟩
  | .getMemoByShare _ => throw ⟨.Internal, "failed to get memo"⟩

def expiresTs (now : Int) : Option Api.Timestamp → Except Status (Option Int)
  | none => .ok none
  | some expireTime =>
    let ts := Api.Timestamp.unix (some expireTime)
    if ts ≤ now then .error ⟨.InvalidArgument, "expire_time must be in the future"⟩
    else .ok (some ts)

def afterMemo (now : Int) (user : UserRecord) (operation : Operation) :
    Option Memo → Except Status Step
  | none => .error ⟨.NotFound, "memo not found"⟩
  | some memo =>
    if memo.creatorId ≠ user.id ∧ ¬isSuperUser user then
      .error ⟨.PermissionDenied, "permission denied"⟩
    else
      match operation with
      | .create expireTime => (expiresTs now expireTime).map (.createMemoShare user memo)
      | .list => .ok (.listMemoShares user memo)
      | .delete shareToken => .ok (.getMemoShare user memo shareToken)

def afterUser (db : Database) (call : Running) : Except Status Step := do
  match ← currentUser db call.userID "failed to get user" with
  | none => .error ⟨.Unauthenticated, "user not authenticated"⟩
  | some user =>
    let (memoUID, operation) ← parseRequest call.request
    return .getMemo user memoUID operation

def firstStep : Request → Step
  | .getMemoByShare shareId => .getActiveMemoShare shareId
  | _ => .fetchCurrentUser

section steps

variable (s : State) (n : Nat) (call : Running)

def State.put (next : Call) : State := { s with calls := update s.calls n next }

def State.continue (result : Except Status Step) : State :=
  match result with
  | .ok next => s.put n (.running call next)
  | .error err => s.put n (.returned call (.error err))

def State.answer (result : Except Status Answer) : State := s.put n (.returned call result)

def insertShare (user : UserRecord) (memo : Memo) (expiresTs : Option Int) (token : String) :
    State :=
  let ms : MemoShare := ⟨s.nextID, token, memo.id, user.id, s.now, expiresTs⟩
  { s with
    shares := s.shares ++ [ms]
    nextID := s.nextID + 1
    grants := s.grants ++ [⟨token, user, memo, expiresTs⟩]
    calls := update s.calls n
      (.returned call (.ok (.share (convertMemoShareFromStore ms memo.uid)))) }

def removeShare (user : UserRecord) (memo : Memo) (token : String) : State :=
  { s with
    shares := s.shares.filter (·.uid ≠ token)
    revoked := s.revoked ++ [⟨token, user, memo⟩]
    calls := update s.calls n (.returned call (.ok .empty)) }

def next (token : String) : Step → Option State
  | .fetchCurrentUser => some (s.continue n call (afterUser s.db call))
  | .getMemo user memoUID operation =>
    some (s.continue n call (afterMemo s.now user operation (s.db.getMemo { uid := some memoUID })))
  | .createMemoShare user memo expiresTs =>
    -- `uid` is unique.
    if s.shares.any (·.uid = token) then none
    else some (insertShare s n call user memo expiresTs token)
  | .listMemoShares _ memo =>
    some (s.answer n call (.ok (.shares
      ((s.shares.filter (·.memoId = memo.id)).map (convertMemoShareFromStore · memo.uid)))))
  | .getMemoShare user memo shareToken =>
    some (s.continue n call (match Server.getMemoShare s.shares shareToken with
      | none => .error ⟨.NotFound, "memo share not found"⟩
      | some ms =>
        if ms.memoId ≠ memo.id then .error ⟨.NotFound, "memo share not found"⟩
        else .ok (.deleteMemoShare user memo shareToken)))
  | .deleteMemoShare user memo shareToken => some (removeShare s n call user memo shareToken)
  | .getActiveMemoShare shareId =>
    some (s.continue n call
      ((Server.getActiveMemoShare s.shares s.now shareId).map .getSharedMemo))
  | .getSharedMemo ms =>
    some (s.continue n call (match s.db.getMemo { id := some ms.memoId } with
      | none => .error ⟨.NotFound, "not found"⟩
      | some memo =>
        if memo.rowStatus = .archived then .error ⟨.NotFound, "not found"⟩
        else .ok (.convert ms memo)))
  | .convert _ _ => none

/-- The rest of `GetMemoByShare` after the read of the memo. -/
def sharedMessage (generateSnippet : GenerateSnippet) (memo : Memo) (children : Children) :
    Except Status Api.Memo := do
  let relations ← children.relations.mapError
    fun _ => ⟨.Internal, "failed to load memo relations"⟩
  answerShared (convertMemoFromStore children.tables generateSnippet memo children.reactions
    children.attachments relations)

def Step.failure (last : Status) : Step → Status
  | fetchCurrentUser => ⟨.Internal, "failed to get user"⟩
  | getMemo _ _ _ => ⟨.Internal, "failed to get memo"⟩
  | createMemoShare _ _ _ => ⟨.Internal, "failed to create memo share"⟩
  | listMemoShares _ _ => ⟨.Internal, "failed to list memo shares"⟩
  | getMemoShare _ _ _ => ⟨.Internal, "failed to get memo share"⟩
  | deleteMemoShare _ _ _ => ⟨.Internal, "failed to delete memo share"⟩
  | getActiveMemoShare _ => ⟨.Internal, "failed to get memo share"⟩
  | getSharedMemo _ => ⟨.Internal, "failed to get memo"⟩
  | convert _ _ => last

end steps

def step (generateSnippet : GenerateSnippet) (s : State) : Label → Option State
  | .start n userID request =>
    match s.calls n with
    | .idle => some (s.put n (.running ⟨userID, request, s.revoked, s.now⟩ (firstStep request)))
    | _ => none
  | .step n token =>
    match s.calls n with
    | .running call step => next s n call token step
    | _ => none
  | .finish n children =>
    match s.calls n with
    | .running call (.convert _ memo) =>
      some (s.answer n call ((sharedMessage generateSnippet memo children).map .memo))
    | _ => none
  | .fails n last =>
    match s.calls n with
    | .running call step => some (s.answer n call (.error (step.failure last)))
    | _ => none
  | .tick seconds => some { s with now := s.now + seconds }
  | .write db keep => some { s with db, shares := s.shares.filter keep }

/-- The memos of the tables have the UID and the creator that belong to their ids. -/
def Names (identity : Nat → String × Nat) (db : Database) : Prop :=
  ∀ row ∈ db.memos, identity row.id = (row.uid, row.creatorId)

def fresh (identity : Nat → String × Nat) (s : State) : Prop :=
  Names identity s.db ∧ s.shares = [] ∧ s.grants = [] ∧ s.revoked = [] ∧ ∀ n, s.calls n = .idle

def system (generateSnippet : GenerateSnippet) (identity : Nat → String × Nat) :
    LabelledSystem State Label := ⟨fresh identity, step generateSnippet⟩

/-- A new token has never been issued; the UID and the creator of a memo do not change, and an id
is not used for another memo. -/
def Admissible (identity : Nat → String × Nat) (s : State) : Label → Prop
  | .step _ token => ∀ g ∈ s.grants, g.token ≠ token
  | .write db _ => Names identity db
  | _ => True

section invariant

def MayShare (user : UserRecord) (memo : Memo) : Prop :=
  memo.creatorId = user.id ∨ isSuperUser user = true

structure Owner (identity : Nat → String × Nat) (call : Running) (user : UserRecord)
    (memo : Memo) : Prop where
  caller : user.id = call.userID
  mayShare : MayShare user memo
  known : identity memo.id = (memo.uid, memo.creatorId)

/-- The share that the call has asked for is granted, and was neither revoked nor expired when the
call began. -/
structure Active (grants : List Grant) (call : Running) (token : String) (memoId : Nat) : Prop where
  request : call.request = .getMemoByShare token
  granted : ∃ g ∈ grants, g.token = token ∧ g.memo.id = memoId ∧
    ∀ ts ∈ g.expiresTs, call.startedAt ≤ ts
  notRevoked : ∀ r ∈ call.revoked, r.token ≠ token

def Step.Sound (identity : Nat → String × Nat) (grants : List Grant) (call : Running) :
    Step → Prop
  | fetchCurrentUser => True
  | getMemo user memoUID operation =>
    user.id = call.userID ∧ parseRequest call.request = .ok (memoUID, operation)
  | createMemoShare user memo _ => Owner identity call user memo ∧
    ∃ expireTime, parseRequest call.request = .ok (memo.uid, .create expireTime)
  | listMemoShares user memo => Owner identity call user memo ∧
    parseRequest call.request = .ok (memo.uid, .list)
  | getMemoShare user memo shareToken => Owner identity call user memo ∧
    parseRequest call.request = .ok (memo.uid, .delete shareToken)
  | deleteMemoShare user memo shareToken => Owner identity call user memo ∧
    parseRequest call.request = .ok (memo.uid, .delete shareToken) ∧
      ∃ g ∈ grants, g.token = shareToken ∧ g.memo.id = memo.id
  | getActiveMemoShare shareId => call.request = .getMemoByShare shareId
  | getSharedMemo ms => Active grants call ms.uid ms.memoId
  | convert ms memo => Active grants call ms.uid memo.id ∧ memo.rowStatus = .normal ∧
    identity memo.id = (memo.uid, memo.creatorId)

/-- What an answer tells its caller. A memo is told to who has a token that the creator of the memo
or an admin has granted, that had not expired and had not been revoked when the call began. The
tokens themselves are told to the creator and to admins only. -/
def Answered (grants : List Grant) (revoked : List Revocation) (call : Running) :
    Answer → Prop
  | .memo message => ∃ g ∈ grants, call.request = .getMemoByShare g.token ∧
    MayShare g.user g.memo ∧ (∀ ts ∈ g.expiresTs, call.startedAt ≤ ts) ∧
    (∀ r ∈ call.revoked, r.token ≠ g.token) ∧ message.name = memoName g.memo.uid ∧
    message.state = .normal
  | .share message => ∃ g ∈ grants, g.user.id = call.userID ∧ MayShare g.user g.memo ∧
    (∃ expireTime, call.request = .createMemoShare (memoName g.memo.uid) expireTime) ∧
    message.name = shareName g.memo.uid g.token
  | .shares messages => ∃ user memo, user.id = call.userID ∧ MayShare user memo ∧
    call.request = .listMemoShares (memoName memo.uid) ∧
    ∀ message ∈ messages, ∃ g ∈ grants, g.memo.uid = memo.uid ∧
      message.name = shareName memo.uid g.token
  | .empty => ∃ r ∈ revoked, r.user.id = call.userID ∧
    call.request = .deleteMemoShare (shareName r.memo.uid r.token)

def Call.Sound (identity : Nat → String × Nat) (s : State) : Call → Prop
  | idle => True
  | running call next => call.revoked ⊆ s.revoked ∧ call.startedAt ≤ s.now ∧
    next.Sound identity s.grants call
  | returned call result => ∀ answer, result = .ok answer → Answered s.grants s.revoked call answer

structure Revoked (identity : Nat → String × Nat) (grants : List Grant) (r : Revocation) :
    Prop where
  mayShare : MayShare r.user r.memo
  known : identity r.memo.id = (r.memo.uid, r.memo.creatorId)
  granted : ∃ g ∈ grants, g.token = r.token ∧ g.memo.id = r.memo.id

structure Inv (identity : Nat → String × Nat) (s : State) : Prop where
  names : Names identity s.db
  granted : ∀ g ∈ s.grants, MayShare g.user g.memo ∧
    identity g.memo.id = (g.memo.uid, g.memo.creatorId)
  shares : ∀ ms ∈ s.shares, ∃ g ∈ s.grants, g.token = ms.uid ∧ g.memo.id = ms.memoId ∧
    g.expiresTs = ms.expiresTs
  revoked : ∀ r ∈ s.revoked, Revoked identity s.grants r
  gone : ∀ r ∈ s.revoked, ∀ ms ∈ s.shares, ms.uid ≠ r.token
  calls : ∀ n, (s.calls n).Sound identity s

end invariant

section steps

variable {identity : Nat → String × Nat} {generateSnippet : GenerateSnippet} {s s' : State}
  {n : Nat} {call : Running} {grants grants' : List Grant}

theorem Names.known {db : Database} (h : Names identity db) {find : FindMemo} {memo : Memo}
    (hfind : find.excludeContent = false) (hmemo : db.getMemo find = some memo) :
    identity memo.id = (memo.uid, memo.creatorId) := by
  obtain ⟨row, hrow, -, parent, -, -, rfl⟩ :=
    Database.exists_of_mem_listMemos (List.mem_of_head? hmemo)
  rw [FindMemo.selected, hfind]
  exact h row hrow

theorem Active.mono {token : String} {memoId : Nat} (h : Active grants call token memoId)
    (hgrants : grants ⊆ grants') : Active grants' call token memoId where
  request := h.request
  granted := by
    obtain ⟨g, hg, hgranted⟩ := h.granted
    exact ⟨g, hgrants hg, hgranted⟩
  notRevoked := h.notRevoked

theorem Step.Sound.mono {next : Step} (h : next.Sound identity grants call)
    (hgrants : grants ⊆ grants') : next.Sound identity grants' call := by
  cases next with
  | deleteMemoShare user memo token =>
    obtain ⟨howner, hparse, g, hg, hgranted⟩ := h
    exact ⟨howner, hparse, g, hgrants hg, hgranted⟩
  | getSharedMemo ms => exact Active.mono h hgrants
  | convert ms memo => exact ⟨h.1.mono hgrants, h.2⟩
  | _ => exact h

theorem Answered.mono {revoked revoked' : List Revocation} {answer : Answer}
    (h : Answered grants revoked call answer) (hgrants : grants ⊆ grants')
    (hrevoked : revoked ⊆ revoked') : Answered grants' revoked' call answer := by
  cases answer with
  | memo message =>
    obtain ⟨g, hg, h⟩ := h
    exact ⟨g, hgrants hg, h⟩
  | share message =>
    obtain ⟨g, hg, h⟩ := h
    exact ⟨g, hgrants hg, h⟩
  | shares messages =>
    obtain ⟨user, memo, huser, hmay, hrequest, h⟩ := h
    refine ⟨user, memo, huser, hmay, hrequest, fun message hmessage => ?_⟩
    obtain ⟨g, hg, h⟩ := h message hmessage
    exact ⟨g, hgrants hg, h⟩
  | empty =>
    obtain ⟨r, hr, h⟩ := h
    exact ⟨r, hrevoked hr, h⟩

theorem Call.Sound.mono {c : Call} (h : c.Sound identity s) (hgrants : s.grants ⊆ s'.grants)
    (hrevoked : s.revoked ⊆ s'.revoked) (hnow : s.now ≤ s'.now) : c.Sound identity s' := by
  cases c with
  | idle => trivial
  | running call next =>
    obtain ⟨hbefore, hstarted, hnext⟩ := h
    exact ⟨fun r hr => hrevoked (hbefore hr), hstarted.trans hnow, hnext.mono hgrants⟩
  | returned call result =>
    intro answer hanswer
    exact (h answer hanswer).mono hgrants hrevoked

theorem Call.Sound.error {err : Status} : (Call.returned call (.error err)).Sound identity s := by
  intro answer hanswer
  cases hanswer

theorem currentUser_id {db : Database} {userID : Nat} {failure : String} {user : UserRecord}
    (h : currentUser db userID failure = .ok (some user)) : user.id = userID := by
  unfold currentUser fetchCurrentUser at h
  by_cases hzero : userID = 0
  · rw [if_pos hzero] at h
    cases h
  · rw [if_neg hzero] at h
    cases huser : db.getUser userID with
    | none =>
      rw [huser] at h
      cases h
    | some found =>
      have hid : found.id = userID := by simpa using List.find?_some huser
      rw [huser] at h
      dsimp only at h
      split at h
      · cases h
      · cases h
        exact hid

theorem afterUser_ok {db : Database} {next : Step} (h : afterUser db call = .ok next) :
    next.Sound identity grants call := by
  obtain ⟨found, hfound, h⟩ := Program.bind_ok h
  cases found with
  | none => cases h
  | some user =>
    obtain ⟨⟨memoUID, operation⟩, hparse, h⟩ := Program.bind_ok h
    obtain rfl := Except.ok.inj h
    exact ⟨currentUser_id hfound, hparse⟩

theorem getMemo_uid_eq {db : Database} {uid : String} {memo : Memo}
    (h : db.getMemo { uid := some uid } = some memo) : memo.uid = uid := by
  obtain ⟨row, -, rfl, parent, -, rfl⟩ := Database.getMemo_uid h
  rfl

theorem afterMemo_ok {db : Database} {user : UserRecord} {memoUID : String} {now : Int}
    {operation : Operation} {next : Step} (hnames : Names identity db)
    (huser : user.id = call.userID) (hparse : parseRequest call.request = .ok (memoUID, operation))
    (h : afterMemo now user operation (db.getMemo { uid := some memoUID }) = .ok next) :
    next.Sound identity grants call := by
  cases hmemo : db.getMemo { uid := some memoUID } with
  | none =>
    rw [hmemo] at h
    cases h
  | some memo =>
    have hknown := hnames.known rfl hmemo
    have huid := getMemo_uid_eq hmemo
    rw [hmemo] at h
    unfold afterMemo at h
    dsimp only at h
    split at h
    · cases h
    · rename_i hdenied
      have hmay : MayShare user memo := by
        rw [MayShare]
        tauto
      have howner : Owner identity call user memo := ⟨huser, hmay, hknown⟩
      cases operation with
      | create expireTime =>
        obtain ⟨ts, -, rfl⟩ := Program.map_ok h
        exact ⟨howner, expireTime, by rw [huid]; exact hparse⟩
      | list =>
        obtain rfl := Except.ok.inj h
        exact ⟨howner, by rw [huid]; exact hparse⟩
      | delete shareToken =>
        obtain rfl := Except.ok.inj h
        exact ⟨howner, by rw [huid]; exact hparse⟩

def Operation.request (memoUID : String) : Operation → Request
  | create expireTime => .createMemoShare (memoName memoUID) expireTime
  | list => .listMemoShares (memoName memoUID)
  | delete shareToken => .deleteMemoShare (shareName memoUID shareToken)

theorem eq_of_parseRequest {request : Request} {memoUID : String} {operation : Operation}
    (h : parseRequest request = .ok (memoUID, operation)) : request = operation.request memoUID := by
  cases request with
  | createMemoShare parent expireTime =>
    obtain ⟨uid, huid, h⟩ := Program.bind_ok h
    cases h
    rw [memoName_of_extract (Program.mapError_ok huid)]
    rfl
  | listMemoShares parent =>
    obtain ⟨uid, huid, h⟩ := Program.bind_ok h
    cases h
    rw [memoName_of_extract (Program.mapError_ok huid)]
    rfl
  | deleteMemoShare name =>
    obtain ⟨tokens, htokens, h⟩ := Program.bind_ok h
    split at h <;> cases h
    rename_i token
    have hprefixes : ∀ p ∈ ["memos/", "shares/"], IsTokenPrefix p := by
      simp [isTokenPrefix_memos, isTokenPrefix_shares]
    obtain ⟨-, -, rfl⟩ := (getNameParentTokens_ok_iff (List.cons_ne_nil _ _) hprefixes).mp
      (Program.mapError_ok htokens)
    have hname : resourceName ["memos/", "shares/"] [memoUID, token] = shareName memoUID token := by
      apply String.toList_inj.mp
      simp [resourceName, shareName, memoName, String.toList_append]
    rw [hname]
    rfl
  | getMemoByShare shareId => cases h

theorem Inv.uid_eq (h : Inv identity s) {g : Grant} {memo : Memo} (hg : g ∈ s.grants)
    (hknown : identity memo.id = (memo.uid, memo.creatorId)) (hid : g.memo.id = memo.id) :
    g.memo.uid = memo.uid := by
  have hgrant := (h.granted g hg).2
  rw [hid, hknown] at hgrant
  exact (Prod.mk.inj hgrant).1.symm

theorem Inv.put (h : Inv identity s) {c : Call} (hc : c.Sound identity s) :
    Inv identity (s.put n c) where
  names := h.names
  granted := h.granted
  shares := h.shares
  revoked := h.revoked
  gone := h.gone
  calls m := by
    have hall : ∀ m, (update s.calls n c m).Sound identity s := forall_update hc h.calls
    exact (hall m).mono (List.Subset.refl _) (List.Subset.refl _) (le_refl _)

theorem Inv.continue (h : Inv identity s) {next : Step} {result : Except Status Step}
    (hcall : s.calls n = .running call next)
    (hresult : ∀ next, result = .ok next → next.Sound identity s.grants call) :
    Inv identity (s.continue n call result) := by
  have hsound := h.calls n
  rw [hcall] at hsound
  cases result with
  | ok next => exact h.put ⟨hsound.1, hsound.2.1, hresult next rfl⟩
  | error err => exact h.put Call.Sound.error

theorem Inv.answer (h : Inv identity s) {result : Except Status Answer}
    (hresult : ∀ answer, result = .ok answer → Answered s.grants s.revoked call answer) :
    Inv identity (s.answer n call result) := h.put hresult

theorem Inv.insertShare (h : Inv identity s) {user : UserRecord} {memo : Memo}
    {expiresTs : Option Int} {token : String} (howner : Owner identity call user memo)
    (hrequest : ∃ expireTime, call.request = .createMemoShare (memoName memo.uid) expireTime)
    (hnew : ∀ g ∈ s.grants, g.token ≠ token) :
    Inv identity (insertShare s n call user memo expiresTs token) where
  names := h.names
  granted g hg := by
    rcases List.mem_append.mp hg with hg | hg
    · exact h.granted g hg
    · obtain rfl := List.mem_singleton.mp hg
      exact ⟨howner.mayShare, howner.known⟩
  shares ms hms := by
    rcases List.mem_append.mp hms with hms | hms
    · obtain ⟨g, hg, hgranted⟩ := h.shares ms hms
      exact ⟨g, List.mem_append_left _ hg, hgranted⟩
    · obtain rfl := List.mem_singleton.mp hms
      exact ⟨_, List.mem_append_right _ (List.mem_singleton_self _), rfl, rfl, rfl⟩
  revoked r hr := by
    obtain ⟨hmay, hknown, g, hg, hgranted⟩ := h.revoked r hr
    exact ⟨hmay, hknown, g, List.mem_append_left _ hg, hgranted⟩
  gone r hr ms hms := by
    rcases List.mem_append.mp hms with hms | hms
    · exact h.gone r hr ms hms
    · obtain ⟨-, -, g, hg, htoken, -⟩ := h.revoked r hr
      obtain rfl := List.mem_singleton.mp hms
      rw [← htoken]
      exact (hnew g hg).symm
  calls m := by
    have hothers : ∀ m, (s.calls m).Sound identity
        (MemoShares.insertShare s n call user memo expiresTs token) := fun m =>
      (h.calls m).mono (List.subset_append_left _ _) (List.Subset.refl _) (le_refl _)
    refine forall_update (fun answer hanswer => ?_) hothers m
    obtain rfl := Except.ok.inj hanswer
    exact ⟨_, List.mem_append_right _ (List.mem_singleton_self _), howner.caller,
      howner.mayShare, hrequest, rfl⟩

theorem Inv.removeShare (h : Inv identity s) {user : UserRecord} {memo : Memo} {token : String}
    (howner : Owner identity call user memo)
    (hrequest : call.request = .deleteMemoShare (shareName memo.uid token))
    (hgranted : ∃ g ∈ s.grants, g.token = token ∧ g.memo.id = memo.id) :
    Inv identity (removeShare s n call user memo token) where
  names := h.names
  granted := h.granted
  shares ms hms := h.shares ms (List.mem_of_mem_filter hms)
  revoked r hr := by
    rcases List.mem_append.mp hr with hr | hr
    · exact h.revoked r hr
    · obtain rfl := List.mem_singleton.mp hr
      exact ⟨howner.mayShare, howner.known, hgranted⟩
  gone r hr ms hms := by
    obtain ⟨hms, hother⟩ := List.mem_filter.mp hms
    rcases List.mem_append.mp hr with hr | hr
    · exact h.gone r hr ms hms
    · obtain rfl := List.mem_singleton.mp hr
      simpa using hother
  calls m := by
    have hothers : ∀ m, (s.calls m).Sound identity
        (MemoShares.removeShare s n call user memo token) := fun m =>
      (h.calls m).mono (List.Subset.refl _) (List.subset_append_left _ _) (le_refl _)
    refine forall_update (fun answer hanswer => ?_) hothers m
    obtain rfl := Except.ok.inj hanswer
    exact ⟨_, List.mem_append_right _ (List.mem_singleton_self _), howner.caller, hrequest⟩

theorem getMemoShare_mem {shares : List MemoShare} {token : String} {ms : MemoShare}
    (h : Server.getMemoShare shares token = some ms) : ms ∈ shares ∧ ms.uid = token :=
  ⟨List.mem_of_find?_eq_some h, by simpa using List.find?_some h⟩

theorem Inv.active (h : Inv identity s) {shareId : String} {ms : MemoShare}
    (hrevoked : call.revoked ⊆ s.revoked) (hstarted : call.startedAt ≤ s.now)
    (hrequest : call.request = .getMemoByShare shareId)
    (hactive : Server.getActiveMemoShare s.shares s.now shareId = .ok ms) :
    Active s.grants call ms.uid ms.memoId := by
  unfold Server.getActiveMemoShare at hactive
  cases hread : Server.getMemoShare s.shares shareId with
  | none =>
    rw [hread] at hactive
    cases hactive
  | some found =>
    rw [hread] at hactive
    dsimp only at hactive
    split at hactive
    · cases hactive
    · rename_i hexpired
      cases hactive
      obtain ⟨hmem, huid⟩ := getMemoShare_mem hread
      obtain ⟨g, hg, htoken, hmemo, hexpires⟩ := h.shares ms hmem
      refine ⟨by rw [huid]; exact hrequest, ⟨g, hg, htoken, hmemo, ?_⟩, fun r hr heq => ?_⟩
      · intro ts hts
        rw [hexpires] at hts
        have hlate : ¬ts < s.now := by
          intro hlt
          apply hexpired
          rw [isMemoShareExpired, Option.mem_def.mp hts]
          simpa using hlt
        omega
      · exact h.gone r (hrevoked hr) ms hmem heq.symm

theorem Inv.next (h : Inv identity s) {token : String} {step : Step}
    (hcall : s.calls n = .running call step) (hnew : ∀ g ∈ s.grants, g.token ≠ token)
    (hs : next s n call token step = some s') : Inv identity s' := by
  have hsound := h.calls n
  rw [hcall] at hsound
  obtain ⟨hrevoked, hstarted, hsound⟩ := hsound
  cases step with
  | fetchCurrentUser =>
    cases hs
    exact h.continue hcall fun next hnext => afterUser_ok hnext
  | getMemo user memoUID operation =>
    cases hs
    exact h.continue hcall fun next hnext => afterMemo_ok h.names hsound.1 hsound.2 hnext
  | createMemoShare user memo expiresTs =>
    obtain ⟨howner, expireTime, hparse⟩ := hsound
    simp only [MemoShares.next] at hs
    split at hs
    · cases hs
    · cases hs
      exact h.insertShare howner ⟨expireTime, eq_of_parseRequest hparse⟩ hnew
  | listMemoShares user memo =>
    obtain ⟨howner, hparse⟩ := hsound
    cases hs
    refine h.answer fun answer hanswer => ?_
    obtain rfl := Except.ok.inj hanswer
    refine ⟨user, memo, howner.caller, howner.mayShare, eq_of_parseRequest hparse, ?_⟩
    intro message hmessage
    obtain ⟨ms, hms, rfl⟩ := List.mem_map.mp hmessage
    obtain ⟨hms, hmemo⟩ := List.mem_filter.mp hms
    obtain ⟨g, hg, htoken, hid, -⟩ := h.shares ms hms
    have hsame : g.memo.id = memo.id := hid.trans (of_decide_eq_true hmemo)
    exact ⟨g, hg, h.uid_eq hg howner.known hsame, by rw [htoken]; rfl⟩
  | getMemoShare user memo shareToken =>
    obtain ⟨howner, hparse⟩ := hsound
    cases hs
    refine h.continue hcall fun next hnext => ?_
    cases hread : Server.getMemoShare s.shares shareToken with
    | none =>
      rw [hread] at hnext
      cases hnext
    | some ms =>
      rw [hread] at hnext
      dsimp only at hnext
      split at hnext
      · cases hnext
      · rename_i hmemo
        cases hnext
        obtain ⟨hmem, huid⟩ := getMemoShare_mem hread
        obtain ⟨g, hg, htoken, hid, -⟩ := h.shares ms hmem
        exact ⟨howner, hparse, g, hg, htoken.trans huid, hid.trans (not_not.mp hmemo)⟩
  | deleteMemoShare user memo shareToken =>
    obtain ⟨howner, hparse, hgranted⟩ := hsound
    cases hs
    exact h.removeShare howner (eq_of_parseRequest hparse) hgranted
  | getActiveMemoShare shareId =>
    cases hs
    refine h.continue hcall fun next hnext => ?_
    obtain ⟨ms, hactive, rfl⟩ := Program.map_ok hnext
    exact h.active hrevoked hstarted hsound hactive
  | getSharedMemo ms =>
    cases hs
    refine h.continue hcall fun next hnext => ?_
    cases hmemo : s.db.getMemo { id := some ms.memoId } with
    | none =>
      rw [hmemo] at hnext
      cases hnext
    | some memo =>
      rw [hmemo] at hnext
      dsimp only at hnext
      split at hnext
      · cases hnext
      · rename_i hnormal
        cases hnext
        have hid : memo.id = ms.memoId := by
          obtain ⟨row, -, hrow, parent, -, rfl⟩ := getMemo_id hmemo
          exact hrow
        refine ⟨by rw [hid]; exact hsound, ?_, h.names.known rfl hmemo⟩
        cases hstatus : memo.rowStatus with
        | normal => rfl
        | archived => exact absurd hstatus hnormal
  | convert ms memo => cases hs

theorem sharedMessage_ok {memo : Memo} {children : Children} {message : Api.Memo}
    (h : sharedMessage generateSnippet memo children = .ok message) :
    message.name = memoName memo.uid ∧ message.state = convertStateFromStore memo.rowStatus := by
  obtain ⟨relations, -, h⟩ := Program.bind_ok h
  unfold answerShared at h
  split at h
  · rename_i message' hmessage
    obtain rfl := Except.ok.inj h
    unfold convertMemoFromStore convertMemoFromStoreWithCreators at hmessage
    split at hmessage
    · cases hmessage
    · split at hmessage
      · cases hmessage
      · cases hmessage
        exact ⟨rfl, rfl⟩
  · cases h
  · cases h

theorem Inv.step {l : Label} (h : Inv identity s) (hl : Admissible identity s l)
    (hs : step generateSnippet s l = some s') : Inv identity s' := by
  cases l with
  | start n userID request =>
    simp only [MemoShares.step] at hs
    split at hs <;> cases hs
    refine h.put ⟨List.Subset.refl _, le_refl _, ?_⟩
    cases request <;> trivial
  | step n token =>
    simp only [MemoShares.step] at hs
    split at hs
    · rename_i hcall
      exact h.next hcall hl hs
    · cases hs
  | finish n children =>
    simp only [MemoShares.step] at hs
    split at hs <;> cases hs
    rename_i call ms memo hcall
    have hsound := h.calls n
    rw [hcall] at hsound
    obtain ⟨-, -, hactive, hnormal, hknown⟩ := hsound
    refine h.answer fun answer hanswer => ?_
    obtain ⟨message, hmessage, rfl⟩ := Program.map_ok hanswer
    obtain ⟨hname, hstate⟩ := sharedMessage_ok hmessage
    obtain ⟨g, hg, htoken, hid, hexpires⟩ := hactive.granted
    refine ⟨g, hg, by rw [htoken]; exact hactive.request, (h.granted g hg).1, hexpires,
      fun r hr => by rw [htoken]; exact hactive.notRevoked r hr, ?_, ?_⟩
    · rw [hname, h.uid_eq hg hknown hid]
    · rw [hstate, hnormal]
      rfl
  | fails n last =>
    simp only [MemoShares.step] at hs
    split at hs <;> cases hs
    exact h.put Call.Sound.error
  | tick seconds =>
    cases hs
    exact ⟨h.names, h.granted, h.shares, h.revoked, h.gone, fun n =>
      (h.calls n).mono (List.Subset.refl _) (List.Subset.refl _) (by dsimp only; omega)⟩
  | write db keep =>
    cases hs
    exact ⟨hl, h.granted, fun ms hms => h.shares ms (List.mem_of_mem_filter hms), h.revoked,
      fun r hr ms hms => h.gone r hr ms (List.mem_of_mem_filter hms), fun n =>
      (h.calls n).mono (List.Subset.refl _) (List.Subset.refl _) (le_refl _)⟩

end steps

/-- Whatever the calls, the writes and their interleaving, shares are granted and revoked only by
the creator of their memo and by admins, and what a call answers is what its caller may know. -/
theorem memoShares_sound {generateSnippet : GenerateSnippet} {identity : Nat → String × Nat}
    {s : State} (h : (system generateSnippet identity).Reaches (Admissible identity) s) :
    (∀ g ∈ s.grants, MayShare g.user g.memo) ∧
      (∀ r ∈ s.revoked, MayShare r.user r.memo ∧
        ∃ g ∈ s.grants, g.token = r.token ∧ g.memo.uid = r.memo.uid) ∧
      ∀ n call answer, s.calls n = .returned call (.ok answer) →
        Answered s.grants s.revoked call answer := by
  have hinv : Inv identity s := by
    refine h.invariant ?_ fun _ _ _ hi hl hs => hi.step hl hs
    rintro s ⟨hnames, hshares, hgrants, hrevoked, hcalls⟩
    refine ⟨hnames, ?_, ?_, ?_, ?_, fun n => ?_⟩
    · simp [hgrants]
    · simp [hshares]
    · simp [hrevoked]
    · simp [hrevoked]
    · rw [hcalls n]
      trivial
  refine ⟨fun g hg => (hinv.granted g hg).1, fun r hr => ?_, fun n call answer hcall => ?_⟩
  · obtain ⟨hmay, hknown, g, hg, htoken, hid⟩ := hinv.revoked r hr
    exact ⟨hmay, g, hg, htoken, hinv.uid_eq hg hknown hid⟩
  · have hsound := hinv.calls n
    rw [hcall] at hsound
    exact hsound answer rfl

def unshared : State := ⟨album 0, [], 1, 0, fun _ => .idle, [], []⟩

def albumIdentity : Nat → String × Nat := fun _ => ("album", 1)

theorem album_getMemo_eq (find : FindMemo) (hmatches : find.matchesRow albumMemo = true)
    (hfind : find.limit = none ∧ find.excludeContent = false) :
    (album 0).getMemo find = some (albumMemo.withParent none) := by
  rw [Database.getMemo, album_memos 0 find hmatches, hfind.1]
  simp [page, FindMemo.selected, hfind.2]

/-- The creator shares the memo, and an anonymous call reads it with the token. -/
theorem memoShares_sound_album : ∃ s call message,
    (system (fun content => .ok content) albumIdentity).Reaches (Admissible albumIdentity) s ∧
      s.calls 1 = .returned call (.ok (.memo message)) ∧
      Answered s.grants s.revoked call (.memo message) := by
  have hread : (album 0).getMemo { uid := some "album" } = some (albumMemo.withParent none) :=
    album_getMemo_eq _ (by decide) ⟨rfl, rfl⟩
  have hshared : (album 0).getMemo { id := some 1 } = some (albumMemo.withParent none) :=
    album_getMemo_eq _ (by decide) ⟨rfl, rfl⟩
  have hstart : (system (fun content => .ok content) albumIdentity).Reaches
      (Admissible albumIdentity) unshared := by
    refine .init ⟨fun row hrow => ?_, rfl, rfl, rfl, fun _ => rfl⟩
    obtain rfl := List.mem_singleton.mp hrow
    rfl
  have hnone : ∀ token, ∀ g ∈ ([] : List Grant), g.token ≠ token := by simp
  have hnew : ∀ g ∈ [(⟨"token", ⟨1, .normal, "ada", .USER⟩, albumMemo.withParent none, none⟩ : Grant)],
      g.token ≠ "" := by simp
  have hcreate := hstart.step (a := Label.start 0 1 (.createMemoShare "memos/album" none)) trivial rfl
  have huser := hcreate.step (a := Label.step 0 "") (hnone "") rfl
  have hmemo := huser.step (a := Label.step 0 "") (hnone "") (by
    change some (State.continue _ _ _
      (afterMemo _ _ _ ((album 0).getMemo { uid := some "album" }))) = _
    rw [hread])
  have hgrant := hmemo.step (a := Label.step 0 "token") (hnone "token") rfl
  have hget := hgrant.step (a := Label.start 1 0 (.getMemoByShare "token")) trivial rfl
  have hactive := hget.step (a := Label.step 1 "") hnew rfl
  have hnormal := hactive.step (a := Label.step 1 "") hnew (by
    change some (State.continue _ _ _ (match (album 0).getMemo { id := some 1 } with
      | none => _
      | some memo => _)) = _
    rw [hshared])
  have hanswer := hnormal.step (a := Label.finish 1 ⟨[], [], .ok [], album 0⟩) trivial rfl
  exact ⟨_, _, _, hanswer, rfl, (memoShares_sound hanswer).2.2 1 _ _ rfl⟩

end Memoark.Server.MemoShares
