import Mathlib.Data.List.Forall2
import Mathlib.Tactic.SplitIfs
import Memoark.Import.Service
import Memoark.System.Runs

/-! Calls of `ImportMemosAtomically` (`store/memo_import.go`, `store/db/*/memo_import.go`) side by
side, one statement at a time: the transaction, the lock that the update of the user's row takes,
and what a failure leaves. -/
namespace Memoark.Import.Transactions
open Memoark.System Memoark.Store

/-- The arguments of a call; `failAfter` is the failpoint of the tests, 0 without one. -/
structure Request where
  creatorId : Nat
  memos : List Memo
  failAfter : Nat

/-- The statement that a call executes next, with the rows that its transaction has inserted. -/
inductive Call where
  | idle
  | begin
  | lock
  | check
  | insert (rows : List Memo)
  | commit (rows : List Memo)
  | returned (result : Except ImportError Unit)

inductive Label where
  | start (call : Nat)
  | statement (call : Nat)
  /-- The statement fails, and the deferred rollback ends the transaction. -/
  | fails (call : Nat) (message : String)
  /-- The commit takes place, and its answer is lost. -/
  | commitUnanswered (call : Nat) (message : String)

def Label.call : Label → Nat
  | start n => n
  | statement n => n
  | fails n _ => n
  | commitUnanswered n _ => n

structure State where
  /-- The rows that are committed. -/
  memos : List Memo
  nextMemoId : Nat
  /-- The call whose transaction holds the row of a user. -/
  locks : Nat → Option Nat
  calls : Nat → Call

def State.account (s : State) (creatorId : Nat) : List Memo :=
  s.memos.filter fun memo => memo.creatorId = creatorId

def Call.locked : Call → Bool
  | check => true
  | insert _ => true
  | commit _ => true
  | _ => false

section calls

variable (db : Database) (requests : Nat → Request)

def State.move (s : State) (n : Nat) (call : Call) : State :=
  { s with calls := update s.calls n call }

def State.finish (s : State) (n : Nat) (result : Except ImportError Unit) : State :=
  { s with
    locks :=
      if (s.calls n).locked then update s.locks (requests n).creatorId none else s.locks
    calls := update s.calls n (.returned result) }

def validate (request : Request) : Except ImportError Unit :=
  if request.creatorId = 0 then .error (.other "invalid memo import creator")
  else checkAllImported request.creatorId 1 request.memos

/-- `UPDATE user SET username = username`: another transaction's lock has to be waited for. -/
def lockTarget (s : State) (n : Nat) : Option State :=
  let creatorId := (requests n).creatorId
  if creatorId ∉ db.userIds then
    some (s.finish requests n
      (.error (.other s!"failed to lock memo import target: user {creatorId} does not exist")))
  else if s.locks creatorId = none then
    some { s.move n .check with locks := update s.locks creatorId (some n) }
  else none

def insertNext (s : State) (n : Nat) (rows : List Memo) : State :=
  let request := requests n
  match request.memos[rows.length]? with
  | none => s.move n (.commit rows)
  | some memo =>
    if (s.memos ++ rows).any fun m => m.uid = memo.uid then
      s.finish requests n (.error (.other s!"failed to insert imported memo {rows.length + 1}"))
    else
      let s := { s with nextMemoId := s.nextMemoId + 1 }
      if 0 < request.failAfter ∧ request.failAfter ≤ rows.length + 1 then
        s.finish requests n (.error .failpoint)
      else s.move n (.insert (rows ++ [{ memo with id := s.nextMemoId - 1 }]))

/-- The commit. Of two transactions that insert one `uid` the database lets only one commit. -/
def commitRows (s : State) (n : Nat) (rows : List Memo) (result : Except ImportError Unit) :
    Option State :=
  if rows.any fun row => s.memos.any fun m => m.uid = row.uid then none
  else some { s.finish requests n result with memos := s.memos ++ rows }

def step (s : State) : Label → Option State
  | .start n =>
    match s.calls n with
    | .idle =>
      match validate (requests n) with
      | .error e => some (s.finish requests n (.error e))
      | .ok _ => some (s.move n .begin)
    | _ => none
  | .statement n =>
    match s.calls n with
    | .begin => some (s.move n .lock)
    | .lock => lockTarget db requests s n
    | .check =>
      if (s.account (requests n).creatorId).isEmpty then some (s.move n (.insert []))
      else some (s.finish requests n (.error .targetNotEmpty))
    | .insert rows => some (insertNext requests s n rows)
    | .commit rows => commitRows requests s n rows (.ok ())
    | _ => none
  | .fails n message =>
    match s.calls n with
    | .idle => none
    | .returned _ => none
    | _ => some (s.finish requests n (.error (.other message)))
  | .commitUnanswered n message =>
    match s.calls n with
    | .commit rows => commitRows requests s n rows (.error (.other message))
    | _ => none

def start : State := ⟨db.memos, db.nextMemoId, fun _ => none, fun _ => .idle⟩

def system : LabelledSystem State Label := ⟨(· = start db), step db requests⟩

end calls

def Imported (memos rows : List Memo) : Prop :=
  List.Forall₂ (fun memo row => row = { memo with id := row.id }) memos rows

/-- An account when an import into it returns: it has all of the memos, and was empty, or it is as
it was before; a success is the former. -/
structure AllOrNothing (memos before after : List Memo) (result : Except ImportError Unit) :
    Prop where
  outcome : after = before ∨ before = [] ∧ Imported memos after
  success : result = .ok () → before = [] ∧ Imported memos after

section properties

variable (db : Database) (requests : Nat → Request)

structure Atomic (s s' : State) (n : Nat) : Prop where
  others : ∀ a, a ≠ (requests n).creatorId → s'.account a = s.account a
  unfinished : (∀ result, s'.calls n ≠ .returned result) →
    s'.account (requests n).creatorId = s.account (requests n).creatorId
  finished : ∀ result, s'.calls n = .returned result →
    AllOrNothing (requests n).memos (s.account (requests n).creatorId)
      (s'.account (requests n).creatorId) result

/-- An account has what it had at first, or all memos of one import that found it empty; and of the
imports that bring memos one at most succeeds. -/
structure Exclusive (s : State) : Prop where
  account : ∀ a, s.account a = (start db).account a ∨ (start db).account a = [] ∧
    ∃ n, (requests n).creatorId = a ∧ Imported (requests n).memos (s.account a)
  success : ∀ n, s.calls n = .returned (.ok ()) → (requests n).memos ≠ [] →
    s.account (requests n).creatorId ≠ []
  unique : ∀ n m, s.calls n = .returned (.ok ()) → s.calls m = .returned (.ok ()) →
    (requests n).creatorId = (requests m).creatorId → (requests n).memos ≠ [] →
      (requests m).memos ≠ [] → n = m

end properties

section invariant

variable (requests : Nat → Request)

def Call.Sound (s : State) (n : Nat) : Call → Prop
  | begin => validate (requests n) = .ok ()
  | lock => validate (requests n) = .ok ()
  | check =>
    validate (requests n) = .ok () ∧ s.locks (requests n).creatorId = some n
  | insert rows =>
    validate (requests n) = .ok () ∧ s.locks (requests n).creatorId = some n ∧
      s.account (requests n).creatorId = [] ∧
        Imported ((requests n).memos.take rows.length) rows
  | commit rows =>
    validate (requests n) = .ok () ∧ s.locks (requests n).creatorId = some n ∧
      s.account (requests n).creatorId = [] ∧ Imported (requests n).memos rows
  | _ => True

structure Inv (db : Database) (s : State) : Prop where
  exclusive : Exclusive db requests s
  sound : ∀ n, (s.calls n).Sound requests s n

end invariant

section requests

variable {db : Database} {requests : Nat → Request} {s s' : State} {n : Nat}

theorem creatorId_of_checkAllImported {creatorId i : Nat} {memos : List Memo}
    (h : checkAllImported creatorId i memos = .ok ()) :
    ∀ memo ∈ memos, memo.creatorId = creatorId := by
  induction memos generalizing i with
  | nil => exact List.forall_mem_nil _
  | cons memo memos ih =>
    rw [checkAllImported] at h
    split at h
    · cases h
    · rename_i hmemo
      rw [checkImported] at hmemo
      split_ifs at hmemo with hcreator
      simp only [List.mem_cons, forall_eq_or_imp]
      exact ⟨not_not.mp hcreator, ih h⟩

theorem creatorId_of_validate {request : Request} (h : validate request = .ok ()) :
    ∀ memo ∈ request.memos, memo.creatorId = request.creatorId := by
  rw [validate] at h
  split_ifs at h
  exact creatorId_of_checkAllImported h

theorem Imported.creatorId {memos rows : List Memo} {creatorId : Nat} (h : Imported memos rows)
    (hm : ∀ memo ∈ memos, memo.creatorId = creatorId) :
    ∀ row ∈ rows, row.creatorId = creatorId := by
  induction h with
  | nil => exact List.forall_mem_nil _
  | cons hrow _ ih =>
    simp only [List.mem_cons, forall_eq_or_imp] at hm ⊢
    refine ⟨?_, ih hm.2⟩
    rw [hrow]
    exact hm.1

theorem Imported.snoc {memos rows : List Memo} {memo : Memo} (id : Nat)
    (h : Imported (memos.take rows.length) rows) (hmemo : memos[rows.length]? = some memo) :
    Imported (memos.take (rows ++ [{ memo with id := id }]).length)
      (rows ++ [{ memo with id := id }]) := by
  obtain ⟨hlt, rfl⟩ := List.getElem?_eq_some_iff.mp hmemo
  rw [List.length_append, List.length_singleton, List.take_succ_eq_append_getElem hlt]
  exact List.rel_append h (.cons rfl .nil)

theorem Imported.of_length_le {memos rows : List Memo} (h : Imported (memos.take rows.length) rows)
    (hnone : memos[rows.length]? = none) : Imported memos rows := by
  rwa [List.take_of_length_le (List.getElem?_eq_none_iff.mp hnone)] at h

theorem Imported.eq_nil_iff {memos rows : List Memo} (h : Imported memos rows) :
    rows = [] ↔ memos = [] := by
  rw [← List.length_eq_zero_iff, ← List.length_eq_zero_iff, List.Forall₂.length_eq h]

end requests

section steps

variable {db : Database} {requests : Nat → Request} {s s' : State} {n : Nat}

theorem Call.Sound.lock {call : Call} (h : call.Sound requests s n) (hlocked : call.locked = true) :
    s.locks (requests n).creatorId = some n := by
  cases call with
  | check => exact h.2
  | insert rows => exact h.2.1
  | commit rows => exact h.2.1
  | _ => cases hlocked

theorem Call.Sound.transfer {call : Call} (h : call.Sound requests s n)
    (hlocked : call.locked = true →
      s'.locks (requests n).creatorId = s.locks (requests n).creatorId ∧
        s'.account (requests n).creatorId = s.account (requests n).creatorId) :
    call.Sound requests s' n := by
  cases call with
  | check =>
    obtain ⟨hlock, -⟩ := hlocked rfl
    exact ⟨h.1, hlock.trans h.2⟩
  | insert rows =>
    obtain ⟨hlock, haccount⟩ := hlocked rfl
    obtain ⟨hvalid, hheld, hempty, hrows⟩ := h
    exact ⟨hvalid, hlock.trans hheld, haccount.trans hempty, hrows⟩
  | commit rows =>
    obtain ⟨hlock, haccount⟩ := hlocked rfl
    obtain ⟨hvalid, hheld, hempty, hrows⟩ := h
    exact ⟨hvalid, hlock.trans hheld, haccount.trans hempty, hrows⟩
  | _ => exact h

theorem Inv.locked_inj (h : Inv requests db s) {m : Nat} (hn : (s.calls n).locked = true)
    (hm : (s.calls m).locked = true) (heq : (requests n).creatorId = (requests m).creatorId) :
    n = m := by
  have hlock := (h.sound n).lock hn
  rw [heq, (h.sound m).lock hm] at hlock
  exact (Option.some.inj hlock).symm

theorem Inv.of_step (h : Inv requests db s) (hex : Exclusive db requests s')
    (hcalls : ∀ m, m ≠ n → s'.calls m = s.calls m) (hn : (s'.calls n).Sound requests s' n)
    (hothers : ∀ m, m ≠ n → (s.calls m).locked = true →
      s'.locks (requests m).creatorId = s.locks (requests m).creatorId ∧
        s'.account (requests m).creatorId = s.account (requests m).creatorId) :
    Inv requests db s' where
  exclusive := hex
  sound m := by
    by_cases hm : m = n
    · subst hm
      exact hn
    · rw [hcalls m hm]
      exact (h.sound m).transfer (hothers m hm)

theorem Exclusive.of_memos (h : Exclusive db requests s) (hmemos : s'.memos = s.memos)
    (hcalls : ∀ m, s'.calls m = .returned (.ok ()) → s.calls m = .returned (.ok ())) :
    Exclusive db requests s' := by
  have haccount : ∀ a, s'.account a = s.account a := by
    intro a
    rw [State.account, State.account, hmemos]
  refine ⟨fun a => ?_, fun m hm hne => ?_, fun m k hm hk => ?_⟩
  · rw [haccount a]
    exact h.account a
  · rw [haccount]
    exact h.success m (hcalls m hm) hne
  · exact h.unique m k (hcalls m hm) (hcalls k hk)

theorem calls_move {call : Call} (hcall : call ≠ .returned (.ok ())) {m : Nat}
    (hm : (s.move n call).calls m = .returned (.ok ())) : s.calls m = .returned (.ok ()) := by
  by_cases h : m = n
  · subst h
    exact absurd ((update_self ..).symm.trans hm) hcall
  · exact (update_of_ne h).symm.trans hm

theorem Inv.move (h : Inv requests db s) {call : Call} (hcall : call ≠ .returned (.ok ()))
    (hn : call.Sound requests s n) : Inv requests db (s.move n call) := by
  refine h.of_step (n := n) (h.exclusive.of_memos rfl fun m => calls_move hcall)
    (fun m hm => update_of_ne hm) ?_ fun m _ _ => ⟨rfl, rfl⟩
  have hself : (s.move n call).calls n = call := update_self ..
  rw [hself]
  exact hn.transfer fun _ => ⟨rfl, rfl⟩

theorem Inv.locks_finish (h : Inv requests db s) (result : Except ImportError Unit) {m : Nat}
    (hm : m ≠ n) (hlocked : (s.calls m).locked = true) :
    (s.finish requests n result).locks (requests m).creatorId =
      s.locks (requests m).creatorId := by
  rw [State.finish]
  dsimp only
  split_ifs with hn
  · refine update_of_ne fun heq => hm ?_
    exact h.locked_inj hlocked hn heq
  · rfl

theorem calls_finish_error {e : ImportError} {m : Nat}
    (hm : (s.finish requests n (.error e)).calls m = .returned (.ok ())) :
    s.calls m = .returned (.ok ()) := by
  have hcall : Call.returned (.error e) ≠ .returned (.ok ()) := by simp
  exact calls_move hcall hm

theorem Inv.fail (h : Inv requests db s) (e : ImportError) :
    Inv requests db (s.finish requests n (.error e)) := by
  refine h.of_step (n := n) (h.exclusive.of_memos rfl fun m => calls_finish_error)
    (fun m hm => update_of_ne hm) ?_ fun m hm hlocked => ⟨h.locks_finish _ hm hlocked, rfl⟩
  have hself : (s.finish requests n (.error e)).calls n = .returned (.error e) := update_self ..
  rw [hself]
  trivial

theorem Inv.nextMemoId (h : Inv requests db s) (id : Nat) :
    Inv requests db { s with nextMemoId := id } where
  exclusive := h.exclusive.of_memos rfl fun _ hm => hm
  sound m := (h.sound m).transfer fun _ => ⟨rfl, rfl⟩

theorem account_commit {rows : List Memo} {result : Except ImportError Unit}
    (h : (Call.commit rows).Sound requests s n)
    (hs : commitRows requests s n rows result = some s') :
    s'.account (requests n).creatorId = rows ∧
      ∀ a, a ≠ (requests n).creatorId → s'.account a = s.account a := by
  obtain ⟨hvalid, -, hempty, hrows⟩ := h
  have hcreator := hrows.creatorId (creatorId_of_validate hvalid)
  rw [commitRows] at hs
  split_ifs at hs
  cases hs
  refine ⟨?_, fun a ha => ?_⟩
  · have hall : rows.filter (fun memo => memo.creatorId = (requests n).creatorId) = rows := by
      rw [List.filter_eq_self]
      intro row hrow
      exact decide_eq_true (hcreator row hrow)
    rw [State.account, List.filter_append, hall]
    exact (congrArg (· ++ rows) hempty).trans (List.nil_append rows)
  · have hnone : rows.filter (fun memo => memo.creatorId = a) = [] := by
      rw [List.filter_eq_nil_iff]
      intro row hrow
      rw [hcreator row hrow]
      simpa using ha.symm
    rw [State.account, List.filter_append, hnone, List.append_nil]
    rfl

theorem calls_commit {rows : List Memo} {result : Except ImportError Unit}
    (hs : commitRows requests s n rows result = some s') :
    s'.calls = update s.calls n (.returned result) ∧
      s'.locks = (s.finish requests n result).locks := by
  rw [commitRows] at hs
  split_ifs at hs
  cases hs
  exact ⟨rfl, rfl⟩

theorem Exclusive.commit (h : Exclusive db requests s) {rows : List Memo}
    {result : Except ImportError Unit} (hsound : (Call.commit rows).Sound requests s n)
    (hs : commitRows requests s n rows result = some s') : Exclusive db requests s' := by
  obtain ⟨hself, hothers⟩ := account_commit hsound hs
  obtain ⟨-, -, hempty, hrows⟩ := hsound
  obtain ⟨hcalls, -⟩ := calls_commit hs
  have hcall : ∀ m, m ≠ n → s'.calls m = s.calls m := by
    intro m hm
    rw [hcalls, update_of_ne hm]
  -- another import into the account that had brought memos would have left it nonempty
  have hnone : ∀ m, m ≠ n → s'.calls m = .returned (.ok ()) → (requests m).memos ≠ [] →
      (requests m).creatorId ≠ (requests n).creatorId := by
    intro m hm hok hne heq
    rw [hcall m hm] at hok
    have hfull := h.success m hok hne
    rw [heq] at hfull
    exact hfull hempty
  refine ⟨fun a => ?_, fun m hok hne => ?_, fun m k hm hk heq hmne hkne => ?_⟩
  · by_cases ha : a = (requests n).creatorId
    · subst ha
      have hstart : (start db).account (requests n).creatorId = [] := by
        rcases h.account (requests n).creatorId with hsame | ⟨hstart, -⟩
        · rw [← hsame, hempty]
        · exact hstart
      refine .inr ⟨hstart, n, rfl, ?_⟩
      rw [hself]
      exact hrows
    · rw [hothers a ha]
      exact h.account a
  · by_cases hm : m = n
    · subst hm
      rw [hself]
      exact mt hrows.eq_nil_iff.mp hne
    · rw [hothers _ (hnone m hm hok hne)]
      rw [hcall m hm] at hok
      exact h.success m hok hne
  · by_cases hmn : m = n
    · subst hmn
      by_contra hne
      exact hnone k (Ne.symm hne) hk hkne heq.symm
    · by_cases hkn : k = n
      · subst hkn
        exact absurd heq (hnone m hmn hm hmne)
      · rw [hcall m hmn] at hm
        rw [hcall k hkn] at hk
        exact h.unique m k hm hk heq hmne hkne

theorem Inv.commit (h : Inv requests db s) {rows : List Memo} {result : Except ImportError Unit}
    (hcall : s.calls n = .commit rows) (hs : commitRows requests s n rows result = some s') :
    Inv requests db s' := by
  have hsound := h.sound n
  rw [hcall] at hsound
  obtain ⟨-, hothers⟩ := account_commit hsound hs
  obtain ⟨hcalls, hlocks⟩ := calls_commit hs
  have hn : (s.calls n).locked = true := by rw [hcall]; rfl
  refine h.of_step (n := n) (h.exclusive.commit hsound hs) (fun m hm => ?_) ?_
    fun m hm hlocked => ?_
  · rw [hcalls, update_of_ne hm]
  · rw [hcalls, update_self]
    cases result <;> trivial
  · refine ⟨?_, hothers _ fun heq => hm (h.locked_inj hlocked hn heq)⟩
    rw [hlocks]
    exact h.locks_finish result hm hlocked

theorem Inv.lockTarget (h : Inv requests db s) (hcall : s.calls n = .lock)
    (hs : lockTarget db requests s n = some s') : Inv requests db s' := by
  have hvalid := h.sound n
  rw [hcall] at hvalid
  simp only [Transactions.lockTarget] at hs
  split_ifs at hs with huser hfree
  · cases hs
    have hcheck : Call.check ≠ .returned (.ok ()) := nofun
    refine h.of_step (n := n) (h.exclusive.of_memos rfl fun m => calls_move hcheck)
      (fun m hm => update_of_ne hm) ?_ fun m hm hlocked => ⟨update_of_ne fun heq => ?_, rfl⟩
    · have hself : (s.move n .check).calls n = .check := update_self ..
      rw [hself]
      exact ⟨hvalid, update_self ..⟩
    · rw [← heq, (h.sound m).lock hlocked] at hfree
      cases hfree
  · cases hs
    exact h.fail _

theorem Inv.insertNext (h : Inv requests db s) {rows : List Memo}
    (hcall : s.calls n = .insert rows) : Inv requests db (insertNext requests s n rows) := by
  have hsound := h.sound n
  rw [hcall] at hsound
  obtain ⟨hvalid, hheld, hempty, hrows⟩ := hsound
  rw [Transactions.insertNext]
  dsimp only
  split
  · rename_i hnone
    exact h.move nofun ⟨hvalid, hheld, hempty, hrows.of_length_le hnone⟩
  · rename_i memo hmemo
    split_ifs
    · exact h.fail _
    · exact (h.nextMemoId _).fail _
    · exact (h.nextMemoId _).move nofun ⟨hvalid, hheld, hempty, hrows.snoc _ hmemo⟩

theorem Inv.step {l : Label} (h : Inv requests db s) (hs : step db requests s l = some s') :
    Inv requests db s' := by
  cases l with
  | start n =>
    simp only [Transactions.step] at hs
    split at hs
    · split at hs <;> cases hs
      · exact h.fail _
      · rename_i hvalid
        exact h.move nofun hvalid
    · cases hs
  | statement n =>
    simp only [Transactions.step] at hs
    have hsound := h.sound n
    split at hs
    · rename_i hcall
      rw [hcall] at hsound
      cases hs
      exact h.move nofun hsound
    · rename_i hcall
      exact h.lockTarget hcall hs
    · rename_i hcall
      rw [hcall] at hsound
      split_ifs at hs with hempty
      · cases hs
        exact h.move nofun ⟨hsound.1, hsound.2, List.isEmpty_iff.mp hempty, .nil⟩
      · cases hs
        exact h.fail _
    · rename_i rows hcall
      cases hs
      exact h.insertNext hcall
    · rename_i rows hcall
      exact h.commit hcall hs
    · cases hs
  | fails n message =>
    simp only [Transactions.step] at hs
    split at hs
    · cases hs
    · cases hs
    · cases hs
      exact h.fail _
  | commitUnanswered n message =>
    simp only [Transactions.step] at hs
    split at hs
    · rename_i rows hcall
      exact h.commit hcall hs
    · cases hs

theorem Inv.of_start : Inv requests db (start db) where
  exclusive := ⟨fun _ => .inl rfl, nofun, nofun⟩
  sound _ := trivial

theorem reaches_inv (h : (system db requests).Reaches (fun _ _ => True) s) : Inv requests db s := by
  refine h.invariant ?_ fun _ _ _ hi _ hs => hi.step hs
  rintro _ rfl
  exact .of_start

/-- A step that commits nothing leaves every account as it is. -/
theorem Atomic.of_memos (hmemos : s'.memos = s.memos)
    (hok : s'.calls n ≠ .returned (.ok ())) : Atomic requests s s' n := by
  have haccount : ∀ a, s'.account a = s.account a := by
    intro a
    rw [State.account, State.account, hmemos]
  refine ⟨fun a _ => haccount a, fun _ => haccount _, fun result hresult => ⟨.inl (haccount _), ?_⟩⟩
  rintro rfl
  exact absurd hresult hok

theorem Atomic.commit {rows : List Memo} {result : Except ImportError Unit}
    (hsound : (Call.commit rows).Sound requests s n)
    (hs : commitRows requests s n rows result = some s') : Atomic requests s s' n := by
  obtain ⟨hself, hothers⟩ := account_commit hsound hs
  obtain ⟨-, -, hempty, hrows⟩ := hsound
  obtain ⟨hcalls, -⟩ := calls_commit hs
  rw [← hself] at hrows
  refine ⟨hothers, fun hnot => ?_, fun _ _ => ⟨.inr ⟨hempty, hrows⟩, fun _ => ⟨hempty, hrows⟩⟩⟩
  rw [hcalls, update_self] at hnot
  exact absurd rfl (hnot result)

theorem Atomic.fail {t : State} (ht : t.memos = s.memos) (e : ImportError) :
    Atomic requests s (t.finish requests n (.error e)) n := by
  refine .of_memos ht ?_
  have hself : (t.finish requests n (.error e)).calls n = .returned (.error e) := update_self ..
  rw [hself]
  simp

theorem Atomic.move {t : State} (ht : t.memos = s.memos) {call : Call}
    (hcall : call ≠ .returned (.ok ())) : Atomic requests s (t.move n call) n := by
  refine .of_memos ht ?_
  have hself : (t.move n call).calls n = call := update_self ..
  rwa [hself]

theorem Atomic.insertNext (rows : List Memo) :
    Atomic requests s (insertNext requests s n rows) n := by
  have hmemos : State.memos { s with nextMemoId := s.nextMemoId + 1 } = s.memos := rfl
  rw [Transactions.insertNext]
  dsimp only
  split
  · exact .move rfl nofun
  · split_ifs
    · exact .fail rfl _
    · exact .fail hmemos _
    · exact .move hmemos nofun

theorem Atomic.lockTarget (hs : lockTarget db requests s n = some s') :
    Atomic requests s s' n := by
  simp only [Transactions.lockTarget] at hs
  split_ifs at hs
  · cases hs
    have hself : (s.move n .check).calls n = .check := update_self ..
    refine .of_memos rfl ?_
    rw [hself]
    nofun
  · cases hs
    exact .fail rfl _

theorem Inv.atomic {l : Label} (h : Inv requests db s)
    (hs : Transactions.step db requests s l = some s') : Atomic requests s s' l.call := by
  cases l with
  | start n =>
    simp only [Transactions.step] at hs
    split at hs
    · split at hs <;> cases hs
      · exact .fail rfl _
      · exact .move rfl nofun
    · cases hs
  | statement n =>
    simp only [Transactions.step] at hs
    have hsound := h.sound n
    split at hs
    · cases hs
      exact .move rfl nofun
    · exact .lockTarget hs
    · split_ifs at hs
      · cases hs
        exact .move rfl nofun
      · cases hs
        exact .fail rfl _
    · cases hs
      exact .insertNext _
    · rename_i rows hcall
      rw [hcall] at hsound
      exact .commit hsound hs
    · cases hs
  | fails n message =>
    simp only [Transactions.step] at hs
    split at hs
    · cases hs
    · cases hs
    · cases hs
      exact .fail rfl _
  | commitUnanswered n message =>
    simp only [Transactions.step] at hs
    have hsound := h.sound n
    split at hs
    · rename_i rows hcall
      rw [hcall] at hsound
      exact .commit hsound hs
    · cases hs

end steps

/-- Whatever fails and however the calls interleave, an import brings all of its memos into an empty
account or changes nothing, and of several imports that bring memos one at most succeeds. -/
theorem importMemosAtomically_exclusive (db : Database) (requests : Nat → Request) {s : State}
    (h : (system db requests).Reaches (fun _ _ => True) s) :
    Exclusive db requests s ∧
      ∀ l s', step db requests s l = some s' → Atomic requests s s' l.call := by
  have hinv := reaches_inv h
  exact ⟨hinv.exclusive, fun _ _ hs => hinv.atomic hs⟩

theorem pos_of_mem_one : ∀ id ∈ [1], 0 < id := by decide

def emptyTarget : Database := ⟨[1], pos_of_mem_one, [], 1, 8192⟩

def importedMemo (uid : String) : Memo where
  id := 0
  uid := uid
  rowStatus := .normal
  creatorId := 1
  createdTs := 1700000000
  updatedTs := 1700000000
  content := uid
  visibility := .Protected
  pinned := false
  payload := ⟨none, none, []⟩
  parentUid := none

def twoImports : Nat → Request
  | 0 => ⟨1, [importedMemo "one"], 0⟩
  | _ => ⟨1, [importedMemo "two"], 0⟩

/-- Both calls begin before the first takes the lock; the second finds the account full. -/
theorem importMemosAtomically_exclusive_two :
    ∃ s, (system emptyTarget twoImports).run (start emptyTarget)
        [.start 0, .start 1, .statement 0, .statement 1, .statement 0, .statement 0, .statement 0,
          .statement 0, .statement 0, .statement 1, .statement 1] = some s ∧
      s.calls 0 = .returned (.ok ()) ∧ s.calls 1 = .returned (.error .targetNotEmpty) ∧
      Exclusive emptyTarget twoImports s := by
  have hrun : ∃ s, (system emptyTarget twoImports).run (start emptyTarget)
        [.start 0, .start 1, .statement 0, .statement 1, .statement 0, .statement 0, .statement 0,
          .statement 0, .statement 0, .statement 1, .statement 1] = some s ∧
      s.calls 0 = .returned (.ok ()) ∧ s.calls 1 = .returned (.error .targetNotEmpty) :=
    ⟨_, rfl, rfl, rfl⟩
  obtain ⟨s, hs, hfirst, hsecond⟩ := hrun
  have hreach := LabelledSystem.Reaches.run (.init rfl)
    (LabelledSystem.meets_true (S := system emptyTarget twoImports) _ _) hs
  exact ⟨s, hs, hfirst, hsecond, (importMemosAtomically_exclusive _ _ hreach).1⟩

end Memoark.Import.Transactions
