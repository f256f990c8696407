import Memoark.System.Runs

/-! `useUpdateMemo` of `hooks/useMemoQueries.ts`: mutations of one memo side by side, with the query
cache that they patch. -/
namespace Memoark.Web.UpdateMemo
open Memoark.System LabelledSystem

structure Memo (F V : Type) where
  name : String
  fields : F → V

structure MemoPatch (F V : Type) where
  name : String
  fields : F → Option V

/-- What the cache holds below a key of `memoKeys.all` other than those of details. -/
inductive QueryData (F V : Type) where
  | list (memos : List (Memo F V))
  | infinite (pages : List (List (Memo F V)))

structure Detail (F V : Type) where
  data : Memo F V
  isInvalidated : Bool

/-- The part of the query client that belongs to one memo: its detail, if there is an entry, and the
collections. -/
structure QueryClient (F V : Type) where
  detail : Option (Detail F V)
  collections : List (QueryData F V)

section cache

variable {F V : Type}

def Memo.spread (memo : Memo F V) (update : MemoPatch F V) : Memo F V :=
  ⟨update.name, fun field => (update.fields field).getD (memo.fields field)⟩

def Memo.toPatch (memo : Memo F V) : MemoPatch F V := ⟨memo.name, fun field => some (memo.fields field)⟩

def patchMemoListResponse (memos : List (Memo F V)) (update : MemoPatch F V) : List (Memo F V) :=
  memos.map fun memo => if memo.name ≠ update.name then memo else memo.spread update

def patchMemoListQueryData (data : QueryData F V) (update : MemoPatch F V) : QueryData F V :=
  match data with
  | .list memos => .list (patchMemoListResponse memos update)
  | .infinite pages => .infinite (pages.map (patchMemoListResponse · update))

def findMemoInListResponse (memos : List (Memo F V)) (name : String) : Option (Memo F V) :=
  memos.find? (·.name = name)

def findMemoInQueryData (data : QueryData F V) (name : String) : Option (Memo F V) :=
  match data with
  | .list memos => findMemoInListResponse memos name
  | .infinite pages => pages.findSome? (findMemoInListResponse · name)

namespace QueryClient

variable (client : QueryClient F V)

def findMemoInCollectionQueries (name : String) : Option (Memo F V) :=
  client.collections.findSome? (findMemoInQueryData · name)

def patchMemoInCollectionQueries (update : MemoPatch F V) : QueryClient F V :=
  { client with collections := client.collections.map (patchMemoListQueryData · update) }

def setQueryData (memo : Memo F V) : QueryClient F V := { client with detail := some ⟨memo, false⟩ }

/-- `invalidateQueries` of `memoKeys.all`, as far as the detail goes. -/
def invalidateQueries : QueryClient F V :=
  { client with detail := client.detail.map fun detail => { detail with isInvalidated := true } }

def onMutate (update : MemoPatch F V) : QueryClient F V × Option (Memo F V) :=
  match (client.detail.map (·.data)).or (client.findMemoInCollectionQueries update.name) with
  | some previousMemo =>
    ((client.setQueryData (previousMemo.spread update)).patchMemoInCollectionQueries update,
      some previousMemo)
  | none => (client.patchMemoInCollectionQueries update, none)

def onError (previousMemo : Option (Memo F V)) : QueryClient F V :=
  match previousMemo with
  | some previousMemo =>
    (client.setQueryData previousMemo).patchMemoInCollectionQueries previousMemo.toPatch
  | none => client.invalidateQueries

def onSuccess (updatedMemo : Memo F V) : QueryClient F V :=
  (client.setQueryData updatedMemo).patchMemoInCollectionQueries updatedMemo.toPatch

end QueryClient

end cache

inductive Outcome (F V : Type) where
  | pending
  | committed (memo : Memo F V)
  | failed

structure Mutation (F V : Type) where
  update : MemoPatch F V
  previousMemo : Option (Memo F V)
  outcome : Outcome F V

structure State (F V : Type) where
  server : Memo F V
  client : QueryClient F V
  mutations : List (Mutation F V)

inductive Label (F V : Type) where
  | mutate (fields : F → Option V)
  /-- The server updates the memo and answers with it. -/
  | commit (mutation : Nat) (memo : Memo F V)
  | fail (mutation : Nat)
  /-- The answer arrives. -/
  | answer (mutation : Nat)

section runs

variable {F V : Type}

def settle (client : QueryClient F V) (mutation : Mutation F V) : Option (QueryClient F V) :=
  match mutation.outcome with
  | .pending => none
  | .committed memo => some (client.onSuccess memo)
  | .failed => some (client.onError mutation.previousMemo)

def Outcome.isPending : Outcome F V → Bool
  | .pending => true
  | _ => false

def step (s : State F V) : Label F V → Option (State F V)
  | .mutate fields =>
    let update : MemoPatch F V := ⟨s.server.name, fields⟩
    let (client, previousMemo) := s.client.onMutate update
    some { s with client := client, mutations := s.mutations ++ [⟨update, previousMemo, .pending⟩] }
  | .commit i memo => do
    let mutation ← s.mutations[i]?
    if mutation.outcome.isPending ∧ memo.name = s.server.name then
      some { s with
        server := memo
        mutations := s.mutations.set i { mutation with outcome := .committed memo } }
    else none
  | .fail i => do
    let mutation ← s.mutations[i]?
    if mutation.outcome.isPending then
      some { s with mutations := s.mutations.set i { mutation with outcome := .failed } }
    else none
  | .answer i => do
    let mutation ← s.mutations[i]?
    let client ← settle s.client mutation
    return { s with client := client, mutations := s.mutations.eraseIdx i }

def Current (server : Memo F V) (client : QueryClient F V) : Prop :=
  ∀ detail, client.detail = some detail → detail.data = server ∨ detail.isInvalidated = true

def Converged (s : State F V) : Prop := s.mutations = [] → Current s.server s.client

structure Init (s : State F V) : Prop where
  mutations : s.mutations = []
  converged : Converged s

def system (F V : Type) : LabelledSystem (State F V) (Label F V) := ⟨Init, step⟩

/-- A mutation in flight as it is seen from outside: the state in which it was started, the number
of commits before it, and the number of its own. -/
structure Flight (F V : Type) where
  before : State F V
  commits : Nat
  committed : Option Nat

structure History (F V : Type) where
  commits : Nat
  flights : List (Flight F V)

def History.start : History F V := ⟨0, []⟩

def History.record (h : History F V) (s : State F V) : Label F V → History F V
  | .mutate _ => { h with flights := h.flights ++ [⟨s, h.commits, none⟩] }
  | .commit i _ => ⟨h.commits + 1,
      h.flights.modify i fun flight => { flight with committed := some (h.commits + 1) }⟩
  | .fail _ => h
  | .answer i => { h with flights := h.flights.eraseIdx i }

def QueryClient.cached (client : QueryClient F V) (name : String) : Option (Memo F V) :=
  (client.detail.map (·.data)).or (client.findMemoInCollectionQueries name)

/-- It was started when the memo was cached as the server had it, or not at all; where it was cached,
nothing has been committed since. -/
def Flight.Alone (flight : Flight F V) (commits : Nat) : Prop :=
  ∀ memo, flight.before.client.cached flight.before.server.name = some memo →
    memo = flight.before.server ∧ flight.commits = commits

def InOrder (s : State F V × History F V) : Label F V → Prop
  | .answer i => s.1.mutations.eraseIdx i = [] → ∀ flight, s.2.flights[i]? = some flight →
      flight.committed = some s.2.commits ∨
        flight.committed = none ∧ flight.Alone s.2.commits
  | _ => True

/-- What a flight tells of its mutation: the snapshot is what was cached before it, and the memo of
the latest commit is the server's. -/
structure Flight.Tracks (flight : Flight F V) (server : Memo F V) (commits : Nat)
    (mutation : Mutation F V) : Prop where
  snapshot : mutation.previousMemo = flight.before.client.cached flight.before.server.name
  before : flight.commits ≤ commits ∧ (flight.commits = commits → flight.before.server = server)
  committed : ∀ memo, mutation.outcome = .committed memo → ∃ n ≤ commits,
    flight.committed = some n ∧ (n = commits → memo = server)
  uncommitted : (∀ memo, mutation.outcome ≠ .committed memo) → flight.committed = none

structure Inv (s : State F V × History F V) : Prop where
  converged : Converged s.1
  length : s.2.flights.length = s.1.mutations.length
  tracks : ∀ (i : Nat) (mutation : Mutation F V) (flight : Flight F V),
    s.1.mutations[i]? = some mutation → s.2.flights[i]? = some flight →
      flight.Tracks s.1.server s.2.commits mutation

theorem current_setQueryData (server memo : Memo F V) (client : QueryClient F V)
    (update : MemoPatch F V) :
    Current server ((client.setQueryData memo).patchMemoInCollectionQueries update) ↔
      memo = server := by
  constructor
  · intro h
    exact (h ⟨memo, false⟩ rfl).resolve_right Bool.false_ne_true
  · rintro rfl detail hdetail
    obtain rfl := Option.some.inj hdetail
    exact .inl rfl

theorem current_invalidateQueries (server : Memo F V) (client : QueryClient F V) :
    Current server client.invalidateQueries := by
  intro detail hdetail
  obtain ⟨_, -, rfl⟩ := Option.map_eq_some_iff.mp hdetail
  exact .inr rfl

theorem current_onError {server : Memo F V} (client : QueryClient F V)
    {previousMemo : Option (Memo F V)} (h : ∀ memo, previousMemo = some memo → memo = server) :
    Current server (client.onError previousMemo) := by
  cases previousMemo with
  | none => exact current_invalidateQueries server client
  | some memo => exact (current_setQueryData server memo client memo.toPatch).mpr (h memo rfl)

theorem onMutate_snapshot (client : QueryClient F V) (update : MemoPatch F V) :
    (client.onMutate update).2 = client.cached update.name := by
  unfold QueryClient.onMutate QueryClient.cached
  split
  · rename_i hcached
    exact hcached.symm
  · rename_i hcached
    exact hcached.symm

variable {s s' : State F V}

theorem mutations_ne_nil {label : Label F V} (h : step s label = some s')
    (hlabel : ∀ i, label ≠ .answer i) : s'.mutations ≠ [] := by
  have hset : ∀ {i : Nat} {mutation mutation' : Mutation F V}, s.mutations[i]? = some mutation →
      s.mutations.set i mutation' ≠ [] := by
    intro i mutation mutation' hmutation hnil
    rw [(List.set_eq_nil_iff _ _).mp hnil] at hmutation
    cases hmutation
  cases label with
  | mutate fields =>
    obtain rfl := Option.some.inj h
    exact List.append_ne_nil_of_right_ne_nil _ (List.cons_ne_nil _ _)
  | commit i memo =>
    obtain ⟨mutation, hmutation, h⟩ := Option.bind_eq_some_iff.mp h
    obtain ⟨-, h⟩ := Option.ite_none_right_eq_some.mp h
    obtain rfl := Option.some.inj h
    exact hset hmutation
  | fail i =>
    obtain ⟨mutation, hmutation, h⟩ := Option.bind_eq_some_iff.mp h
    obtain ⟨-, h⟩ := Option.ite_none_right_eq_some.mp h
    obtain rfl := Option.some.inj h
    exact hset hmutation
  | answer i => exact absurd rfl (hlabel i)

theorem step_answer {i : Nat} (h : step s (.answer i) = some s') :
    ∃ mutation client, s.mutations[i]? = some mutation ∧ settle s.client mutation = some client ∧
      s' = { s with client := client, mutations := s.mutations.eraseIdx i } := by
  obtain ⟨mutation, hmutation, h⟩ := Option.bind_eq_some_iff.mp h
  obtain ⟨client, hclient, h⟩ := Option.bind_eq_some_iff.mp h
  exact ⟨mutation, client, hmutation, hclient, (Option.some.inj h).symm⟩

variable {h : History F V}

theorem Inv.init (hinit : Init s) : Inv (s, .start) where
  converged := hinit.converged
  length := by
    show 0 = s.mutations.length
    rw [hinit.mutations]
    rfl
  tracks i mutation flight hmutation := by
    have hnone : s.mutations[i]? = some mutation := hmutation
    rw [hinit.mutations] at hnone
    cases hnone

theorem Inv.mutate {fields : F → Option V} (hinv : Inv (s, h))
    (hstep : step s (.mutate fields) = some s') : Inv (s', h.record s (.mutate fields)) := by
  have hne := mutations_ne_nil hstep fun i hi => by cases hi
  obtain rfl := Option.some.inj hstep
  have hlength : h.flights.length = s.mutations.length := hinv.length
  refine ⟨fun hnil => absurd hnil hne, ?_, ?_⟩
  · simp [History.record, hlength]
  · intro i mutation flight hmutation hflight
    simp only [History.record, List.getElem?_append, hlength] at hmutation hflight
    split at hmutation
    · rename_i hlt
      rw [if_pos hlt] at hflight
      exact hinv.tracks i mutation flight hmutation hflight
    · rename_i hlt
      rw [if_neg hlt] at hflight
      rw [List.getElem?_singleton] at hmutation hflight
      obtain ⟨-, hmutation⟩ := Option.ite_none_right_eq_some.mp hmutation
      obtain ⟨-, hflight⟩ := Option.ite_none_right_eq_some.mp hflight
      obtain rfl := Option.some.inj hmutation
      obtain rfl := Option.some.inj hflight
      refine ⟨onMutate_snapshot s.client ⟨s.server.name, fields⟩, ⟨Nat.le_refl _, fun _ => rfl⟩,
        fun memo houtcome => ?_, fun _ => rfl⟩
      cases houtcome

theorem Inv.commit {i : Nat} {memo : Memo F V} (hinv : Inv (s, h))
    (hstep : step s (.commit i memo) = some s') : Inv (s', h.record s (.commit i memo)) := by
  have hne := mutations_ne_nil hstep fun i hi => by cases hi
  obtain ⟨mutation, hmutation, hstep⟩ := Option.bind_eq_some_iff.mp hstep
  obtain ⟨-, hstep⟩ := Option.ite_none_right_eq_some.mp hstep
  obtain rfl := Option.some.inj hstep
  refine ⟨fun hnil => absurd hnil hne, ?_, ?_⟩
  · simp only [History.record, List.length_modify, List.length_set]
    exact hinv.length
  · intro j mutation' flight' hmutation' hflight'
    simp only [History.record, List.getElem?_modify] at hflight'
    obtain ⟨flight, hflight, rfl⟩ := Option.map_eq_some_iff.mp hflight'
    by_cases hj : i = j
    · subst hj
      have hlt : i < s.mutations.length := (List.getElem?_eq_some_iff.mp hmutation).1
      dsimp only at hmutation'
      rw [List.getElem?_set_self hlt] at hmutation'
      obtain rfl := Option.some.inj hmutation'
      have htracks := hinv.tracks i mutation flight hmutation hflight
      rw [if_pos rfl]
      refine ⟨htracks.snapshot, ⟨?_, fun heq => ?_⟩, fun memo' houtcome => ?_, fun hnone => ?_⟩
      · exact Nat.le_succ_of_le htracks.before.1
      · have hle := htracks.before.1
        rw [show flight.commits = h.commits + 1 from heq] at hle
        exact absurd hle (Nat.not_succ_le_self h.commits)
      · exact ⟨h.commits + 1, Nat.le_refl _, rfl, fun _ => (Outcome.committed.inj houtcome).symm⟩
      · exact absurd rfl (hnone memo)
    · dsimp only at hmutation'
      rw [List.getElem?_set_ne hj] at hmutation'
      have htracks := hinv.tracks j mutation' flight hmutation' hflight
      rw [if_neg hj]
      refine ⟨htracks.snapshot, ⟨?_, fun heq => ?_⟩, fun memo' houtcome => ?_, htracks.uncommitted⟩
      · exact Nat.le_succ_of_le htracks.before.1
      · have hle := htracks.before.1
        rw [show flight.commits = h.commits + 1 from heq] at hle
        exact absurd hle (Nat.not_succ_le_self h.commits)
      · obtain ⟨n, hn, hcommitted, -⟩ := htracks.committed memo' houtcome
        refine ⟨n, Nat.le_succ_of_le hn, hcommitted, fun heq => ?_⟩
        rw [show n = h.commits + 1 from heq] at hn
        exact absurd hn (Nat.not_succ_le_self h.commits)

theorem Inv.fail {i : Nat} (hinv : Inv (s, h)) (hstep : step s (.fail i) = some s') :
    Inv (s', h.record s (.fail i)) := by
  have hne := mutations_ne_nil hstep fun i hi => by cases hi
  obtain ⟨mutation, hmutation, hstep⟩ := Option.bind_eq_some_iff.mp hstep
  obtain ⟨hpending, hstep⟩ := Option.ite_none_right_eq_some.mp hstep
  obtain rfl := Option.some.inj hstep
  refine ⟨fun hnil => absurd hnil hne, ?_, ?_⟩
  · simp only [History.record, List.length_set]
    exact hinv.length
  · intro j mutation' flight hmutation' hflight
    dsimp only at hmutation'
    by_cases hj : i = j
    · subst hj
      have hlt : i < s.mutations.length := (List.getElem?_eq_some_iff.mp hmutation).1
      rw [List.getElem?_set_self hlt] at hmutation'
      obtain rfl := Option.some.inj hmutation'
      have htracks := hinv.tracks i mutation flight hmutation hflight
      refine ⟨htracks.snapshot, htracks.before, fun memo' houtcome => ?_, fun _ => ?_⟩
      · cases houtcome
      · refine htracks.uncommitted fun memo' houtcome => ?_
        rw [houtcome] at hpending
        cases hpending
    · rw [List.getElem?_set_ne hj] at hmutation'
      exact hinv.tracks j mutation' flight hmutation' hflight

theorem Inv.answer {i : Nat} (hinv : Inv (s, h)) (horder : InOrder (s, h) (.answer i))
    (hstep : step s (.answer i) = some s') : Inv (s', h.record s (.answer i)) := by
  obtain ⟨mutation, client, hmutation, hclient, rfl⟩ := step_answer hstep
  have hlt : i < s.mutations.length := (List.getElem?_eq_some_iff.mp hmutation).1
  have hlt' : i < h.flights.length := by
    rw [hinv.length]
    exact hlt
  refine ⟨fun hnil => ?_, ?_, ?_⟩
  · -- The answer decides what is in the cache when it is the last.
    have hflight : h.flights[i]? = some h.flights[i] := List.getElem?_eq_getElem hlt'
    have htracks := hinv.tracks i mutation h.flights[i] hmutation hflight
    have hlast := horder hnil h.flights[i] hflight
    unfold settle at hclient
    split at hclient
    · cases hclient
    · rename_i memo houtcome
      obtain rfl := Option.some.inj hclient
      obtain ⟨n, -, hcommitted, hnewest⟩ := htracks.committed memo houtcome
      rw [hcommitted] at hlast
      refine (current_setQueryData s.server memo s.client memo.toPatch).mpr (hnewest ?_)
      exact Option.some.inj (hlast.resolve_right fun hnone => by cases hnone.1)
    · rename_i houtcome
      obtain rfl := Option.some.inj hclient
      have hnone := htracks.uncommitted fun memo hmemo => by
        rw [houtcome] at hmemo
        cases hmemo
      rw [hnone] at hlast
      obtain ⟨-, halone⟩ := hlast.resolve_left fun hsome => by cases hsome
      refine current_onError s.client fun memo hmemo => ?_
      rw [htracks.snapshot] at hmemo
      obtain ⟨hsame, hcommits⟩ := halone memo hmemo
      exact hsame.trans (htracks.before.2 hcommits)
  · show (h.flights.eraseIdx i).length = (s.mutations.eraseIdx i).length
    rw [List.length_eraseIdx_of_lt hlt, List.length_eraseIdx_of_lt hlt']
    exact congrArg (· - 1) hinv.length
  · intro j mutation' flight hmutation' hflight
    simp only [History.record, List.getElem?_eraseIdx] at hmutation' hflight
    split at hmutation'
    · rename_i hj
      rw [if_pos hj] at hflight
      exact hinv.tracks j mutation' flight hmutation' hflight
    · rename_i hj
      rw [if_neg hj] at hflight
      exact hinv.tracks (j + 1) mutation' flight hmutation' hflight

theorem Inv.step {label : Label F V} (hinv : Inv (s, h)) (horder : InOrder (s, h) label)
    (hstep : step s label = some s') : Inv (s', h.record s label) := by
  cases label with
  | mutate fields => exact hinv.mutate hstep
  | commit i memo => exact hinv.commit hstep
  | fail i => exact hinv.fail hstep
  | answer i => exact hinv.answer horder hstep

/-- The detail is right whenever no mutation is in flight, if each answer to the last one in flight
is that of the latest commit, or of a failure that nothing has come between. -/
theorem throughout_converged (s : State F V) (labels : List (Label F V)) (hinit : Init s)
    (horder : ((system F V).tracked .start History.record).Meets InOrder (s, .start) labels) :
    (system F V).Throughout Converged s labels :=
  horder.throughout_tracked (I := Inv) (.init hinit) (fun _ _ hinv => hinv.converged)
    fun _ _ _ _ hinv hlabel hstep => hinv.step hlabel hstep

end runs

def note (content : String) : Memo Unit String := ⟨"memos/a", fun _ => content⟩

def loaded : State Unit String :=
  ⟨note "old", ⟨some ⟨note "old", false⟩, [.list [note "old"]]⟩, []⟩

theorem loaded_init : Init loaded := by
  refine ⟨rfl, fun _ detail hdetail => ?_⟩
  obtain rfl := Option.some.inj hdetail
  exact .inl rfl

/-- Two updates side by side whose answers come in the order of their commits, and one that fails
beside nothing else. -/
theorem throughout_converged_overlapping :
    (system Unit String).Throughout Converged loaded
      [.mutate fun _ => some "first", .mutate fun _ => some "second", .commit 0 (note "first"),
        .commit 1 (note "second"), .answer 0, .answer 0] ∧
    (system Unit String).Throughout Converged loaded
      [.mutate fun _ => some "third", .fail 0, .answer 0] := by
  constructor
  · refine throughout_converged loaded _ loaded_init
      ⟨trivial, trivial, trivial, trivial, fun hnil => ?_, fun _ flight hflight => ?_, trivial⟩
    · cases hnil
    · obtain rfl := Option.some.inj hflight
      exact .inl rfl
  · refine throughout_converged loaded _ loaded_init
      ⟨trivial, trivial, fun _ flight hflight => ?_, trivial⟩
    obtain rfl := Option.some.inj hflight
    refine .inr ⟨rfl, fun memo hmemo => ⟨?_, rfl⟩⟩
    exact (Option.some.inj hmemo).symm

theorem not_converged {labels : List (Label Unit String)} {s : State Unit String}
    (hrun : (system Unit String).run loaded labels = some s) (hquiet : s.mutations = [])
    {memo : Memo Unit String} (hdetail : s.client.detail = some ⟨memo, false⟩)
    (hne : memo.fields () ≠ s.server.fields ()) :
    ¬(system Unit String).Throughout Converged loaded labels := by
  intro h
  have hcurrent := h.last hrun hquiet ⟨memo, false⟩ hdetail
  have hsame := hcurrent.resolve_right Bool.false_ne_true
  exact hne (congrArg (fun memo => memo.fields ()) hsame)

/-- Two updates are stored one after the other, and the answers arrive the other way round; two
updates fail, and the second brings back what the first has patched. -/
theorem reordered_answers :
    ¬(system Unit String).Throughout Converged loaded
      [.mutate fun _ => some "first", .mutate fun _ => some "second", .commit 0 (note "first"),
        .commit 1 (note "second"), .answer 1, .answer 0] ∧
    ¬(system Unit String).Throughout Converged loaded
      [.mutate fun _ => some "first", .mutate fun _ => some "second", .fail 0, .fail 1, .answer 0,
        .answer 0] :=
  ⟨not_converged rfl rfl rfl (by decide), not_converged rfl rfl rfl (by decide)⟩

end Memoark.Web.UpdateMemo
