import Mathlib.Data.List.Nodup
import Memoark.Go.Sync
import Memoark.Store.Database
import Memoark.System.Runs

/-! The hub of `server/router/api/v1/sse_hub.go`, with what its clients receive from their channels.
Each operation is one step. Clients come and go under the hub's lock, but `Broadcast` only reads under
it: that two broadcasts overlap is not modelled. -/
namespace Memoark.Server.Sse
open Store Memoark.System

inductive SSEEventType where
  | memoCreated | memoUpdated | memoDeleted | memoCommentCreated | reactionUpserted | reactionDeleted
  deriving DecidableEq

def SSEEventType.text : SSEEventType → String
  | .memoCreated => "memo.created"
  | .memoUpdated => "memo.updated"
  | .memoDeleted => "memo.deleted"
  | .memoCommentCreated => "memo.comment.created"
  | .reactionUpserted => "reaction.upserted"
  | .reactionDeleted => "reaction.deleted"

/-- The text of an event's visibility: one of the visibilities of a memo, empty, or another text. -/
inductive EventVisibility where
  | known (visibility : Visibility)
  | empty
  | unknown
  deriving DecidableEq

structure SSEEvent where
  type : SSEEventType
  name : String
  /-- Empty where the resource is no comment. -/
  parent : String
  visibility : EventVisibility
  creatorID : Nat
  deriving DecidableEq

/-- A character of a text as `json.Marshal` writes it. -/
def escape (c : Char) : List Char :=
  if c = '"' then ['\\', '"']
  else if c = '\\' then ['\\', '\\']
  else if c = '\x08' then ['\\', 'b']
  else if c = '\x0c' then ['\\', 'f']
  else if c = '\n' then ['\\', 'n']
  else if c = '\r' then ['\\', 'r']
  else if c = '\t' then ['\\', 't']
  else if c.toNat < 32 ∨ c ∈ ['<', '>', '&'] then
    ['\\', 'u', '0', '0', Nat.digitChar (c.toNat / 16), Nat.digitChar (c.toNat % 16)]
  else if c.toNat = 0x2028 then "\\u2028".toList
  else if c.toNat = 0x2029 then "\\u2029".toList
  else [c]

def marshalString (s : String) : String :=
  String.ofList ('"' :: s.toList.flatMap escape ++ ['"'])

def SSEEvent.JSON (e : SSEEvent) : String :=
  "\x7b\"type\":" ++ marshalString e.type.text ++ ",\"name\":" ++ marshalString e.name ++
    (if e.parent = "" then "" else ",\"parent\":" ++ marshalString e.parent) ++ "\x7d"

structure SSEClient where
  events : Go.Chan String
  userID : Nat
  role : UserRole

def SSEClient.canReceive (c : SSEClient) (event : SSEEvent) : Bool :=
  match event.visibility with
  | .known .Private => c.userID = event.creatorID || c.role = .ADMIN
  | .known .Public => true
  | .known .Protected => true
  | .empty => true
  | .unknown => false

structure SSEHub where
  /-- The clients, by their places among all that were ever subscribed. -/
  clients : List Nat
  closed : Bool

/-- A client that `Subscribe` has returned, with what its handler has received. -/
structure Connection where
  client : SSEClient
  received : List String

structure SSEState where
  hub : SSEHub
  connections : List Connection

def NewSSEHub : SSEState := ⟨⟨[], false⟩, []⟩

def forEach (f : SSEClient → Except String SSEClient) :
    List Nat → List Connection → Except String (List Connection)
  | [], connections => .ok connections
  | i :: rest, connections =>
    match connections[i]? with
    | none => forEach f rest connections
    | some conn => do
      let client ← f conn.client
      forEach f rest (connections.set i { conn with client := client })

def SSEClient.closeEvents (c : SSEClient) : Except String SSEClient := do
  let events ← c.events.close
  return { c with events := events }

def SSEClient.deliver (event : SSEEvent) (data : String) (c : SSEClient) :
    Except String SSEClient :=
  if c.canReceive event then do
    let events ← c.events.trySend data
    return { c with events := events }
  else .ok c

namespace SSEState

def Subscribe (s : SSEState) (userID : Nat) (role : UserRole) : Except String SSEState := do
  let c : SSEClient := ⟨.make 32, userID, role⟩
  if s.hub.closed then
    let c ← c.closeEvents
    return { s with connections := s.connections ++ [⟨c, []⟩] }
  else
    return { hub := { s.hub with clients := s.hub.clients ++ [s.connections.length] }
             connections := s.connections ++ [⟨c, []⟩] }

def Unsubscribe (s : SSEState) (i : Nat) : Except String SSEState :=
  if i ∈ s.hub.clients then do
    let connections ← forEach SSEClient.closeEvents [i] s.connections
    return { hub := { s.hub with clients := s.hub.clients.erase i }, connections := connections }
  else .ok s

def Close (s : SSEState) (order : List Nat) : Except String SSEState :=
  if s.hub.closed then .ok s
  else do
    let connections ← forEach SSEClient.closeEvents order s.connections
    return { hub := ⟨[], true⟩, connections := connections }

def Broadcast (s : SSEState) (event : SSEEvent) (order : List Nat) : Except String SSEState :=
  let data := event.JSON
  if data.length = 0 then .ok s
  else do
    let connections ← forEach (SSEClient.deliver event data) order s.connections
    return { s with connections := connections }

/-- The handler of a client receives from the channel; it waits where this is `none`. -/
def Receive (s : SSEState) (i : Nat) : Option SSEState := do
  let conn ← s.connections[i]?
  let (value, events) ← conn.client.events.receive
  return { s with
    connections := s.connections.set i
      ⟨{ conn.client with events := events }, conn.received ++ value.toList⟩ }

end SSEState

/-- An operation of the hub, or a receive of a client. Go's loops over a map take any order. -/
inductive SSELabel where
  | subscribe (userID : Nat) (role : UserRole)
  | unsubscribe (client : Nat)
  | broadcast (event : SSEEvent) (order : List Nat)
  | close (order : List Nat)
  | receive (client : Nat)

def step : Except String SSEState → SSELabel → Option (Except String SSEState)
  | .error _, _ => none
  | .ok s, .subscribe userID role => some (s.Subscribe userID role)
  | .ok s, .unsubscribe i => if i < s.connections.length then some (s.Unsubscribe i) else none
  | .ok s, .broadcast event order =>
    if order.Perm s.hub.clients then some (s.Broadcast event order) else none
  | .ok s, .close order => if order.Perm s.hub.clients then some (s.Close order) else none
  | .ok s, .receive i => (s.Receive i).map .ok

def system : LabelledSystem (Except String SSEState) SSELabel := ⟨fun s => s = .ok NewSSEHub, step⟩

def subscriptions (ops : List SSELabel) : List (Nat × UserRole) :=
  ops.filterMap fun
    | .subscribe userID role => some (userID, role)
    | _ => none

def endsSubscription (i : Nat) : SSELabel → Bool
  | .unsubscribe j => j = i
  | .close _ => true
  | _ => false

/-- The client is subscribed, and neither it was unsubscribed nor the hub ever closed. -/
def Subscribed (i : Nat) (ops : List SSELabel) : Prop :=
  i < (subscriptions ops).length ∧ ∀ op ∈ ops, endsSubscription i op = false

instance (i : Nat) (ops : List SSELabel) : Decidable (Subscribed i ops) :=
  inferInstanceAs (Decidable (_ ∧ _))

def heardAt (i : Nat) (allowed : SSEEvent → Bool) (before : List SSELabel) :
    SSELabel → List SSEEvent
  | .broadcast event _ => if Subscribed i before ∧ allowed event = true then [event] else []
  | _ => []

def heard (i : Nat) (allowed : SSEEvent → Bool) : List SSELabel → List SSELabel → List SSEEvent
  | _, [] => []
  | before, op :: rest => heardAt i allowed before op ++ heard i allowed (before ++ [op]) rest

section loop

variable {f : SSEClient → Except String SSEClient}

theorem forEach_ok {order : List Nat} {connections : List Connection} (hnodup : order.Nodup)
    (hok : ∀ i ∈ order, ∀ conn, connections[i]? = some conn → ∃ client, f conn.client = .ok client) :
    ∃ connections', forEach f order connections = .ok connections' ∧
      connections'.length = connections.length ∧
      ∀ i conn', connections'[i]? = some conn' →
        i ∉ order ∧ connections[i]? = some conn' ∨
          i ∈ order ∧ ∃ conn client, connections[i]? = some conn ∧ f conn.client = .ok client ∧
            conn' = { conn with client := client } := by
  induction order generalizing connections with
  | nil => exact ⟨connections, rfl, rfl, fun i conn' h => .inl ⟨List.not_mem_nil, h⟩⟩
  | cons i rest ih =>
    obtain ⟨hi, hrest⟩ := List.nodup_cons.mp hnodup
    unfold forEach
    cases hconn : connections[i]? with
    | none =>
      obtain ⟨connections', hrun, hlength, hall⟩ :=
        ih hrest fun j hj => hok j (List.mem_cons_of_mem i hj)
      refine ⟨connections', hrun, hlength, fun j conn' hj => ?_⟩
      rcases hall j conn' hj with ⟨hnot, hsame⟩ | ⟨hmem, hchanged⟩
      · have hne : j ≠ i := by
          rintro rfl
          rw [hconn] at hsame
          cases hsame
        exact .inl ⟨List.not_mem_cons_of_ne_of_not_mem hne hnot, hsame⟩
      · exact .inr ⟨List.mem_cons_of_mem i hmem, hchanged⟩
    | some conn =>
      obtain ⟨client, hclient⟩ := hok i List.mem_cons_self conn hconn
      have hlt : i < connections.length := (List.getElem?_eq_some_iff.mp hconn).1
      have hother : ∀ j, j ≠ i →
          (connections.set i { conn with client := client })[j]? = connections[j]? :=
        fun j hj => List.getElem?_set_ne (Ne.symm hj)
      have hokRest : ∀ j ∈ rest, ∀ c : Connection,
          (connections.set i { conn with client := client })[j]? = some c →
            ∃ client, f c.client = .ok client := by
        intro j hj c hc
        have hne : j ≠ i := by
          rintro rfl
          exact hi hj
        rw [hother j hne] at hc
        exact hok j (List.mem_cons_of_mem i hj) c hc
      obtain ⟨connections', hrun, hlength, hall⟩ := ih hrest hokRest
      refine ⟨connections', ?_, by rw [hlength, List.length_set], fun j conn' hj => ?_⟩
      · change (f conn.client >>= fun client => _) = _
        rw [hclient]
        exact hrun
      · by_cases hji : j = i
        · subst hji
          rcases hall j conn' hj with ⟨-, hsame⟩ | ⟨hmem, -⟩
          · rw [List.getElem?_set_self hlt] at hsame
            obtain rfl := Option.some.inj hsame
            exact .inr ⟨List.mem_cons_self, conn, client, hconn, hclient, rfl⟩
          · exact absurd hmem hi
        · rcases hall j conn' hj with ⟨hnot, hsame⟩ | ⟨hmem, c, client', hc, hchanged⟩
          · rw [hother j hji] at hsame
            exact .inl ⟨List.not_mem_cons_of_ne_of_not_mem hji hnot, hsame⟩
          · rw [hother j hji] at hc
            exact .inr ⟨List.mem_cons_of_mem i hmem, c, client', hc, hchanged⟩

theorem closeEvents_of_open {c : SSEClient} (h : c.events.closed = false) :
    c.closeEvents = .ok { c with events := { c.events with closed := true } } := by
  unfold SSEClient.closeEvents
  rw [Go.Chan.close_of_open h]
  rfl

theorem deliver_of_open {c : SSEClient} (h : c.events.closed = false) (event : SSEEvent)
    (data : String) :
    ∃ events, c.deliver event data = .ok { c with events := events } ∧
      events.cap = c.events.cap ∧ events.closed = false ∧
      (events.buffer = c.events.buffer ∨
        c.canReceive event = true ∧ events.buffer = c.events.buffer ++ [data]) := by
  unfold SSEClient.deliver
  split
  · rename_i hcan
    obtain ⟨events, hsend, hcap, hopen, hbuffer⟩ := Go.Chan.trySend_of_open h data
    rw [hsend]
    refine ⟨events, rfl, hcap, hopen, ?_⟩
    rcases hbuffer with hadded | hdropped
    · exact .inr ⟨hcan, hadded⟩
    · exact .inl hdropped
  · exact ⟨c.events, rfl, rfl, h, .inl rfl⟩

end loop

section history

variable {i : Nat} {ops : List SSELabel} {op : SSELabel}

theorem heard_concat (allowed : SSEEvent → Bool) (before : List SSELabel) :
    heard i allowed before (ops ++ [op]) =
      heard i allowed before ops ++ heardAt i allowed (before ++ ops) op := by
  induction ops generalizing before with
  | nil =>
    rw [List.append_nil]
    exact List.append_nil _
  | cons first rest ih =>
    rw [List.cons_append, heard, heard, ih, List.append_assoc, List.append_assoc]
    rfl

theorem subscribed_concat (hop : subscriptions [op] = []) :
    Subscribed i (ops ++ [op]) ↔ Subscribed i ops ∧ endsSubscription i op = false := by
  unfold Subscribed
  rw [subscriptions, List.filterMap_append, ← subscriptions, ← subscriptions, hop, List.append_nil,
    List.forall_mem_append, List.forall_mem_singleton, and_assoc]

theorem canReceive_of_mem_heard {allowed : SSEEvent → Bool} {event : SSEEvent}
    {before : List SSELabel} (h : event ∈ heard i allowed before ops) : allowed event = true := by
  induction ops generalizing before with
  | nil => cases h
  | cons op rest ih =>
    rcases List.mem_append.mp h with h | h
    · unfold heardAt at h
      split at h
      · split at h
        · rename_i hheard
          rw [List.mem_singleton.mp h]
          exact hheard.2
        · cases h
      · cases h
    · exact ih h

theorem subscriptions_subscribe {userID : Nat} {role : UserRole} :
    subscriptions (ops ++ [.subscribe userID role]) = subscriptions ops ++ [(userID, role)] :=
  List.filterMap_append

theorem subscribed_subscribe {userID : Nat} {role : UserRole} :
    Subscribed i (ops ++ [.subscribe userID role]) ↔
      i < (subscriptions ops).length + 1 ∧ ∀ op ∈ ops, endsSubscription i op = false := by
  unfold Subscribed
  rw [subscriptions_subscribe, List.length_append, List.forall_mem_append,
    List.forall_mem_singleton]
  constructor
  · intro h
    exact ⟨h.1, h.2.1⟩
  · intro h
    exact ⟨h.1, h.2, rfl⟩

end history

/-- What holds of the client at place `i` after the operations. -/
structure ConnectionInv (ops : List SSELabel) (i : Nat) (conn : Connection) : Prop where
  user : (subscriptions ops)[i]? = some (conn.client.userID, conn.client.role)
  cap : conn.client.events.cap = 32
  openIff : conn.client.events.closed = false ↔ Subscribed i ops
  received : ∃ events : List SSEEvent, events.Sublist (heard i conn.client.canReceive [] ops) ∧
    conn.received ++ conn.client.events.buffer = events.map SSEEvent.JSON

structure Inv (ops : List SSELabel) (s : SSEState) : Prop where
  count : s.connections.length = (subscriptions ops).length
  closed : s.hub.closed = true ↔ ∃ order, .close order ∈ ops
  known : ∀ i, .unsubscribe i ∈ ops → i < s.connections.length
  nodup : s.hub.clients.Nodup
  clients : ∀ i, i ∈ s.hub.clients ↔ Subscribed i ops
  connections : ∀ i conn, s.connections[i]? = some conn → ConnectionInv ops i conn

section steps

variable {ops : List SSELabel} {op : SSELabel} {i : Nat} {conn : Connection} {s : SSEState}

theorem ConnectionInv.frame (h : ConnectionInv ops i conn) (hop : subscriptions [op] = [])
    (hends : endsSubscription i op = false ∨ ¬Subscribed i ops) : ConnectionInv (ops ++ [op]) i conn where
  user := by
    rw [subscriptions, List.filterMap_append, ← subscriptions, ← subscriptions, hop, List.append_nil]
    exact h.user
  cap := h.cap
  openIff := by
    rw [h.openIff, subscribed_concat hop]
    constructor
    · intro hsub
      exact ⟨hsub, hends.resolve_right (not_not_intro hsub)⟩
    · intro hsub
      exact hsub.1
  received := by
    obtain ⟨events, hevents, htext⟩ := h.received
    refine ⟨events, ?_, htext⟩
    rw [heard_concat]
    exact hevents.trans (List.sublist_append_left _ _)

theorem ConnectionInv.ended (h : ConnectionInv ops i conn) (hop : subscriptions [op] = [])
    (hends : endsSubscription i op = true) :
    ConnectionInv (ops ++ [op]) i
      { conn with client := { conn.client with events := { conn.client.events with closed := true } } } where
  user := by
    rw [subscriptions, List.filterMap_append, ← subscriptions, ← subscriptions, hop, List.append_nil]
    exact h.user
  cap := h.cap
  openIff := by
    rw [subscribed_concat hop, hends]
    constructor
    · intro hopen
      cases hopen
    · intro hsub
      cases hsub.2
  received := by
    obtain ⟨events, hevents, htext⟩ := h.received
    refine ⟨events, ?_, htext⟩
    rw [heard_concat]
    exact hevents.trans (List.sublist_append_left _ _)

theorem Inv.init : Inv [] NewSSEHub where
  count := rfl
  closed := by
    constructor
    · intro h
      cases h
    · rintro ⟨order, h⟩
      cases h
  known i h := by cases h
  nodup := List.nodup_nil
  clients i := by
    constructor
    · intro h
      cases h
    · intro h
      cases h.1
  connections i conn h := by cases h

theorem Inv.isOpen (h : Inv ops s) (hi : i ∈ s.hub.clients) (hconn : s.connections[i]? = some conn) :
    conn.client.events.closed = false :=
  (h.connections i conn hconn).openIff.mpr ((h.clients i).mp hi)

theorem ConnectionInv.subscribe (h : ConnectionInv ops i conn) (hlt : i < (subscriptions ops).length)
    (userID : Nat) (role : UserRole) :
    ConnectionInv (ops ++ [.subscribe userID role]) i conn where
  user := by
    rw [subscriptions_subscribe, List.getElem?_append_left hlt]
    exact h.user
  cap := h.cap
  openIff := by
    rw [h.openIff, subscribed_subscribe]
    constructor
    · intro hsub
      exact ⟨Nat.lt_succ_of_lt hsub.1, hsub.2⟩
    · intro hsub
      exact ⟨hlt, hsub.2⟩
  received := by
    obtain ⟨events, hevents, htext⟩ := h.received
    refine ⟨events, ?_, htext⟩
    rw [heard_concat]
    exact hevents.trans (List.sublist_append_left _ _)

theorem Inv.add {userID : Nat} {role : UserRole} {hub : SSEHub} {new : Connection} (h : Inv ops s)
    (hclosed : hub.closed = s.hub.closed) (hnodup : hub.clients.Nodup)
    (hclients : ∀ i, i ∈ hub.clients ↔ Subscribed i (ops ++ [.subscribe userID role]))
    (hnew : ConnectionInv (ops ++ [.subscribe userID role]) s.connections.length new) :
    Inv (ops ++ [.subscribe userID role]) ⟨hub, s.connections ++ [new]⟩ where
  count := by
    rw [subscriptions_subscribe, List.length_append, List.length_append, h.count]
    rfl
  closed := by
    rw [hclosed, h.closed]
    simp
  known i hi := by
    have hmem : .unsubscribe i ∈ ops := by simpa using hi
    have hlt := h.known i hmem
    rw [List.length_append]
    omega
  nodup := hnodup
  clients := hclients
  connections i conn hconn := by
    have hlt : i < (s.connections ++ [new]).length := (List.getElem?_eq_some_iff.mp hconn).1
    rw [List.length_append, List.length_singleton] at hlt
    by_cases hi : i = s.connections.length
    · subst hi
      rw [List.getElem?_concat_length] at hconn
      obtain rfl := Option.some.inj hconn
      exact hnew
    · have hold : i < s.connections.length := by omega
      rw [List.getElem?_append_left hold] at hconn
      exact (h.connections i conn hconn).subscribe (h.count ▸ hold) userID role

theorem Inv.subscribe (h : Inv ops s) (userID : Nat) (role : UserRole) :
    ∃ s', s.Subscribe userID role = .ok s' ∧ Inv (ops ++ [.subscribe userID role]) s' := by
  have hnew : (subscriptions (ops ++ [.subscribe userID role]))[s.connections.length]? =
      some (userID, role) := by
    rw [subscriptions_subscribe, h.count, List.getElem?_concat_length]
  unfold SSEState.Subscribe
  split
  · -- The hub is closed, and nobody is subscribed.
    rename_i hhub
    obtain ⟨order, horder⟩ := h.closed.mp hhub
    have hnone : ∀ i, ¬Subscribed i (ops ++ [.subscribe userID role]) := by
      intro i hi
      cases (subscribed_subscribe.mp hi).2 _ horder
    refine ⟨_, rfl, h.add rfl h.nodup (fun i => ?_) ?_⟩
    · constructor
      · intro hi
        cases ((h.clients i).mp hi).2 _ horder
      · intro hi
        exact absurd hi (hnone i)
    · exact ⟨hnew, rfl, iff_of_false Bool.noConfusion (hnone _), [], List.nil_sublist _, rfl⟩
  · rename_i hhub
    have hself : Subscribed s.connections.length (ops ++ [.subscribe userID role]) := by
      refine subscribed_subscribe.mpr ⟨by rw [h.count]; exact Nat.lt_succ_self _, fun op hop => ?_⟩
      cases op with
      | unsubscribe j => exact decide_eq_false (Nat.ne_of_lt (h.known j hop))
      | close order => exact absurd (h.closed.mpr ⟨order, hop⟩) hhub
      | subscribe | broadcast | receive => rfl
    have hfresh : s.connections.length ∉ s.hub.clients := by
      intro hmem
      have hlt := ((h.clients _).mp hmem).1
      rw [← h.count] at hlt
      exact Nat.lt_irrefl _ hlt
    have hnodup : (s.hub.clients ++ [s.connections.length]).Nodup := by
      rw [← List.concat_eq_append]
      exact h.nodup.concat hfresh
    refine ⟨_, rfl, h.add rfl hnodup (fun i => ?_) ?_⟩
    · rw [List.mem_append, List.mem_singleton, h.clients, subscribed_subscribe, Subscribed, ← h.count]
      constructor
      · rintro (⟨hlt, hends⟩ | rfl)
        · exact ⟨Nat.lt_succ_of_lt hlt, hends⟩
        · have hmp := subscribed_subscribe.mp hself
          rw [← h.count] at hmp
          exact hmp
      · rintro ⟨hlt, hends⟩
        rcases Nat.lt_succ_iff_lt_or_eq.mp hlt with hlt | heq
        · exact .inl ⟨hlt, hends⟩
        · exact .inr heq
    · exact ⟨hnew, rfl, iff_of_true rfl hself, [], List.nil_sublist _, rfl⟩

theorem Inv.ending {order : List Nat} (h : Inv ops s) (hop : subscriptions [op] = [])
    (hnodup : order.Nodup) (horder : ∀ i, i ∈ order ↔ i ∈ s.hub.clients ∧ endsSubscription i op = true) :
    ∃ connections, forEach SSEClient.closeEvents order s.connections = .ok connections ∧
      connections.length = s.connections.length ∧
      ∀ i conn, connections[i]? = some conn → ConnectionInv (ops ++ [op]) i conn := by
  obtain ⟨connections, hrun, hlength, hall⟩ := forEach_ok (f := SSEClient.closeEvents) hnodup
    fun i hi conn hconn => ⟨_, closeEvents_of_open (h.isOpen ((horder i).mp hi).1 hconn)⟩
  refine ⟨connections, hrun, hlength, fun i conn' hconn' => ?_⟩
  rcases hall i conn' hconn' with ⟨hnot, hsame⟩ | ⟨hi, conn, client, hconn, hclient, rfl⟩
  · refine (h.connections i conn' hsame).frame hop ?_
    rw [← h.clients]
    by_cases hmem : i ∈ s.hub.clients
    · refine .inl (Bool.eq_false_iff.mpr fun hends => ?_)
      exact hnot ((horder i).mpr ⟨hmem, hends⟩)
    · exact .inr hmem
  · obtain ⟨hmem, hends⟩ := (horder i).mp hi
    rw [closeEvents_of_open (h.isOpen hmem hconn)] at hclient
    obtain rfl := Except.ok.inj hclient
    exact (h.connections i conn hconn).ended hop hends

theorem Inv.next {hub : SSEHub} {connections : List Connection} (h : Inv ops s)
    (hop : subscriptions [op] = []) (hlength : connections.length = s.connections.length)
    (hclosed : hub.closed = true ↔ s.hub.closed = true ∨ ∃ order, .close order = op)
    (hknown : ∀ i, .unsubscribe i = op → i < s.connections.length) (hnodup : hub.clients.Nodup)
    (hclients : ∀ i, i ∈ hub.clients ↔ i ∈ s.hub.clients ∧ endsSubscription i op = false)
    (hconnections : ∀ i conn, connections[i]? = some conn → ConnectionInv (ops ++ [op]) i conn) :
    Inv (ops ++ [op]) ⟨hub, connections⟩ where
  count := by
    rw [subscriptions, List.filterMap_append, ← subscriptions, ← subscriptions, hop, List.append_nil,
      hlength]
    exact h.count
  closed := by
    rw [hclosed, h.closed]
    simp only [List.mem_append, List.mem_singleton, exists_or]
  known i hi := by
    rw [hlength]
    rcases List.mem_append.mp hi with hi | hi
    · exact h.known i hi
    · exact hknown i (List.mem_singleton.mp hi)
  nodup := hnodup
  clients i := by rw [hclients, h.clients, subscribed_concat hop]
  connections := hconnections

theorem Inv.unsubscribe (h : Inv ops s) (hi : i < s.connections.length) :
    ∃ s', s.Unsubscribe i = .ok s' ∧ Inv (ops ++ [.unsubscribe i]) s' := by
  have hclosed : s.hub.closed = true ↔
      s.hub.closed = true ∨ ∃ order, .close order = SSELabel.unsubscribe i := by simp
  have hknown : ∀ j, SSELabel.unsubscribe j = .unsubscribe i → j < s.connections.length := by
    intro j hj
    rw [SSELabel.unsubscribe.inj hj]
    exact hi
  unfold SSEState.Unsubscribe
  split
  · rename_i hmem
    have horder : ∀ j, j ∈ [i] ↔
        j ∈ s.hub.clients ∧ endsSubscription j (.unsubscribe i) = true := by
      intro j
      simp only [List.mem_singleton, endsSubscription, decide_eq_true_eq]
      constructor
      · rintro rfl
        exact ⟨hmem, rfl⟩
      · rintro ⟨-, rfl⟩
        rfl
    obtain ⟨connections, hrun, hlength, hall⟩ := h.ending rfl (List.nodup_singleton i) horder
    rw [hrun]
    refine ⟨_, rfl, h.next rfl hlength hclosed hknown (h.nodup.erase i) (fun j => ?_) hall⟩
    rw [h.nodup.mem_erase_iff, endsSubscription, decide_eq_false_iff_not, and_comm, ne_comm]
  · rename_i hmem
    refine ⟨s, rfl, h.next rfl rfl hclosed hknown h.nodup (fun j => ?_) fun j conn hconn => ?_⟩
    · rw [endsSubscription, decide_eq_false_iff_not]
      constructor
      · intro hj
        refine ⟨hj, ?_⟩
        rintro rfl
        exact hmem hj
      · intro hj
        exact hj.1
    · refine (h.connections j conn hconn).frame rfl ?_
      by_cases hij : i = j
      · subst hij
        rw [← h.clients]
        exact .inr hmem
      · exact .inl (decide_eq_false hij)

theorem Inv.close {order : List Nat} (h : Inv ops s) (horder : order.Perm s.hub.clients) :
    ∃ s', s.Close order = .ok s' ∧ Inv (ops ++ [.close order]) s' := by
  have hknown : ∀ j, SSELabel.unsubscribe j = .close order → j < s.connections.length := by
    intro j hj
    cases hj
  unfold SSEState.Close
  split
  · rename_i hhub
    have hnone : ∀ i, i ∉ s.hub.clients := by
      intro i hi
      obtain ⟨order', horder'⟩ := h.closed.mp hhub
      cases ((h.clients i).mp hi).2 _ horder'
    refine ⟨s, rfl, h.next rfl rfl ?_ hknown h.nodup (fun i => ?_) fun i conn hconn => ?_⟩
    · exact iff_of_true hhub (.inl hhub)
    · exact iff_of_false (hnone i) fun hi => hnone i hi.1
    · refine (h.connections i conn hconn).frame rfl (.inr ?_)
      rw [← h.clients]
      exact hnone i
  · have hends : ∀ i, i ∈ order ↔ i ∈ s.hub.clients ∧ endsSubscription i (.close order) = true := by
      intro i
      rw [horder.mem_iff]
      exact ⟨fun hi => ⟨hi, rfl⟩, fun hi => hi.1⟩
    obtain ⟨connections, hrun, hlength, hall⟩ := h.ending rfl (horder.nodup_iff.mpr h.nodup) hends
    rw [hrun]
    refine ⟨_, rfl, h.next rfl hlength ?_ hknown List.nodup_nil (fun i => ?_) hall⟩
    · exact iff_of_true rfl (.inr ⟨order, rfl⟩)
    · exact iff_of_false List.not_mem_nil fun hi => Bool.noConfusion hi.2

theorem ConnectionInv.delivered {event : SSEEvent} {order : List Nat} {client : SSEClient}
    (h : ConnectionInv ops i conn) (hsub : Subscribed i ops)
    (hdeliver : conn.client.deliver event event.JSON = .ok client) :
    ConnectionInv (ops ++ [.broadcast event order]) i { conn with client := client } := by
  have hopen := h.openIff.mpr hsub
  have hops : subscriptions (ops ++ [.broadcast event order]) = subscriptions ops := by
    rw [subscriptions, List.filterMap_append]
    exact List.append_nil _
  obtain ⟨channel, hrun, hcap, hchannel, hbuffer⟩ := deliver_of_open hopen event event.JSON
  rw [hrun] at hdeliver
  obtain rfl := Except.ok.inj hdeliver
  obtain ⟨events, hevents, htext⟩ := h.received
  refine ⟨hops ▸ h.user, hcap.trans h.cap, iff_of_true hchannel ?_, ?_⟩
  · exact (subscribed_concat rfl).mpr ⟨hsub, rfl⟩
  · change ∃ evs : List SSEEvent, evs.Sublist (heard i conn.client.canReceive [] _) ∧
      conn.received ++ channel.buffer = evs.map SSEEvent.JSON
    rw [heard_concat]
    rcases hbuffer with hdropped | ⟨hcan, hadded⟩
    · refine ⟨events, hevents.trans (List.sublist_append_left _ _), ?_⟩
      rw [hdropped]
      exact htext
    · refine ⟨events ++ [event], ?_, ?_⟩
      · have hat : heardAt i conn.client.canReceive ([] ++ ops) (.broadcast event order) = [event] :=
          if_pos ⟨hsub, hcan⟩
        rw [hat]
        exact hevents.append (List.Sublist.refl _)
      · rw [hadded, ← List.append_assoc, htext, List.map_append]
        rfl

theorem JSON_ne_empty (e : SSEEvent) : e.JSON.length ≠ 0 := by
  have hbrace : "\x7d".length = 1 := rfl
  unfold SSEEvent.JSON
  rw [String.length_append, hbrace]
  omega

theorem Inv.broadcast {order : List Nat} (h : Inv ops s) (horder : order.Perm s.hub.clients)
    (event : SSEEvent) :
    ∃ s', s.Broadcast event order = .ok s' ∧ Inv (ops ++ [.broadcast event order]) s' := by
  have hok : ∀ i ∈ order, ∀ conn, s.connections[i]? = some conn →
      ∃ client, conn.client.deliver event event.JSON = .ok client := by
    intro i hi conn hconn
    obtain ⟨channel, hdeliver, -⟩ :=
      deliver_of_open (h.isOpen (horder.mem_iff.mp hi) hconn) event event.JSON
    exact ⟨_, hdeliver⟩
  obtain ⟨connections, hrun, hlength, hall⟩ :=
    forEach_ok (f := SSEClient.deliver event event.JSON) (horder.nodup_iff.mpr h.nodup) hok
  unfold SSEState.Broadcast
  rw [if_neg (JSON_ne_empty event), hrun]
  refine ⟨_, rfl, h.next rfl hlength ?_ ?_ h.nodup (fun i => ?_) fun i conn' hconn' => ?_⟩
  · simp
  · intro i hi
    cases hi
  · exact ⟨fun hi => ⟨hi, rfl⟩, fun hi => hi.1⟩
  · rcases hall i conn' hconn' with ⟨-, hsame⟩ | ⟨hi, conn, client, hconn, hclient, rfl⟩
    · exact (h.connections i conn' hsame).frame rfl (.inl rfl)
    · exact (h.connections i conn hconn).delivered
        ((h.clients i).mp (horder.mem_iff.mp hi)) hclient

theorem Inv.receive {s' : SSEState} (h : Inv ops s) (hs : s.Receive i = some s') :
    Inv (ops ++ [.receive i]) s' := by
  obtain ⟨conn, hconn, hs⟩ := Option.bind_eq_some_iff.mp hs
  obtain ⟨⟨value, channel⟩, hreceive, hs⟩ := Option.bind_eq_some_iff.mp hs
  obtain rfl := Option.some.inj hs
  obtain ⟨hbuffer, hcap, hclosed⟩ := Go.Chan.buffer_of_receive hreceive
  have hlt : i < s.connections.length := (List.getElem?_eq_some_iff.mp hconn).1
  refine h.next rfl List.length_set ?_ ?_ h.nodup (fun j => ?_) fun j conn' hconn' => ?_
  · simp
  · intro j hj
    cases hj
  · exact ⟨fun hj => ⟨hj, rfl⟩, fun hj => hj.1⟩
  · by_cases hij : j = i
    · subst hij
      rw [List.getElem?_set_self hlt] at hconn'
      obtain rfl := Option.some.inj hconn'
      have hinv : ConnectionInv (ops ++ [.receive j]) j conn :=
        (h.connections j conn hconn).frame rfl (.inl rfl)
      refine ⟨hinv.user, hcap.trans hinv.cap, ?_, ?_⟩
      · change channel.closed = false ↔ _
        rw [hclosed]
        exact hinv.openIff
      · obtain ⟨events, hevents, htext⟩ := hinv.received
        refine ⟨events, hevents, ?_⟩
        rw [← htext, hbuffer, List.append_assoc]
    · rw [List.getElem?_set_ne (Ne.symm hij)] at hconn'
      exact (h.connections j conn' hconn').frame rfl (.inl rfl)

theorem inv_step {outcome : Except String SSEState} (h : Inv ops s)
    (hstep : step (.ok s) op = some outcome) :
    ∃ s', outcome = .ok s' ∧ Inv (ops ++ [op]) s' := by
  -- A step whose operation succeeds.
  have hok : ∀ {result : Except String SSEState}, some result = some outcome →
      (∃ s', result = .ok s' ∧ Inv (ops ++ [op]) s') →
      ∃ s', outcome = .ok s' ∧ Inv (ops ++ [op]) s' := by
    intro result heq hresult
    rw [← Option.some.inj heq]
    exact hresult
  cases op with
  | subscribe userID role => exact hok hstep (h.subscribe userID role)
  | unsubscribe i =>
    obtain ⟨hi, hstep⟩ := Option.ite_none_right_eq_some.mp hstep
    exact hok hstep (h.unsubscribe hi)
  | broadcast event order =>
    obtain ⟨horder, hstep⟩ := Option.ite_none_right_eq_some.mp hstep
    exact hok hstep (h.broadcast horder event)
  | close order =>
    obtain ⟨horder, hstep⟩ := Option.ite_none_right_eq_some.mp hstep
    exact hok hstep (h.close horder)
  | receive i =>
    obtain ⟨s', hs', rfl⟩ := Option.map_eq_some_iff.mp hstep
    exact ⟨s', rfl, h.receive hs'⟩

theorem inv_run {outcome : Except String SSEState}
    (hrun : system.run (.ok NewSSEHub) ops = some outcome) : ∃ s, outcome = .ok s ∧ Inv ops s := by
  refine LabelledSystem.run_history (I := fun ops outcome => ∃ s, outcome = .ok s ∧ Inv ops s) hrun
    ⟨NewSSEHub, rfl, .init⟩ ?_
  rintro ops _ op outcome ⟨s, rfl, hinv⟩ hstep
  exact inv_step hinv hstep

end steps

/-- No sequence of operations panics. A channel holds at most 32 events; what its client has received,
with what waits for it, are some of the events that it is to hear, in order, and none of a private
memo that is neither its user's nor open to an admin. -/
theorem run_safe (ops : List SSELabel) (outcome : Except String SSEState)
    (hrun : system.run (.ok NewSSEHub) ops = some outcome) :
    ∃ s, outcome = .ok s ∧ s.connections.length = (subscriptions ops).length ∧
      ∀ i conn, s.connections[i]? = some conn →
        (subscriptions ops)[i]? = some (conn.client.userID, conn.client.role) ∧
        conn.client.events.cap = 32 ∧ conn.client.events.buffer.length ≤ 32 ∧
        (conn.client.events.closed = false ↔ Subscribed i ops) ∧
        ∃ events, List.Sublist events (heard i conn.client.canReceive [] ops) ∧
          conn.received ++ conn.client.events.buffer = events.map SSEEvent.JSON ∧
          ∀ event ∈ events, event.visibility = .known .Private →
            conn.client.userID = event.creatorID ∨ conn.client.role = .ADMIN := by
  obtain ⟨s, rfl, hinv⟩ := inv_run hrun
  refine ⟨s, rfl, hinv.count, fun i conn hconn => ?_⟩
  have hconnection := hinv.connections i conn hconn
  obtain ⟨events, hevents, htext⟩ := hconnection.received
  refine ⟨hconnection.user, hconnection.cap, ?_, hconnection.openIff, events, hevents, htext, ?_⟩
  · rw [← hconnection.cap]
    exact conn.client.events.fits
  · intro event hevent hprivate
    have hcan := canReceive_of_mem_heard (hevents.subset hevent)
    unfold SSEClient.canReceive at hcan
    rw [hprivate] at hcan
    simpa using hcan

/-- A user's private event passes the other user by, whose client is unsubscribed twice. -/
theorem run_safe_private :
    ∃ s, system.run (.ok NewSSEHub) [.subscribe 1 .USER, .subscribe 2 .USER,
        .broadcast ⟨.memoUpdated, "memos/a", "", .known .Private, 1⟩ [1, 0], .receive 0,
        .unsubscribe 1, .unsubscribe 1] = some (.ok s) ∧
      s.connections.map (·.received) =
        [["\x7b\"type\":\"memo.updated\",\"name\":\"memos/a\"\x7d"], []] ∧
      ∀ i (conn : Connection), s.connections[i]? = some conn →
        (conn.client.events.closed = false ↔ i = 0) := by
  obtain ⟨outcome, hrun⟩ : ∃ outcome, system.run (.ok NewSSEHub) [.subscribe 1 .USER,
      .subscribe 2 .USER, .broadcast ⟨.memoUpdated, "memos/a", "", .known .Private, 1⟩ [1, 0],
      .receive 0, .unsubscribe 1, .unsubscribe 1] = some outcome := ⟨_, rfl⟩
  obtain ⟨s, rfl, hlength, hall⟩ := run_safe _ outcome hrun
  refine ⟨s, hrun, ?_, fun i conn hconn => ?_⟩
  · obtain rfl := Except.ok.inj (Option.some.inj hrun)
    rfl
  · have hlt : i < s.connections.length := (List.getElem?_eq_some_iff.mp hconn).1
    rw [(hall i conn hconn).2.2.2.1]
    rw [hlength] at hlt
    obtain rfl | rfl : i = 0 ∨ i = 1 := by
      have hlt : i < 2 := hlt
      omega
    all_goals decide

end Memoark.Server.Sse
