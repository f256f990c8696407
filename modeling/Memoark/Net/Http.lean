import Memoark.Net.Ip
import Memoark.System.Runs

/-! Go's HTTP client over a network that may answer each lookup as it likes: `host:port` addresses,
the resolver, the dialer, and the chain of redirects. -/
namespace Memoark.Net
open Memoark.System

section hostPort

def joinHostPort (host port : List Char) : List Char :=
  if ':' ∈ host then '[' :: host ++ ']' :: ':' :: port else host ++ ':' :: port

def cutLastColon : List Char → Option (List Char × List Char)
  | [] => none
  | c :: cs =>
    match cutLastColon cs with
    | some (before, after) => some (c :: before, after)
    | none => if c = ':' then some ([], cs) else none

/-- `net.SplitHostPort`; a host in brackets ends just before the last colon. -/
def splitHostPort (hostport : List Char) : Option (List Char × List Char) :=
  match cutLastColon hostport with
  | some ('[' :: rest, port) =>
    if rest.getLast? = some ']' ∧ ']' ∉ rest.dropLast ∧ '[' ∉ rest ∧ '[' ∉ port ∧ ']' ∉ port then
      some (rest.dropLast, port)
    else none
  | some (host, port) =>
    if ':' ∉ host ∧ '[' ∉ hostport ∧ ']' ∉ hostport then some (host, port) else none
  | none => none

theorem cutLastColon_cons (c : Char) (cs : List Char) : cutLastColon (c :: cs) =
    match cutLastColon cs with
    | some (before, after) => some (c :: before, after)
    | none => if c = ':' then some ([], cs) else none := rfl

theorem cutLastColon_eq_none {cs : List Char} : cutLastColon cs = none ↔ ':' ∉ cs := by
  induction cs with
  | nil => exact iff_of_true rfl List.not_mem_nil
  | cons c cs ih =>
    rw [cutLastColon_cons, List.mem_cons, not_or]
    cases hcut : cutLastColon cs with
    | some parts =>
      rw [hcut] at ih
      simp only [reduceCtorEq, false_iff] at ih
      simp [ih]
    | none =>
      have hcs := ih.mp hcut
      by_cases hc : c = ':'
      · simp [hc]
      · simp [hc, hcs, Ne.symm hc]

theorem cutLastColon_append {port : List Char} (h : ':' ∉ port) (host : List Char) :
    cutLastColon (host ++ ':' :: port) = some (host, port) := by
  induction host with
  | nil =>
    rw [List.nil_append, cutLastColon_cons, cutLastColon_eq_none.mpr h]
    rfl
  | cons c host ih => rw [List.cons_append, cutLastColon_cons, ih]

theorem cutLastColon_spec {cs before after : List Char} (h : cutLastColon cs = some (before, after)) :
    cs = before ++ ':' :: after ∧ ':' ∉ after := by
  induction cs generalizing before with
  | nil => cases h
  | cons c cs ih =>
    rw [cutLastColon_cons] at h
    cases hcut : cutLastColon cs with
    | some parts =>
      obtain ⟨b, a⟩ := parts
      rw [hcut] at h
      obtain ⟨rfl, rfl⟩ := Prod.mk.inj (Option.some.inj h)
      obtain ⟨rfl, ha⟩ := ih hcut
      exact ⟨rfl, ha⟩
    | none =>
      rw [hcut] at h
      have hc : c = ':' := by
        by_contra hne
        rw [if_neg hne] at h
        cases h
      rw [hc, if_pos rfl] at h
      obtain ⟨rfl, rfl⟩ := Prod.mk.inj (Option.some.inj h)
      rw [hc]
      exact ⟨rfl, cutLastColon_eq_none.mp hcut⟩

theorem splitHostPort_joinHostPort {host port : List Char} (hhost : '[' ∉ host ∧ ']' ∉ host)
    (hport : ':' ∉ port ∧ '[' ∉ port ∧ ']' ∉ port) :
    splitHostPort (joinHostPort host port) = some (host, port) := by
  obtain ⟨hopen, hclose⟩ := hhost
  obtain ⟨hcolon, hportopen, hportclose⟩ := hport
  rw [joinHostPort]
  by_cases hmem : ':' ∈ host
  · have hcut : cutLastColon ('[' :: host ++ ']' :: ':' :: port) =
        some ('[' :: (host ++ [']']), port) := by
      have happend := cutLastColon_append hcolon ('[' :: (host ++ [']']))
      simpa using happend
    rw [if_pos hmem, splitHostPort, hcut]
    simp [hopen, hclose, hportopen, hportclose]
  · rw [if_neg hmem, splitHostPort, cutLastColon_append hcolon]
    have hhead : ∀ rest, host ≠ '[' :: rest := by
      rintro rest rfl
      exact hopen List.mem_cons_self
    have hwhole : '[' ∉ host ++ ':' :: port ∧ ']' ∉ host ++ ':' :: port := by
      simp [hopen, hclose, hportopen, hportclose]
    split
    · rename_i rest _ heq
      obtain ⟨heq, -⟩ := Prod.mk.inj (Option.some.inj heq)
      exact absurd heq (hhead rest)
    · rename_i heq
      obtain ⟨rfl, rfl⟩ := Prod.mk.inj (Option.some.inj heq)
      exact if_pos ⟨hmem, hwhole⟩
    · rename_i heq
      cases heq

theorem splitHostPort_spec {hostport host port : List Char}
    (h : splitHostPort hostport = some (host, port)) :
    ('[' ∉ host ∧ ']' ∉ host) ∧ ':' ∉ port ∧ '[' ∉ port ∧ ']' ∉ port := by
  rw [splitHostPort] at h
  split at h
  · rename_i rest port' hcut
    split at h
    · rename_i hc
      obtain ⟨hlast, hclose, hopen, hportopen, hportclose⟩ := hc
      obtain ⟨rfl, rfl⟩ := Prod.mk.inj (Option.some.inj h)
      have hhost : '[' ∉ rest.dropLast := fun hmem => hopen (List.dropLast_subset _ hmem)
      exact ⟨⟨hhost, hclose⟩, (cutLastColon_spec hcut).2, hportopen, hportclose⟩
    · cases h
  · rename_i host' port' _ hcut
    split at h
    · rename_i hc
      obtain ⟨-, hopen, hclose⟩ := hc
      obtain ⟨rfl, rfl⟩ := Prod.mk.inj (Option.some.inj h)
      obtain ⟨rfl, hcolon⟩ := cutLastColon_spec hcut
      simp only [List.mem_append, List.mem_cons, not_or] at hopen hclose
      exact ⟨⟨hopen.1, hclose.1⟩, hcolon, hopen.2.2, hclose.2.2⟩
    · cases h
  · cases h

end hostPort

section dialer

abbrev Dns := List Char → Except String (List IPAddr)

def lookupIPAddr (dns : Dns) (host : List Char) : Except String (List IPAddr) :=
  if host = [] then .error "lookup : no such host"
  else
    match parseAddr host with
    | some addr => .ok [addr]
    | none => dns host

def IPAddr.string (addr : IPAddr) : List Char :=
  if addr.zone = [] then addr.ip.string else addr.ip.string ++ '%' :: addr.zone

def lookupHost (dns : Dns) (host : List Char) : Except String (List (List Char)) :=
  if host = [] then .error "lookup : no such host"
  else if (parseAddr host).isSome then .ok [host]
  else (dns host).map (·.map IPAddr.string)

def IP.loopback (ip : IP) : IP :=
  if ip.to4.isSome then .v4 127 0 0 1 else .v6 ⟨[0, 0, 0, 0, 0, 0, 0, 1], rfl⟩

def IPAddr.toLocal (addr : IPAddr) : IPAddr :=
  if addr.ip.isUnspecified then { addr with ip := addr.ip.loopback } else addr

def dialTargets (dns : Dns) (host : List Char) : Except String (List IPAddr) :=
  if host = [] then .ok [⟨.v4 127 0 0 1, []⟩]
  else (lookupIPAddr dns host).map (·.map IPAddr.toLocal)

/-- What the network does while a dialer dials: its lookup, and the address that wins the race. -/
structure Attempt where
  dns : Dns
  race : List IPAddr → Option IPAddr

def Attempt.dialContext (attempt : Attempt) (address : List Char) : Option IPAddr :=
  match splitHostPort address with
  | some (host, _) =>
    match dialTargets attempt.dns host with
    | .ok addrs => (attempt.race addrs).filter (· ∈ addrs)
    | .error _ => none
  | none => none

variable {attempt : Attempt}

theorem mem_dialTargets {address : List Char} {addr : IPAddr}
    (h : attempt.dialContext address = some addr) :
    ∃ host port addrs, splitHostPort address = some (host, port) ∧
      dialTargets attempt.dns host = .ok addrs ∧ addr ∈ addrs := by
  rw [Attempt.dialContext] at h
  cases hsplit : splitHostPort address with
  | none =>
    rw [hsplit] at h
    cases h
  | some parts =>
    obtain ⟨host, port⟩ := parts
    rw [hsplit] at h
    dsimp only at h
    cases htargets : dialTargets attempt.dns host with
    | error err =>
      rw [htargets] at h
      cases h
    | ok addrs =>
      rw [htargets] at h
      obtain ⟨-, hmem⟩ := Option.filter_eq_some_iff.mp h
      exact ⟨host, port, addrs, rfl, htargets, of_decide_eq_true hmem⟩

theorem dialContext_string {ip : IP} {port : List Char}
    (hport : ':' ∉ port ∧ '[' ∉ port ∧ ']' ∉ port) {addr : IPAddr}
    (h : attempt.dialContext (joinHostPort ip.string port) = some addr) :
    addr = IPAddr.toLocal ⟨ip.canonical, []⟩ := by
  obtain ⟨host, port', addrs, hsplit, htargets, hmem⟩ := mem_dialTargets h
  rw [splitHostPort_joinHostPort (bracket_not_mem_string ip) hport] at hsplit
  obtain ⟨rfl, rfl⟩ := Prod.mk.inj (Option.some.inj hsplit)
  have hne : ip.string ≠ [] := by
    intro hnil
    have hparse := parseAddr_string ip
    rw [hnil] at hparse
    cases hparse
  rw [dialTargets, if_neg hne, lookupIPAddr, if_neg hne, parseAddr_string] at htargets
  obtain rfl := Except.ok.inj htargets
  simpa using hmem

end dialer

section client

structure Url where
  scheme : List Char
  hostname : List Char
  port : List Char

/-- The parts of `net/url` and of the IDNA tables that the clients use. -/
structure Library where
  parse : List Char → Option Url
  parseRequestURI : List Char → Except String Url
  string : Url → List Char
  idnaASCII : List Char → Option (List Char)

def portMap (scheme : List Char) : List Char :=
  if scheme = "http".toList then "80".toList
  else if scheme = "https".toList then "443".toList
  else if scheme = "socks5".toList ∨ scheme = "socks5h".toList then "1080".toList
  else []

/-- The `host:port` that the transport dials for a URL. -/
def Library.canonicalAddr (library : Library) (url : Url) : List Char :=
  joinHostPort ((library.idnaASCII url.hostname).getD url.hostname)
    (if url.port = [] then portMap url.scheme else url.port)

/-- `http.Client`, with what its user checks before the first request. A dial takes what the
network does during it. -/
structure Client (δ : Type) where
  library : Library
  validate : Dns → List Char → Except String Unit
  checkRedirect : Url → List Url → Except String Unit
  dialContext : δ → List Char → Option IPAddr

/-- The requests of a fetch, of which the last is in flight, and all connections opened for them. -/
structure Exchange where
  via : List Url
  opened : List IPAddr
  finished : Bool

inductive Event (δ : Type) where
  | get (dns : Dns) (rawURL : List Char)
  | dial (network : δ)
  | redirect (url : Url)

namespace Client

variable {δ : Type} (client : Client δ)

/-- The transport may dial for the request in flight as often as it likes. -/
def step (s : Exchange) : Event δ → Option Exchange
  | .get dns rawURL =>
    if s.finished ∨ s.via ≠ [] then none
    else
      match client.validate dns rawURL, client.library.parse rawURL with
      | .ok _, some url => some { s with via := [url] }
      | _, _ => some { s with finished := true }
  | .dial network =>
    match s.finished, s.via.getLast? with
    | false, some url =>
      some { s with
        opened := s.opened ++
          (client.dialContext network (client.library.canonicalAddr url)).toList }
    | _, _ => none
  | .redirect url =>
    if s.finished ∨ s.via = [] then none
    else
      match client.checkRedirect url s.via with
      | .ok _ => some { s with via := s.via ++ [url] }
      | .error _ => some { s with finished := true }

def system : LabelledSystem Exchange (Event δ) where
  init s := s = ⟨[], [], false⟩
  step := client.step

variable {client} {s s' : Exchange}

theorem step_cases {event : Event δ} (h : client.step s event = some s') :
    (∃ dns rawURL, event = .get dns rawURL ∧ s.via = [] ∧ s'.opened = s.opened ∧
        s'.via.length ≤ 1) ∨
      (∃ network url, event = .dial network ∧ s.via.getLast? = some url ∧ s'.via = s.via ∧
        s'.opened = s.opened ++
          (client.dialContext network (client.library.canonicalAddr url)).toList) ∨
      ∃ url, event = .redirect url ∧ s'.opened = s.opened ∧
        (s'.via = s.via ∨
          s'.via = s.via ++ [url] ∧ ∃ ok, client.checkRedirect url s.via = .ok ok) := by
  cases event with
  | get dns rawURL =>
    rw [step] at h
    split at h
    · cases h
    · rename_i hidle
      have hvia : s.via = [] := by
        by_contra hne
        exact hidle (.inr hne)
      left
      split at h
      · obtain rfl := Option.some.inj h
        exact ⟨dns, rawURL, rfl, hvia, rfl, Nat.le_refl 1⟩
      · obtain rfl := Option.some.inj h
        refine ⟨dns, rawURL, rfl, hvia, rfl, ?_⟩
        simp [hvia]
  | dial network =>
    rw [step] at h
    split at h
    · rename_i url _ hlast
      obtain rfl := Option.some.inj h
      exact .inr (.inl ⟨network, url, rfl, hlast, rfl, rfl⟩)
    · cases h
  | redirect url =>
    rw [step] at h
    split at h
    · cases h
    · right
      right
      split at h
      · rename_i ok hok
        obtain rfl := Option.some.inj h
        exact ⟨url, rfl, rfl, .inr ⟨rfl, ok, hok⟩⟩
      · obtain rfl := Option.some.inj h
        exact ⟨url, rfl, rfl, .inl rfl⟩

theorem opened_of_dial {C : Exchange → Event δ → Prop} {P : IPAddr → Prop}
    (h : client.system.Reaches C s)
    (hdial : ∀ s network url addr, C s (.dial network) → s.via.getLast? = some url →
      client.dialContext network (client.library.canonicalAddr url) = some addr → P addr) :
    ∀ addr ∈ s.opened, P addr := by
  refine h.invariant (I := fun s => ∀ addr ∈ s.opened, P addr) ?_ ?_
  · rintro s rfl addr hmem
    cases hmem
  · intro s event s' hs hc hstep
    rcases step_cases hstep with ⟨-, -, -, -, hopened, -⟩ | ⟨network, url, rfl, hlast, -, hopened⟩ |
      ⟨-, -, hopened, -⟩
    · rw [hopened]
      exact hs
    · intro addr hmem
      rw [hopened] at hmem
      rcases List.mem_append.mp hmem with hmem | hmem
      · exact hs addr hmem
      · exact hdial s network url addr hc hlast (Option.mem_toList.mp hmem)
    · rw [hopened]
      exact hs

theorem requests_le {C : Exchange → Event δ → Prop} {n : Nat} (h : client.system.Reaches C s)
    (hn : 1 ≤ n) (hrefuse : ∀ url via ok, n ≤ via.length → client.checkRedirect url via ≠ .ok ok) :
    s.via.length ≤ n := by
  refine h.invariant (I := fun s => s.via.length ≤ n) ?_ ?_
  · rintro s rfl
    exact Nat.zero_le n
  · intro s event s' hs hc hstep
    rcases step_cases hstep with ⟨-, -, -, -, -, hlength⟩ | ⟨-, -, -, -, hvia, -⟩ |
      ⟨url, -, -, hvia | ⟨hvia, ok, hok⟩⟩
    · exact Nat.le_trans hlength hn
    · rw [hvia]
      exact hs
    · rw [hvia]
      exact hs
    · have hlt : s.via.length < n := by
        by_contra hge
        exact hrefuse url s.via ok (Nat.le_of_not_lt hge) hok
      rw [hvia, List.length_append]
      exact hlt

end Client

end client

end Memoark.Net
