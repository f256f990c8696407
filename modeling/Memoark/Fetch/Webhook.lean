import Memoark.Go.Strings
import Memoark.Net.Http

/-! `internal/webhook`: the URLs of webhooks are validated when they are registered, and the client
that posts to them checks the addresses of a host before it dials the host. -/
namespace Memoark.Fetch.Webhook
open Memoark.Net Memoark.System

def reservedCIDRs : List String :=
  ["127.0.0.0/8", "10.0.0.0/8", "172.16.0.0/12", "192.168.0.0/16", "169.254.0.0/16", "::1/128",
    "fc00::/7", "fe80::/10"]

def reservedNetworks : List IPNet := reservedCIDRs.filterMap fun cidr => parseCIDR cidr.toList

def isReservedIP (allowPrivateIPs : Bool) (ip : IP) : Bool :=
  if allowPrivateIPs then false else reservedNetworks.any (·.contains ip)

/-- The check of the answers of a lookup, of which a text that is no address passes. -/
def anyReserved (allowPrivateIPs : Bool) (ips : List (List Char)) : Bool :=
  ips.any fun ipStr => (parseIP ipStr).any (isReservedIP allowPrivateIPs)

def validateURL (library : Library) (allowPrivateIPs : Bool) (dns : Dns) (rawURL : List Char) :
    Except String Unit :=
  match library.parseRequestURI rawURL with
  | .error err => .error ("invalid webhook URL: " ++ err)
  | .ok u =>
    if u.scheme ≠ "http".toList ∧ u.scheme ≠ "https".toList then
      .error ("webhook URL must use http or https scheme, got " ++
        Go.quoted (String.ofList u.scheme))
    else
      match lookupHost dns u.hostname with
      | .error err => .error ("webhook URL hostname could not be resolved: " ++ err)
      | .ok ips =>
        if anyReserved allowPrivateIPs ips then
          .error "webhook URL must not resolve to a reserved or private IP address"
        else .ok ()

/-- What the network does during one dial: the lookup of the check, then that of the dialer. -/
structure Dial where
  dns : Dns
  attempt : Attempt

/-- The answers of the lookup are checked; what is dialled is the host. -/
def safeDialContext (allowPrivateIPs : Bool) (network : Dial) (addr : List Char) : Option IPAddr :=
  match splitHostPort addr with
  | some (host, port) =>
    match lookupHost network.dns host with
    | .ok ips =>
      if anyReserved allowPrivateIPs ips then none
      else network.attempt.dialContext (joinHostPort host port)
    | .error _ => none
  | none => none

def defaultCheckRedirect (_ : Url) (via : List Url) : Except String Unit :=
  if 10 ≤ via.length then .error "stopped after 10 redirects" else .ok ()

/-- The client of `Post`; the URL of a webhook was validated when it was registered. -/
def safeClient (library : Library) (allowPrivateIPs : Bool) : Client Dial where
  library := library
  validate := validateURL library allowPrivateIPs
  checkRedirect := defaultCheckRedirect
  dialContext := safeDialContext allowPrivateIPs

def Pinned (library : Library) (s : Exchange) : Event Dial → Prop
  | .dial network => ∀ url host port addrs, s.via.getLast? = some url →
      splitHostPort (library.canonicalAddr url) = some (host, port) →
      dialTargets network.attempt.dns host = .ok addrs →
      (∃ addr ∈ addrs, isReservedIP false addr.ip) →
      ∀ ips, lookupHost network.dns host = .ok ips → anyReserved false ips
  | _ => True

theorem targets_of_safeDialContext {network : Dial} {address : List Char} {addr : IPAddr}
    (h : safeDialContext false network address = some addr) :
    ∃ host port ips addrs, splitHostPort address = some (host, port) ∧
      lookupHost network.dns host = .ok ips ∧ anyReserved false ips = false ∧
      dialTargets network.attempt.dns host = .ok addrs ∧ addr ∈ addrs := by
  rw [safeDialContext] at h
  split at h
  · rename_i host port hsplit
    split at h
    · rename_i ips hips
      split at h
      · cases h
      · rename_i hreserved
        obtain ⟨host', port', addrs, hsplit', htargets, hmem⟩ := mem_dialTargets h
        have hclean := splitHostPort_spec hsplit
        rw [splitHostPort_joinHostPort hclean.1 hclean.2] at hsplit'
        obtain ⟨rfl, rfl⟩ := Prod.mk.inj (Option.some.inj hsplit')
        exact ⟨host, port, ips, addrs, hsplit, hips, Bool.not_eq_true _ ▸ hreserved, htargets, hmem⟩
    · cases h
  · cases h

theorem safeDialContext_eq {dns : Dns} (attempt : Attempt) {address host port : List Char}
    {ips : List (List Char)} (hsplit : splitHostPort address = some (host, port))
    (hips : lookupHost dns host = .ok ips) (hpassed : anyReserved false ips = false) :
    safeDialContext false ⟨dns, attempt⟩ address =
      attempt.dialContext (joinHostPort host port) := by
  rw [safeDialContext, hsplit]
  dsimp only
  rw [hips]
  dsimp only
  rw [hpassed]
  rfl

theorem pinned_iff {library : Library} {s : Exchange} {url : Url}
    (hlast : s.via.getLast? = some url) (network : Dial) :
    Pinned library s (.dial network) ↔
      ∀ race addr, safeDialContext false { network with attempt := ⟨network.attempt.dns, race⟩ }
        (library.canonicalAddr url) = some addr → isReservedIP false addr.ip = false := by
  constructor
  · intro hpinned race addr hdial
    obtain ⟨host, port, ips, addrs, hsplit, hips, hpassed, htargets, hmem⟩ :=
      targets_of_safeDialContext hdial
    cases hreserved : isReservedIP false addr.ip with
    | false => rfl
    | true =>
      have hrefused := hpinned url host port addrs hlast hsplit htargets
        ⟨addr, hmem, hreserved⟩ ips hips
      rw [hpassed] at hrefused
      cases hrefused
  · rintro hsafe url' host port addrs hlast' hsplit htargets ⟨addr, hmem, hreserved⟩ ips hips
    obtain rfl : url = url' := Option.some.inj (hlast.symm.trans hlast')
    by_contra hpassed
    have hclean := splitHostPort_spec hsplit
    have hjoin := splitHostPort_joinHostPort hclean.1 hclean.2
    have hdial : safeDialContext false
        { network with attempt := ⟨network.attempt.dns, fun _ => some addr⟩ }
        (library.canonicalAddr url) = some addr := by
      rw [safeDialContext_eq _ hsplit hips (Bool.not_eq_true _ ▸ hpassed),
        Attempt.dialContext, hjoin]
      dsimp only
      rw [htargets]
      simp [hmem]
    have hnot := hsafe _ addr hdial
    rw [hreserved] at hnot
    cases hnot

/-- In a run whose dials are pinned no connection is opened to a reserved address. -/
theorem safeClient_of_pinned {library : Library} {s : Exchange}
    (h : (safeClient library false).system.Reaches (Pinned library) s) :
    ∀ addr ∈ s.opened, isReservedIP false addr.ip = false := by
  refine Client.opened_of_dial h ?_
  intro s network url addr hpinned hlast hdial
  exact (pinned_iff hlast network).mp hpinned network.attempt.race addr hdial

def exampleUrl : Url := ⟨"http".toList, "rebind.example".toList, []⟩

def exampleLibrary : Library where
  parse rawURL :=
    if rawURL = "http://rebind.example/hook".toList then some exampleUrl else none
  parseRequestURI rawURL :=
    if rawURL = "http://rebind.example/hook".toList then .ok exampleUrl
    else .error "invalid URI for request"
  string url := url.scheme ++ "://".toList ++ url.hostname ++ "/hook".toList
  idnaASCII host := some host

def publicDns : Dns := fun _ => .ok [⟨.v4 93 184 216 34, []⟩]

def steadyDial : Dial := ⟨publicDns, ⟨publicDns, List.head?⟩⟩

/-- The name stands for a loopback address when the dialer looks it up. -/
def rebindingDial : Dial := ⟨publicDns, ⟨fun _ => .ok [⟨.v4 127 0 0 1, []⟩], List.head?⟩⟩

theorem steadyDial_pinned : Pinned exampleLibrary ⟨[exampleUrl], [], false⟩ (.dial steadyDial) := by
  rintro url host port addrs hlast hsplit htargets ⟨addr, hmem, hreserved⟩
  obtain rfl : exampleUrl = url := Option.some.inj hlast
  have hhost : splitHostPort (exampleLibrary.canonicalAddr exampleUrl) =
      some ("rebind.example".toList, "80".toList) := rfl
  obtain ⟨rfl, rfl⟩ := Prod.mk.inj (Option.some.inj (hhost.symm.trans hsplit))
  have haddrs : dialTargets steadyDial.attempt.dns "rebind.example".toList =
      .ok [⟨.v4 93 184 216 34, []⟩] := rfl
  obtain rfl := Except.ok.inj (haddrs.symm.trans htargets)
  rw [List.mem_singleton.mp hmem] at hreserved
  exact absurd hreserved (by decide)

/-- A pinned dial of a public address. -/
theorem safeClient_of_pinned_steady : isReservedIP false (.v4 93 184 216 34) = false := by
  have hget : (safeClient exampleLibrary false).step ⟨[], [], false⟩
      (.get publicDns "http://rebind.example/hook".toList) = some ⟨[exampleUrl], [], false⟩ := rfl
  have hdial : (safeClient exampleLibrary false).step ⟨[exampleUrl], [], false⟩
      (.dial steadyDial) = some ⟨[exampleUrl], [⟨.v4 93 184 216 34, []⟩], false⟩ := rfl
  have hposted : (safeClient exampleLibrary false).system.Reaches (Pinned exampleLibrary)
      ⟨[exampleUrl], [], false⟩ :=
    .step (a := .get publicDns "http://rebind.example/hook".toList) (.init rfl) trivial hget
  exact safeClient_of_pinned (.step hposted steadyDial_pinned hdial) ⟨.v4 93 184 216 34, []⟩
    (List.mem_singleton_self _)

/-- The answer that was checked is not the one that is dialled. -/
theorem webhook_rebinding : ¬∀ library s,
    (safeClient library false).system.Reaches (fun _ _ => True) s →
      ∀ addr ∈ s.opened, isReservedIP false addr.ip = false := by
  intro h
  have hrun : (safeClient exampleLibrary false).system.run ⟨[], [], false⟩
      [.get publicDns "http://rebind.example/hook".toList, .dial rebindingDial] =
      some ⟨[exampleUrl], [⟨.v4 127 0 0 1, []⟩], false⟩ := rfl
  have hsafe := h exampleLibrary _ (.run (.init rfl) (LabelledSystem.meets_true _ _) hrun)
    ⟨.v4 127 0 0 1, []⟩ (List.mem_singleton_self _)
  have hreserved : isReservedIP false (.v4 127 0 0 1) = true := by decide
  rw [hreserved] at hsafe
  cases hsafe

end Memoark.Fetch.Webhook
