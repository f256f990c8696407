import Memoark.Net.Http

/-! `internal/httpgetter`: the page that a link points to is fetched for its metadata, from no
internal address. -/
namespace Memoark.Fetch.HtmlMeta
open Memoark.Net Memoark.System

def isInternalIP (ip : IP) : Bool :=
  ip.isLoopback || ip.isPrivate || ip.isLinkLocalUnicast || ip.isUnspecified

def errInternalIP : String := "internal IP addresses are not allowed"

def wrap (err message : String) : String := message ++ ": " ++ err

def resolveAllowedIPs (dns : Dns) (host : List Char) : Except String (List IP) :=
  match parseIP host with
  | some ip =>
    if isInternalIP ip then .error (wrap errInternalIP (String.ofList ip.string)) else .ok [ip]
  | none =>
    match lookupIPAddr dns host with
    | .error err => .error ("failed to resolve hostname: " ++ err)
    | .ok addrs =>
      match addrs.find? (isInternalIP ·.ip) with
      | some addr =>
        .error (wrap errInternalIP
          ("host=" ++ String.ofList host ++ ", ip=" ++ String.ofList addr.ip.string))
      | none =>
        if addrs = [] then .error "hostname resolved to no addresses"
        else .ok (addrs.map (·.ip))

/-- What the network does during one dial of the client: the lookup, and the dials of its answers. -/
structure Dial where
  dns : Dns
  attempts : Nat → Attempt

/-- The addresses are dialled in their order, until a connection is open. -/
def secureDialContext (network : Dial) (address : List Char) : Option IPAddr :=
  match splitHostPort address with
  | some (host, port) =>
    match resolveAllowedIPs network.dns host with
    | .ok ips =>
      ips.zipIdx.findSome? fun (ip, i) =>
        (network.attempts i).dialContext (joinHostPort ip.string port)
    | .error _ => none
  | none => none

def validateURL (library : Library) (urlStr : List Char) : Except String Unit :=
  match library.parse urlStr with
  | none => .error "invalid URL format"
  | some u =>
    if u.scheme ≠ "http".toList ∧ u.scheme ≠ "https".toList then
      .error "only http/https protocols are allowed"
    else if u.hostname = [] then .error "empty hostname"
    else
      match parseIP u.hostname with
      | some ip =>
        if isInternalIP ip then .error (wrap errInternalIP (String.ofList ip.string)) else .ok ()
      | none => .ok ()

def checkRedirect (library : Library) (url : Url) (via : List Url) : Except String Unit :=
  match validateURL library (library.string url) with
  | .error err => .error (wrap err "redirect to internal IP")
  | .ok _ => if 10 ≤ via.length then .error "too many redirects" else .ok ()

/-- The client of `GetHTMLMeta`, which validates the URL before its first request. -/
def httpClient (library : Library) : Client Dial where
  library := library
  validate _ urlStr := validateURL library urlStr
  checkRedirect := checkRedirect library
  dialContext := secureDialContext

theorem isInternalIP_canonical (ip : IP) : isInternalIP ip.canonical = isInternalIP ip := by
  simp [isInternalIP]

theorem toLocal_of_not_internal {addr : IPAddr} (h : isInternalIP addr.ip = false) :
    addr.toLocal = addr := by
  have hunspecified : addr.ip.isUnspecified = false := by
    simp only [isInternalIP, Bool.or_eq_false_iff] at h
    exact h.2
  rw [IPAddr.toLocal, hunspecified]
  rfl

theorem not_internal_of_resolveAllowedIPs {dns : Dns} {host : List Char} {ips : List IP}
    (h : resolveAllowedIPs dns host = .ok ips) : ∀ ip ∈ ips, isInternalIP ip = false := by
  rw [resolveAllowedIPs] at h
  split at h
  · rename_i ip hparse
    split at h
    · cases h
    · rename_i hinternal
      obtain rfl := Except.ok.inj h
      intro ip' hmem
      rw [List.mem_singleton.mp hmem]
      exact Bool.not_eq_true _ ▸ hinternal
  · split at h
    · cases h
    · split at h
      · cases h
      · rename_i addrs _ hfind
        split at h
        · cases h
        · obtain rfl := Except.ok.inj h
          intro ip hmem
          obtain ⟨addr, haddr, rfl⟩ := List.mem_map.mp hmem
          have hnot := List.find?_eq_none.mp hfind addr haddr
          exact Bool.not_eq_true _ ▸ hnot

theorem not_internal_of_secureDialContext {network : Dial} {address : List Char} {addr : IPAddr}
    (h : secureDialContext network address = some addr) : isInternalIP addr.ip = false := by
  rw [secureDialContext] at h
  split at h
  · rename_i host port hsplit
    split at h
    · rename_i ips hips
      obtain ⟨⟨ip, i⟩, hmem, hdial⟩ := List.exists_of_findSome?_eq_some h
      have hip : ip ∈ ips := List.fst_mem_of_mem_zipIdx hmem
      have hnot := not_internal_of_resolveAllowedIPs hips ip hip
      have haddr := dialContext_string (splitHostPort_spec hsplit).2 hdial
      have hcanonical : isInternalIP (IPAddr.mk ip.canonical []).ip = false := by
        rw [isInternalIP_canonical]
        exact hnot
      rw [haddr, toLocal_of_not_internal hcanonical]
      exact hcanonical
    · cases h
  · cases h

theorem checkRedirect_of_length {library : Library} {url : Url} {via : List Url} {ok : Unit}
    (h : 10 ≤ via.length) : checkRedirect library url via ≠ .ok ok := by
  rw [checkRedirect]
  split
  · rintro ⟨⟩
  · rw [if_pos h]
    rintro ⟨⟩

/-- Whatever URL is fetched, wherever the redirects lead and whatever each lookup answers, no
connection is opened to an internal address, and at most ten requests are sent. -/
theorem getHTMLMeta_external {library : Library} {s : Exchange}
    (h : (httpClient library).system.Reaches (fun _ _ => True) s) :
    (∀ addr ∈ s.opened, isInternalIP addr.ip = false) ∧ s.via.length ≤ 10 := by
  constructor
  · refine Client.opened_of_dial h ?_
    intro s network url addr _ _ hdial
    exact not_internal_of_secureDialContext hdial
  · refine Client.requests_le h (by omega) ?_
    intro url via ok hlength
    exact checkRedirect_of_length hlength

/-- A page at a public name, which redirects to a literal address. -/
def exampleLibrary : Library where
  parse rawURL :=
    if rawURL = "http://rebind.example".toList then
      some ⟨"http".toList, "rebind.example".toList, []⟩
    else if rawURL = "http://192.168.0.1".toList then
      some ⟨"http".toList, "192.168.0.1".toList, []⟩
    else none
  parseRequestURI _ := .error "invalid URI for request"
  string url := url.scheme ++ "://".toList ++ url.hostname
  idnaASCII host := some host

def exampleDial : Dial where
  dns _ := .ok [⟨.v4 93 184 216 34, []⟩]
  attempts _ := ⟨fun _ => .ok [⟨.v4 127 0 0 1, []⟩], List.head?⟩

/-- The name is dialled, whatever it stands for later, and the redirect is refused. -/
theorem getHTMLMeta_external_redirect :
    ∃ s, (httpClient exampleLibrary).system.run ⟨[], [], false⟩
        [.get exampleDial.dns "http://rebind.example".toList, .dial exampleDial,
          .redirect ⟨"http".toList, "192.168.0.1".toList, []⟩] = some s ∧
      s.opened = [⟨.v4 93 184 216 34, []⟩] ∧ s.finished = true ∧
      (∀ addr ∈ s.opened, isInternalIP addr.ip = false) ∧ s.via.length ≤ 10 := by
  have hrun : (httpClient exampleLibrary).system.run ⟨[], [], false⟩
      [.get exampleDial.dns "http://rebind.example".toList, .dial exampleDial,
        .redirect ⟨"http".toList, "192.168.0.1".toList, []⟩] =
      some ⟨[⟨"http".toList, "rebind.example".toList, []⟩], [⟨.v4 93 184 216 34, []⟩], true⟩ := rfl
  refine ⟨_, hrun, rfl, rfl, ?_⟩
  exact getHTMLMeta_external (.run (.init rfl) (LabelledSystem.meets_true _ _) hrun)

end Memoark.Fetch.HtmlMeta
