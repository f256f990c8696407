import Memoark.Js.Url

/-! The targets of a redirect after the sign-in (`redirect-safety.ts`). -/
namespace Memoark.Web.RedirectSafety
open Memoark.Js Memoark.Js.Url

def AUTH : Units := utf16 "/auth"

def startsWith (s start : Units) : Bool := start.isPrefixOf s

/-- `none` for `undefined`, and for `null` in the argument. -/
def getSafeRedirectPath (path : Option Units) : Option Units :=
  match path with
  | none => none
  | some path =>
    if path = [] then none
    else if !startsWith path (utf16 "/") || startsWith path (utf16 "//") then none
    else if path = AUTH || startsWith path (AUTH ++ utf16 "/") || startsWith path (AUTH ++ utf16 "?")
    then none
    else some path

section safety

variable {H : Type} (parseHost : List Char → Option H) (site : Origin H)

/-- The path resolves to an address of the site that is no page of the sign-in. -/
def SafeTarget (path : Units) : Prop :=
  ∃ url, resolveRooted parseHost site path = some url ∧ url.origin = site ∧
    ¬AtOrBelow "auth".toList url.pathname

def Safe (p : Units) : Prop :=
  ∀ path, getSafeRedirectPath (some p) = some path → SafeTarget parseHost site path

def Rejected (p : Units) : Prop :=
  ¬utf16 "/" <+: p ∨ utf16 "//" <+: p ∨ p = AUTH ∨ AUTH ++ utf16 "/" <+: p ∨ AUTH ++ utf16 "?" <+: p

def afterSlash (p : Units) : List Char := (clean (toScalars p)).tail

/-- No second slash opens an authority, unless it is the one of the site, and of the segments of
the path, what remains without the dot segments does not begin with `auth`. -/
structure Confined (p : Units) : Prop where
  origin : (afterSlash p).head?.any isSlash →
    authorityState parseHost site (authorityText (afterSlash p)) = some site
  segments : (remaining [] (segments (pathText (afterSlash p)))).head? ≠ some "auth".toList

variable {parseHost site}

theorem utf16_slash : utf16 "/" = [0x2F] := by decide

theorem startsWith_iff {s start : Units} : startsWith s start = true ↔ start <+: s :=
  List.isPrefixOf_iff_prefix

theorem getSafeRedirectPath_eq_some {p path : Units} :
    getSafeRedirectPath (some p) = some path ↔ path = p ∧ ¬Rejected p := by
  have hrooted : (!startsWith p (utf16 "/") || startsWith p (utf16 "//")) = true ↔
      ¬utf16 "/" <+: p ∨ utf16 "//" <+: p := by
    rw [Bool.or_eq_true, Bool.not_eq_true', ← Bool.not_eq_true, startsWith_iff, startsWith_iff]
  have hauth : (decide (p = AUTH) || startsWith p (AUTH ++ utf16 "/") ||
      startsWith p (AUTH ++ utf16 "?")) = true ↔
      p = AUTH ∨ AUTH ++ utf16 "/" <+: p ∨ AUTH ++ utf16 "?" <+: p := by
    rw [Bool.or_eq_true, Bool.or_eq_true, decide_eq_true_iff, startsWith_iff, startsWith_iff,
      or_assoc]
  have hempty : p = [] → ¬utf16 "/" <+: p := by
    rintro rfl h
    rw [utf16_slash] at h
    exact List.cons_ne_nil _ _ (List.prefix_nil.mp h)
  unfold getSafeRedirectPath Rejected
  dsimp only
  rw [if_congr hrooted rfl rfl, if_congr hauth rfl rfl]
  split
  · have h := hempty ‹_›
    simp [h]
  · split
    · have h := ‹¬utf16 "/" <+: p ∨ utf16 "//" <+: p›
      simp [← or_assoc, h]
    · split
      · have h := ‹p = AUTH ∨ AUTH ++ utf16 "/" <+: p ∨ AUTH ++ utf16 "?" <+: p›
        simp [h]
      · rw [Option.some.injEq]
        constructor
        · rintro rfl
          exact ⟨rfl, by tauto⟩
        · exact fun h => h.1.symm

theorem clean_eq_cons {p : Units} (h : utf16 "/" <+: p) :
    clean (toScalars p) = '/' :: afterSlash p := by
  obtain ⟨rest, rfl⟩ := h
  have hscalars : toScalars (utf16 "/" ++ rest) = '/' :: toScalars rest := by
    rw [utf16_slash]
    exact toScalars_cons (by decide) rest
  rw [afterSlash, hscalars, clean_slash, List.tail_cons]

theorem resolveRooted_eq {p : Units} (h : utf16 "/" <+: p) :
    resolveRooted parseHost site p = relativeSlash parseHost site (afterSlash p) := by
  rw [resolveRooted, clean_eq_cons h]
  rfl

theorem pathname_auth_iff (origin : Origin H) (text : List Char) :
    AtOrBelow "auth".toList (Record.pathname ⟨origin, pathState [] [] text⟩) ↔
      (remaining [] (segments text)).head? = some "auth".toList := by
  rw [Record.pathname, atOrBelow_iff (fun _ h => slash_not_mem_pathState h) (by decide),
    head_pathState text (by decide) (by decide)]

theorem safeTarget_iff {p : Units} (h : utf16 "/" <+: p) :
    SafeTarget parseHost site p ↔ Confined parseHost site p := by
  unfold SafeTarget
  rw [resolveRooted_eq h, relativeSlash]
  by_cases hslash : (afterSlash p).head?.any isSlash = true
  · rw [if_pos hslash]
    constructor
    · rintro ⟨url, hurl, horigin, hpath⟩
      obtain ⟨origin, hauthority, rfl⟩ := Option.map_eq_some_iff.mp hurl
      rw [pathname_auth_iff] at hpath
      refine ⟨fun _ => ?_, hpath⟩
      rw [hauthority]
      exact congrArg some horigin
    · intro hconfined
      refine ⟨⟨site, pathState [] [] (pathText (afterSlash p))⟩, ?_, rfl, ?_⟩
      · rw [hconfined.origin hslash]
        rfl
      · rw [pathname_auth_iff]
        exact hconfined.segments
  · rw [if_neg hslash]
    constructor
    · rintro ⟨url, hurl, horigin, hpath⟩
      obtain rfl := Option.some.inj hurl
      rw [pathname_auth_iff] at hpath
      exact ⟨fun h => absurd h hslash, hpath⟩
    · intro hconfined
      refine ⟨⟨site, pathState [] [] (pathText (afterSlash p))⟩, rfl, rfl, ?_⟩
      rw [pathname_auth_iff]
      exact hconfined.segments

/-- The check is enough exactly for the texts that the parser does not read otherwise. -/
theorem redirect_safe_iff (parseHost : List Char → Option H) (site : Origin H) (p : Units) :
    Safe parseHost site p ↔ Rejected p ∨ Confined parseHost site p := by
  unfold Safe
  by_cases hrejected : Rejected p
  · have hnone : ∀ path, getSafeRedirectPath (some p) ≠ some path := fun path h =>
      (getSafeRedirectPath_eq_some.mp h).2 hrejected
    constructor
    · exact fun _ => .inl hrejected
    · exact fun _ path h => absurd h (hnone path)
  · have hroot : utf16 "/" <+: p := by
      by_contra hroot
      exact hrejected (.inl hroot)
    have hpath : getSafeRedirectPath (some p) = some p :=
      getSafeRedirectPath_eq_some.mpr ⟨rfl, hrejected⟩
    constructor
    · intro h
      exact .inr ((safeTarget_iff hroot).mp (h p hpath))
    · rintro (h | h) path hreturned
      · exact absurd h hrejected
      · rw [(getSafeRedirectPath_eq_some.mp hreturned).1]
        exact (safeTarget_iff hroot).mpr h

end safety

/-- A site whose addresses are read without any conversion of the host. -/
def memos : Origin (List Char) := ⟨.https, "memos.example".toList, none⟩

theorem confined_of_safe {parseHost : List Char → Option (List Char)} {p : Units}
    (h : Safe parseHost memos p) (hreturned : getSafeRedirectPath (some p) = some p)
    (hroot : utf16 "/" <+: p) : Confined parseHost memos p :=
  (safeTarget_iff hroot).mp (h p hreturned)

/-- A backslash opens an authority like a slash does, and a dot segment or a fragment hides the
page of the sign-in. -/
theorem backslash_dot_and_fragment_escape :
    (resolveRooted some memos (utf16 "/\\evil.example/home")).map (·.origin.host) =
        some "evil.example".toList ∧
      ¬Safe some memos (utf16 "/\\evil.example/home") ∧ ¬Safe some memos (utf16 "/./auth") ∧
      ¬Safe some memos (utf16 "/auth#top") := by
  refine ⟨by decide +kernel, ?_, ?_, ?_⟩
  · intro h
    have hconfined := confined_of_safe h (by decide +kernel) (by decide +kernel)
    have horigin := hconfined.origin (by decide +kernel)
    exact absurd horigin (by decide +kernel)
  · intro h
    have hconfined := confined_of_safe h (by decide +kernel) (by decide +kernel)
    exact hconfined.segments (by decide +kernel)
  · intro h
    have hconfined := confined_of_safe h (by decide +kernel) (by decide +kernel)
    exact hconfined.segments (by decide +kernel)

end Memoark.Web.RedirectSafety
