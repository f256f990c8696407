import Memoark.Editor.SavedDraft

/-! What a reload of the page restores of a create save that was attempted and not confirmed. -/
namespace Memoark.Editor
open Memoark.System

namespace SaveDeliveryState

def attempted : SaveDeliveryState → Option (Option String)
  | idle => none
  | sending requestId _ _ _ => some requestId
  | unsent requestId _ => some requestId

def persistedAttempt : SaveDeliveryState → Option (Option String)
  | sending requestId _ _ true => some requestId
  | unsent requestId _ => some requestId
  | _ => none

theorem attempted_of_persisted {d : SaveDeliveryState} {r : Option String}
    (h : d.persistedAttempt = some r) : d.attempted = some r ∧ d.pending = true := by
  cases d with
  | idle => cases h
  | unsent requestId savedAt => exact ⟨h, rfl⟩
  | sending requestId savedAt retrying persisted =>
    cases persisted with
    | false => cases h
    | true => exact ⟨h, rfl⟩

end SaveDeliveryState

def reloadPage (now : String) : List Label := [.hide now, .reload, .runEffects, .render, .runEffects]

def RestoredBy (key now : String) (e : MemoEditor) (requestId : Option String) : Prop :=
  ∃ e' savedAt, (system key).run e (reloadPage now) = some e' ∧
    e'.state.content = e.state.content ∧ e'.state.requestId = requestId ∧
    e'.state.deliveryState = .unsent requestId savedAt

def Orderly (e : MemoEditor) : Label → Prop
  | .startSave now _ => e.ran = some e.rendered ∧ now ≠ ""
  | .timeout now => now ≠ ""
  | _ => True

def Settled (e : MemoEditor) : Prop := e.rendered = e.state ∧ e.ran = some e.rendered

def View.found (v : View) : Bool × Option String × Option RecoveredPendingSave :=
  (v.isInitialized, v.draftRequestId, v.recoveredPendingSave)

def Adopted (e : MemoEditor) : Prop :=
  e.rendered.isInitialized = true ∧ e.ran.map View.found = some e.rendered.found

structure Startup (e : MemoEditor) : Prop where
  unstarted : e.ran = none → e.rendered = initialView ∧ e.state.deliveryState = .idle ∧
    e.saveInFlight = none ∧ e.discardedContent = none
  started : e.ran ≠ none → e.state.isInitialized = true
  shown : e.rendered = initialView ∨ e.rendered.isInitialized = true
  found : e.rendered.isInitialized = true → e.rendered.found = e.state.found
  recovered : ∀ save, e.state.recoveredPendingSave = some save →
    save.requestId = e.state.draftRequestId
  adopted : e.saveInFlight ≠ none ∨ e.state.deliveryState ≠ .idle ∨ e.discardedContent ≠ none →
    Adopted e

structure Delivering (e : MemoEditor) : Prop where
  request : ∀ r, e.state.deliveryState.attempted = some r → e.state.requestId = r
  inFlight : ∀ call, e.saveInFlight = some call → call.invalidating = false →
    e.state.deliveryState = .sending call.requestId call.savedAt call.retrying call.persisted

structure Pends (text : String) (r : Option String) (draft : Draft) : Prop where
  content : draft.content = text
  requestId : draft.requestId = r
  pending : draft.pending = some true
  savedAt : Js.truthy draft.savedAt = true

structure Kept (key text : String) (r : Option String) (c : Cache) : Prop where
  notBlank : Js.isBlank text = false
  storage : ∃ draft, c.storage key = some draft ∧ Pends text r draft
  timer : ∀ p, c.pendingSaves key = some p → p.content = text ∧ p.metadata.savedAt = none ∧
    p.metadata.requestId = r ∧ p.metadata.pending = some true

/-- Of a text that a flush leaves alone, the cache has the attempt. -/
structure Recorded (key : String) (e : MemoEditor) : Prop where
  latest : ∀ v, e.ran = some v → e.latestContent = v.content
  discarded : ∀ c, e.discardedContent = some c → c = e.latestContent
  rendered : ∀ r, e.state.deliveryState.persistedAttempt = some r →
    e.discardedContent = some e.latestContent →
    e.ran = some e.rendered ∨ e.rendered.deliveryState.pending = true ∧ e.rendered.requestId = r
  kept : ∀ r, e.state.deliveryState.persistedAttempt = some r →
    e.discardedContent = some e.latestContent → Kept key e.latestContent r e.cache

structure Recoverable (key : String) (e : MemoEditor) : Prop where
  startup : Startup e
  delivering : Delivering e
  recorded : Recorded key e

section steps

variable {key : String} {e e' : MemoEditor}

theorem pends_entry {now content : String} {metadata : DraftMetadata} {r : Option String}
    (hr : metadata.requestId = r) (hp : metadata.pending = some true)
    (hnow : Js.truthy (some (metadata.savedAt.getD now)) = true) :
    Pends content r (Cache.entry now content metadata) := ⟨rfl, hr, hp, hnow⟩

theorem Kept.timeout {text : String} {r : Option String} {c c' : Cache} {now : String}
    (h : Kept key text r c) (hnow : now ≠ "") (hc : c.timeout now key = some c') :
    Kept key text r c' := by
  unfold Cache.timeout at hc
  cases hp : c.pendingSaves key with
  | none =>
    rw [hp] at hc
    cases hc
  | some p =>
    rw [hp] at hc
    obtain rfl := Option.some.inj hc
    obtain ⟨hcontent, hsavedAt, hrequest, hpending⟩ := h.timer p hp
    obtain ⟨draft, hdraft, hpends⟩ := h.storage
    have hclear : (c.clearTimeout key).pendingSaves key = none := by simp [Cache.clearTimeout]
    refine ⟨h.notBlank, ?_, fun q hq => ?_⟩
    · unfold Cache.writeEntry
      rw [hcontent, h.notBlank, if_neg (by simp)]
      split_ifs
      · refine ⟨_, by simp only [update_self]; rfl, pends_entry hrequest hpending ?_⟩
        rw [hsavedAt]
        simpa [Js.truthy] using hnow
      · exact ⟨draft, hdraft, hpends⟩
    · rw [Cache.pendingSaves_writeEntry, hclear] at hq
      cases hq

theorem Adopted.ran_ne_none (h : Adopted e) : e.ran ≠ none := by
  intro hran
  have hfound := h.2
  rw [hran] at hfound
  cases hfound

theorem Startup.ran_of_initialized (h : Startup e) (hi : e.rendered.isInitialized = true) :
    e.ran ≠ none := by
  intro hran
  rw [(h.unstarted hran).1] at hi
  cases hi

/-- Once the draft has been taken over, the effects are those of `useAutoSave`. -/
theorem adoptEffect_of_adopted (h : Adopted e) : adoptEffect (initEffect key e) = e := by
  have hinit : initEffect key e = e := by
    unfold initEffect
    rw [if_neg]
    rintro ⟨hran, -⟩
    exact h.ran_ne_none (Option.isNone_iff_eq_none.mp hran)
  have hfound := h.2
  unfold View.found at hfound
  rw [hinit]
  unfold adoptEffect
  dsimp only
  rw [if_neg]
  rintro ⟨hne, -⟩
  exact hne hfound

def takenOver (e : MemoEditor) : View :=
  { e.state with
    requestId := e.rendered.draftRequestId
    deliveryState :=
      match e.rendered.recoveredPendingSave with
      | some save => .unsent save.requestId save.savedAt
      | none => .idle }

/-- The first effects find the draft, those of a later render take it over, and the others leave
the state as it is. -/
theorem takeover_cases (key : String) (h : Startup e) :
    (e.ran = none ∧ adoptEffect (initEffect key e) =
      { e with state := restored (e.cache.loadDraft key) e.state }) ∨
    (e.ran ≠ none ∧ adoptEffect (initEffect key e) = e) ∨
    (e.ran ≠ none ∧ e.rendered.isInitialized = true ∧
      adoptEffect (initEffect key e) = { e with state := takenOver e }) := by
  by_cases hran : e.ran = none
  · left
    have hview := (h.unstarted hran).1
    have hinit : initEffect key e = { e with state := restored (e.cache.loadDraft key) e.state } := by
      unfold initEffect
      rw [if_pos ⟨by rw [hran]; rfl, by rw [hview]; decide⟩]
    rw [hinit]
    refine ⟨hran, ?_⟩
    unfold adoptEffect
    dsimp only
    rw [if_neg]
    rintro ⟨-, hi⟩
    rw [hview] at hi
    cases hi
  · right
    have hinit : initEffect key e = e := by
      unfold initEffect
      rw [if_neg]
      rintro ⟨hnone, -⟩
      exact hran (Option.isNone_iff_eq_none.mp hnone)
    rw [hinit]
    unfold adoptEffect
    dsimp only
    split_ifs with htake
    · exact .inr ⟨hran, htake.2, rfl⟩
    · exact .inl ⟨hran, rfl⟩

theorem restored_found (draft : Option Draft) (v : View) :
    (restored draft v).isInitialized = true ∧
      (restored draft v).deliveryState = v.deliveryState ∧
      (restored draft v).requestId = v.requestId ∧
      ∀ save, (restored draft v).recoveredPendingSave = some save →
        save.requestId = (restored draft v).draftRequestId := by
  cases draft with
  | none => exact ⟨rfl, rfl, rfl, nofun⟩
  | some draft =>
    refine ⟨rfl, rfl, rfl, fun save hsave => ?_⟩
    unfold restored at hsave ⊢
    dsimp only at hsave ⊢
    split_ifs at hsave
    rw [← Option.some.inj hsave]

theorem takeover_frame : adoptEffect (initEffect key e) =
    { e with state := (adoptEffect (initEffect key e)).state } := by
  unfold adoptEffect initEffect
  dsimp only
  split_ifs <;> rfl

theorem rendered_runEffects_eq : (runEffects key e).rendered = e.rendered := by
  rw [rendered_runEffects, takeover_frame]

theorem discarded_runEffects : (runEffects key e).discardedContent =
    (contentEffect (adoptEffect (initEffect key e))).discardedContent :=
  congrArg (·.discardedContent) (saveEffect_frame key _)

theorem latest_runEffects : (runEffects key e).latestContent =
    (contentEffect (adoptEffect (initEffect key e))).latestContent :=
  congrArg (·.latestContent) (saveEffect_frame key _)

theorem saveInFlight_runEffects : (runEffects key e).saveInFlight = e.saveInFlight :=
  (Prod.mk.inj (saves_runEffects key e)).1

theorem contentEffect_discarded {c : String} (h : (contentEffect e).discardedContent = some c) :
    e.discardedContent = some c := by
  unfold contentEffect at h
  split_ifs at h
  · exact Option.eq_some_of_filter_eq_some h
  · exact h

theorem discarded_of_runEffects {c : String}
    (h : (runEffects key e).discardedContent = some c) : e.discardedContent = some c := by
  rw [discarded_runEffects] at h
  have hdiscarded := contentEffect_discarded h
  rwa [takeover_frame] at hdiscarded

theorem Startup.runEffects (h : Startup e) : Startup (runEffects key e) := by
  have hstate := state_runEffects key e
  have hrendered := @rendered_runEffects_eq key e
  have hran : (Editor.runEffects key e).ran = some e.rendered := rfl
  refine ⟨fun hnone => ?_, fun _ => ?_, ?_, fun hi => ?_, ?_, fun hpremise => ?_⟩
  · rw [hran] at hnone
    cases hnone
  · rw [hstate]
    rcases takeover_cases key h with ⟨-, heq⟩ | ⟨hne, heq⟩ | ⟨hne, -, heq⟩ <;> rw [heq]
    · exact (restored_found _ _).1
    · exact h.started hne
    · exact h.started hne
  · rw [hrendered]
    exact h.shown
  · rw [hrendered] at hi
    rw [hrendered, hstate]
    rcases takeover_cases key h with ⟨hnone, -⟩ | ⟨-, heq⟩ | ⟨-, -, heq⟩
    · exact absurd hnone (h.ran_of_initialized hi)
    · rw [heq]
      exact h.found hi
    · rw [heq]
      exact h.found hi
  · rw [hstate]
    rcases takeover_cases key h with ⟨-, heq⟩ | ⟨-, heq⟩ | ⟨-, -, heq⟩ <;> rw [heq]
    · exact (restored_found _ _).2.2.2
    · exact h.recovered
    · exact h.recovered
  · suffices hi : e.rendered.isInitialized = true by
      refine ⟨by rw [hrendered]; exact hi, ?_⟩
      rw [hran, hrendered]
      rfl
    rw [saveInFlight_runEffects, hstate] at hpremise
    have hdiscarded : (Editor.runEffects key e).discardedContent ≠ none →
        e.discardedContent ≠ none := by
      intro hne
      obtain ⟨c, hc⟩ := Option.ne_none_iff_exists'.mp hne
      rw [discarded_of_runEffects hc]
      exact Option.some_ne_none c
    rcases takeover_cases key h with ⟨hnone, heq⟩ | ⟨-, heq⟩ | ⟨-, hi, -⟩
    · rw [heq] at hpremise
      obtain ⟨-, hidle, hflight, hnone⟩ := h.unstarted hnone
      rcases hpremise with hsave | hdelivery | hdisc
      · exact absurd hflight hsave
      · exact absurd ((restored_found _ _).2.1.trans hidle) hdelivery
      · exact absurd hnone (hdiscarded hdisc)
    · rw [heq] at hpremise
      refine (h.adopted ?_).1
      exact hpremise.imp_right (Or.imp_right hdiscarded)
    · exact hi

theorem Delivering.runEffects (h : Startup e) (hd : Delivering e) :
    Delivering (runEffects key e) := by
  have hstate := state_runEffects key e
  refine ⟨fun r hr => ?_, fun call hcall hlive => ?_⟩
  · rw [hstate] at hr ⊢
    rcases takeover_cases key h with ⟨-, heq⟩ | ⟨-, heq⟩ | ⟨-, hi, heq⟩
    · rw [heq] at hr ⊢
      obtain ⟨-, hdelivery, hrequest, -⟩ := restored_found (e.cache.loadDraft key) e.state
      exact hrequest.trans (hd.request r (hdelivery ▸ hr))
    · rw [heq] at hr ⊢
      exact hd.request r hr
    · rw [heq] at hr ⊢
      have hfound := h.found hi
      simp only [View.found, Prod.mk.injEq] at hfound
      unfold takenOver at hr ⊢
      dsimp only at hr ⊢
      cases hsave : e.rendered.recoveredPendingSave with
      | none =>
        rw [hsave] at hr
        cases hr
      | some save =>
        rw [hsave] at hr
        have hid := h.recovered save (hfound.2.2.symm.trans hsave)
        rw [hfound.2.1, ← hid]
        exact Option.some.inj hr
  · rw [saveInFlight_runEffects] at hcall
    have hadopted := h.adopted (.inl (by rw [hcall]; exact Option.some_ne_none call))
    rw [hstate, adoptEffect_of_adopted hadopted]
    exact hd.inFlight call hcall hlive

theorem latest_contentEffect (h : ∀ v, e.ran = some v → e.latestContent = v.content) :
    (contentEffect e).latestContent = e.rendered.content := by
  unfold contentEffect
  split_ifs with hchanged
  · rfl
  · obtain ⟨v, hv, hcontent⟩ := Option.map_eq_some_iff.mp (Decidable.not_not.mp hchanged)
    exact (h v hv).trans hcontent

theorem discarded_contentEffect (h : ∀ v, e.ran = some v → e.latestContent = v.content)
    (hd : ∀ c, e.discardedContent = some c → c = e.latestContent) {c : String}
    (hc : (contentEffect e).discardedContent = some c) : c = e.rendered.content := by
  rw [← latest_contentEffect h]
  unfold contentEffect at hc ⊢
  split_ifs at hc ⊢ with hchanged
  · simpa using (Option.filter_eq_some_iff.mp hc).2
  · exact hd c hc

theorem Kept.save {text : String} {r : Option String} {c : Cache} (h : Kept key text r c)
    {metadata : DraftMetadata} (hs : metadata.savedAt = none) (hr : metadata.requestId = r)
    (hp : metadata.pending = some true) : Kept key text r (c.save key text metadata) := by
  refine ⟨h.notBlank, h.storage, fun p hp' => ?_⟩
  rw [Cache.pendingSaves_save] at hp'
  obtain rfl := Option.some.inj hp'
  exact ⟨rfl, hs, hr, hp⟩

theorem Kept.saveEffect {r : Option String} (h : Kept key e.rendered.content r e.cache)
    (hrendered : e.ran = some e.rendered ∨
      e.rendered.deliveryState.pending = true ∧ e.rendered.requestId = r) :
    Kept key e.rendered.content r (saveEffect key e).cache := by
  unfold Editor.saveEffect
  dsimp only
  split_ifs with hchanged hclear
  · rcases hrendered with hran | ⟨hpending, -⟩
    · rw [hran] at hchanged
      exact absurd rfl hchanged.1
    · exact absurd hpending hclear.2
  · rcases hrendered with hran | ⟨hpending, hrequest⟩
    · rw [hran] at hchanged
      exact absurd rfl hchanged.1
    · exact h.save rfl hrequest (congrArg some hpending)
  · exact h

theorem Recorded.runEffects (hs : Startup e) (h : Recorded key e) :
    Recorded key (runEffects key e) := by
  have hframe := @takeover_frame key e
  have hlatest : (Editor.runEffects key e).latestContent = e.rendered.content := by
    rw [latest_runEffects, hframe]
    exact latest_contentEffect h.latest
  have hdiscarded : ∀ c, (Editor.runEffects key e).discardedContent = some c →
      c = e.rendered.content := by
    intro c hc
    rw [discarded_runEffects, hframe] at hc
    exact discarded_contentEffect
      (e := { e with state := (adoptEffect (initEffect key e)).state }) h.latest h.discarded hc
  refine ⟨fun v hv => ?_, fun c hc => ?_, fun r _ _ => .inl ?_, fun r hr hdisc => ?_⟩
  · obtain rfl := Option.some.inj hv
    exact hlatest
  · rw [hlatest]
    exact hdiscarded c hc
  · rw [rendered_runEffects_eq]
    rfl
  · have hbefore := discarded_of_runEffects hdisc
    rw [hlatest] at hbefore ⊢
    have hsame : e.rendered.content = e.latestContent := h.discarded _ hbefore
    have hadopted := hs.adopted (.inr (.inr (by rw [hbefore]; exact Option.some_ne_none _)))
    have hnone := @adoptEffect_of_adopted key e hadopted
    rw [state_runEffects, hnone] at hr
    have hdiscarded : e.discardedContent = some e.latestContent := by rw [hbefore, hsame]
    have hkept := h.kept r hr hdiscarded
    have hrendered := h.rendered r hr hdiscarded
    have hcache : (Editor.runEffects key e).cache =
        (Editor.saveEffect key (contentEffect (adoptEffect (initEffect key e)))).cache := rfl
    rw [hcache, hnone, contentEffect_frame]
    rw [← hsame] at hkept
    exact Kept.saveEffect (e := { e with
      latestContent := (contentEffect e).latestContent
      discardedContent := (contentEffect e).discardedContent }) hkept hrendered

theorem isInitialized_of_canSave (h : Startup e) (hsave : e.rendered.canSave = true) :
    e.rendered.isInitialized = true := by
  rcases h.shown with hview | hi
  · rw [hview] at hsave
    cases hsave
  · exact hi

theorem kept_of_persisted {now content : String} {r : Option String} {c : Cache} (hnow : now ≠ "")
    (h : (c.saveNow now key content (attemptMetadata now r true (some now))).1 = true) :
    Kept key content r (c.saveNow now key content (attemptMetadata now r true (some now))).2 := by
  have htimer := Cache.pendingSaves_saveNow now key content
    (attemptMetadata now r true (some now)) c
  unfold Cache.saveNow Cache.writeEntry at h htimer ⊢
  split_ifs at h htimer ⊢ with hblank hwritable
  · simp [attemptMetadata] at h
  · have hcontent : Js.isBlank content = false := by
      cases hb : Js.isBlank content with
      | false => rfl
      | true => exact absurd ⟨rfl, hb⟩ hblank
    refine ⟨hcontent, ⟨_, by simp only [update_self]; rfl, pends_entry rfl rfl ?_⟩, fun p hp => ?_⟩
    · exact decide_eq_true hnow
    · rw [htimer] at hp
      cases hp

theorem Recoverable.startSave (h : Recoverable key e) (hsave : e.rendered.canSave = true)
    (hran : e.ran = some e.rendered) {now : String} (hnow : now ≠ "") (uuid : String) :
    Recoverable key (startSave now key e uuid) := by
  obtain ⟨hs, hd, hr⟩ := h
  have hi := isInitialized_of_canSave hs hsave
  refine ⟨⟨fun hnone => ?_, hs.started, hs.shown, hs.found, hs.recovered, fun _ => ⟨hi, ?_⟩⟩,
    ⟨fun r hr => Option.some.inj hr, fun call hcall _ => ?_⟩,
    ⟨hr.latest, hr.discarded, fun _ _ _ => .inl hran, fun r hattempt hdisc => ?_⟩⟩
  · exact absurd (hran.symm.trans hnone) (Option.some_ne_none _)
  · exact congrArg (Option.map View.found) hran
  · obtain rfl := Option.some.inj hcall
    rfl
  · have hlatest : e.latestContent = e.rendered.content := hr.latest e.rendered hran
    have hattempt : SaveDeliveryState.persistedAttempt (.sending (some (e.rendered.requestId.getD uuid))
        now e.rendered.deliveryState.isUnsent (e.cache.saveNow now key e.rendered.content
          (attemptMetadata now (some (e.rendered.requestId.getD uuid)) true (some now))).1) =
        some r := hattempt
    cases hp : (e.cache.saveNow now key e.rendered.content
        (attemptMetadata now (some (e.rendered.requestId.getD uuid)) true (some now))).1 with
    | false =>
      rw [hp] at hattempt
      cases hattempt
    | true =>
      rw [hp] at hattempt
      obtain rfl := Option.some.inj hattempt
      have hkept := kept_of_persisted hnow hp
      rw [← hlatest] at hkept
      exact hlatest ▸ hkept

theorem Recoverable.idle (h : Recoverable key e) (hflight : e'.saveInFlight = none ∨
      ∃ call, e'.saveInFlight = some call ∧ call.invalidating = true)
    (hadopted : Adopted e) (hrendered : e'.rendered = e.rendered) (hran : e'.ran = e.ran)
    (hfound : e'.state.found = e.state.found) (hidle : e'.state.deliveryState = .idle)
    (hlatest : e'.latestContent = e.latestContent)
    (hdisc : ∀ c, e'.discardedContent = some c → c = e.latestContent) : Recoverable key e' := by
  obtain ⟨hs, hd, hr⟩ := h
  simp only [View.found, Prod.mk.injEq] at hfound
  refine ⟨⟨fun hnone => ?_, fun hne => ?_, ?_, fun hi => ?_, fun save hsave => ?_, fun _ => ?_⟩,
    ⟨fun r hr => ?_, fun call hcall hlive => ?_⟩,
    ⟨fun v hv => ?_, fun c hc => ?_, fun r hattempt _ => ?_, fun r hattempt _ => ?_⟩⟩
  · exact absurd (hran.symm.trans hnone) hadopted.ran_ne_none
  · rw [hfound.1]
    exact hs.started (hran ▸ hne)
  · rw [hrendered]
    exact hs.shown
  · rw [hrendered] at hi ⊢
    rw [hs.found hi]
    simp only [View.found, hfound]
  · rw [hfound.2.1]
    exact hs.recovered save (hfound.2.2.symm.trans hsave)
  · refine ⟨by rw [hrendered]; exact hadopted.1, ?_⟩
    rw [hran, hrendered]
    exact hadopted.2
  · rw [hidle] at hr
    cases hr
  · rcases hflight with hnone | ⟨call', hcall', hinv⟩
    · rw [hnone] at hcall
      cases hcall
    · obtain rfl := Option.some.inj (hcall'.symm.trans hcall)
      rw [hinv] at hlive
      cases hlive
  · rw [hlatest]
    exact hr.latest v (hran.symm.trans hv)
  · rw [hlatest]
    exact hdisc c hc
  · rw [hidle] at hattempt
    cases hattempt
  · rw [hidle] at hattempt
    cases hattempt

theorem Recoverable.withCache (h : Recoverable key e) {cache : Cache}
    (hcache : e.discardedContent = some e.latestContent → ∀ r,
      Kept key e.latestContent r e.cache → Kept key e.latestContent r cache) :
    Recoverable key { e with cache := cache } := by
  obtain ⟨hs, hd, hr⟩ := h
  exact ⟨⟨hs.unstarted, hs.started, hs.shown, hs.found, hs.recovered, hs.adopted⟩,
    ⟨hd.request, hd.inFlight⟩, ⟨hr.latest, hr.discarded, hr.rendered,
      fun r hattempt hdisc => hcache hdisc r (hr.kept r hattempt hdisc)⟩⟩

theorem Recoverable.flushDraft (h : Recoverable key e) (now : String) :
    Recoverable key (flushDraft now key e) := by
  unfold Editor.flushDraft
  split_ifs with hdisc
  · exact h
  · exact h.withCache fun hsame => absurd hsame hdisc
  · exact h.withCache fun hsame => absurd hsame hdisc

theorem Recoverable.saveFailed (h : Recoverable key e) {call : SaveCall}
    (hcall : e.saveInFlight = some call) (hlive : call.invalidating = false) (now : String)
    (network : Bool) : Recoverable key (saveFailed now key e network call) := by
  have hadopted := h.startup.adopted (.inl (by rw [hcall]; exact Option.some_ne_none call))
  have hsending := h.delivering.inFlight call hcall hlive
  unfold Editor.saveFailed
  split_ifs with hunsent
  · obtain ⟨hs, hd, hr⟩ := h
    have hattempt : e.state.deliveryState.persistedAttempt = some call.requestId := by
      rw [hsending, hunsent.2]
      rfl
    refine ⟨⟨fun hnone => absurd hnone hadopted.ran_ne_none, hs.started, hs.shown, hs.found,
      hs.recovered, fun _ => hadopted⟩, ⟨fun r hrequest => ?_, fun _ hnone _ => ?_⟩,
      ⟨hr.latest, hr.discarded, fun r hrequest => ?_, fun r hrequest => ?_⟩⟩
    · obtain rfl := Option.some.inj hrequest
      exact hd.request _ (SaveDeliveryState.attempted_of_persisted hattempt).1
    · cases hnone
    · exact hr.rendered r (hattempt.trans hrequest)
    · exact hr.kept r (hattempt.trans hrequest)
  · exact h.idle (.inl rfl) hadopted rfl rfl rfl rfl rfl h.recorded.discarded

theorem startup_mount (cache : Cache) (savedContent : Option String) :
    Startup (mount cache savedContent) where
  unstarted _ := ⟨rfl, rfl, rfl, rfl⟩
  started h := absurd rfl h
  shown := .inl rfl
  found h := by cases h
  recovered save h := by cases h
  adopted h := by
    rcases h with h | h | h
    · exact absurd rfl h
    · exact absurd rfl h
    · exact absurd rfl h

theorem recoverable_mount (cache : Cache) (savedContent : Option String) :
    Recoverable key (mount cache savedContent) where
  startup := startup_mount cache savedContent
  delivering := by
    constructor
    · intro r h
      cases h
    · intro call h
      cases h
  recorded := by
    constructor
    · intro v h
      cases h
    · intro c h
      cases h
    · intro r h
      cases h
    · intro r h
      cases h

theorem Recoverable.render (h : Recoverable key e) (hran : e.ran = some e.rendered) :
    Recoverable key { e with rendered := e.state } := by
  obtain ⟨hs, hd, hr⟩ := h
  have hstarted := hs.started (by rw [hran]; exact Option.some_ne_none _)
  refine ⟨⟨fun hnone => ?_, hs.started, .inr hstarted, fun _ => rfl, hs.recovered,
    fun hpremise => ⟨hstarted, ?_⟩⟩, ⟨hd.request, hd.inFlight⟩,
    ⟨hr.latest, hr.discarded, fun r hattempt _ => .inr ?_, hr.kept⟩⟩
  · exact absurd (hran.symm.trans hnone) (Option.some_ne_none _)
  · have hadopted := hs.adopted hpremise
    rw [← hs.found hadopted.1]
    exact hadopted.2
  · obtain ⟨hrequest, hpending⟩ := SaveDeliveryState.attempted_of_persisted hattempt
    exact ⟨hpending, hd.request r hrequest⟩

theorem Recoverable.step {l : Label} (h : Recoverable key e) (hl : Orderly e l)
    (hstep : step key e l = some e') : Recoverable key e' := by
  have hflight : ∀ call, e.saveInFlight = some call → Adopted e := fun call hcall =>
    h.startup.adopted (.inl (by rw [hcall]; exact Option.some_ne_none call))
  obtain ⟨hs, hd, hr⟩ := id h
  cases l with
  | render =>
    obtain ⟨⟨-, hran⟩, ⟨⟩⟩ := Option.ite_none_right_eq_some.mp hstep
    exact h.render hran
  | runEffects =>
    obtain ⟨-, ⟨⟩⟩ := Option.ite_none_right_eq_some.mp hstep
    exact ⟨hs.runEffects, .runEffects hs hd, .runEffects hs hr⟩
  | edit content =>
    obtain ⟨-, ⟨⟩⟩ := Option.ite_none_right_eq_some.mp hstep
    exact ⟨⟨hs.unstarted, hs.started, hs.shown, hs.found, hs.recovered, hs.adopted⟩,
      ⟨hd.request, hd.inFlight⟩, ⟨hr.latest, hr.discarded, hr.rendered, hr.kept⟩⟩
  | attach hasFiles =>
    obtain ⟨-, ⟨⟩⟩ := Option.ite_none_right_eq_some.mp hstep
    exact ⟨⟨hs.unstarted, hs.started, hs.shown, hs.found, hs.recovered, hs.adopted⟩,
      ⟨hd.request, hd.inFlight⟩, ⟨hr.latest, hr.discarded, hr.rendered, hr.kept⟩⟩
  | startSave now uuid =>
    obtain ⟨⟨-, hsave, -⟩, ⟨⟩⟩ := Option.ite_none_right_eq_some.mp hstep
    exact h.startSave hsave hl.1 hl.2 uuid
  | succeed =>
    cases hcall : e.saveInFlight with
    | none =>
      simp only [Editor.step, hcall] at hstep
      cases hstep
    | some call =>
      simp only [Editor.step, hcall] at hstep
      obtain ⟨-, ⟨⟩⟩ := Option.ite_none_right_eq_some.mp hstep
      exact h.idle (.inr ⟨_, rfl, rfl⟩) (hflight call hcall) rfl rfl rfl rfl rfl
        fun c hc => (Option.some.inj hc).symm
  | unchanged =>
    cases hcall : e.saveInFlight with
    | none =>
      simp only [Editor.step, hcall] at hstep
      cases hstep
    | some call =>
      simp only [Editor.step, hcall] at hstep
      obtain ⟨-, ⟨⟩⟩ := Option.ite_none_right_eq_some.mp hstep
      exact h.idle (.inl rfl) (hflight call hcall) rfl rfl rfl rfl rfl
        fun c hc => (Option.some.inj hc).symm
  | fail now network =>
    cases hcall : e.saveInFlight with
    | none =>
      simp only [Editor.step, hcall] at hstep
      cases hstep
    | some call =>
      simp only [Editor.step, hcall] at hstep
      obtain ⟨⟨-, hlive⟩, ⟨⟩⟩ := Option.ite_none_right_eq_some.mp hstep
      exact h.saveFailed hcall (Bool.not_eq_true _ ▸ hlive) now network
  | invalidated =>
    cases hcall : e.saveInFlight with
    | none =>
      simp only [Editor.step, hcall] at hstep
      cases hstep
    | some call =>
      simp only [Editor.step, hcall] at hstep
      obtain ⟨-, ⟨⟩⟩ := Option.ite_none_right_eq_some.mp hstep
      have hadopted := hflight call hcall
      exact ⟨⟨fun hnone => absurd hnone hadopted.ran_ne_none, hs.started, hs.shown, hs.found,
        hs.recovered, fun _ => hadopted⟩, ⟨hd.request, fun _ hnone => by cases hnone⟩,
        ⟨hr.latest, hr.discarded, hr.rendered, hr.kept⟩⟩
  | timeout now =>
    obtain ⟨cache, hcache, ⟨⟩⟩ := Option.map_eq_some_iff.mp hstep
    exact h.withCache fun _ r hkept => hkept.timeout hl hcache
  | hide now =>
    obtain ⟨-, ⟨⟩⟩ := Option.ite_none_right_eq_some.mp hstep
    exact h.flushDraft now
  | unmount now =>
    obtain ⟨-, ⟨⟩⟩ := Option.ite_none_right_eq_some.mp hstep
    have hunmounted : ∀ {e : MemoEditor}, Recoverable key e →
        Recoverable key { e with mounted := false } := by
      rintro e ⟨hs, hd, hr⟩
      exact ⟨⟨hs.unstarted, hs.started, hs.shown, hs.found, hs.recovered, hs.adopted⟩,
        ⟨hd.request, hd.inFlight⟩, ⟨hr.latest, hr.discarded, hr.rendered, hr.kept⟩⟩
    split
    · exact hunmounted (h.flushDraft now)
    · exact hunmounted h
  | reload =>
    cases hstep
    exact recoverable_mount _ _
  | setWritable writable =>
    cases hstep
    exact h.withCache fun _ r hkept => ⟨hkept.notBlank, hkept.storage, hkept.timer⟩

theorem mounted_runEffects : (runEffects key e).mounted = e.mounted := by
  have hsave := congrArg (·.mounted)
    (saveEffect_frame key (contentEffect (adoptEffect (initEffect key e))))
  have hcontent := congrArg (·.mounted) (contentEffect_frame (adoptEffect (initEffect key e)))
  exact hsave.trans (hcontent.trans (mounted_adoptEffect key e))

theorem run_newPage {c : Cache} {draft : Draft} {text : String} {r : Option String}
    (hdraft : c.storage key = some draft) (hp : Pends text r draft) (savedContent : Option String) :
    ∃ e' savedAt, (system key).run (mount c savedContent) [.runEffects, .render, .runEffects] =
        some e' ∧ e'.state.content = text ∧ e'.state.requestId = r ∧
      e'.state.deliveryState = .unsent r savedAt := by
  generalize hfirst : runEffects key (mount c savedContent) = first
  have hstate : first.state = restored (some draft) initialView := by
    have hload : (mount c savedContent).cache.loadDraft key = some draft := hdraft
    rw [← hfirst, state_runEffects]
    rcases takeover_cases key (@recoverable_mount key c savedContent).startup with
      ⟨-, heq⟩ | ⟨hne, -⟩ | ⟨hne, -⟩
    · rw [heq, hload]
      rfl
    · exact absurd rfl hne
    · exact absurd rfl hne
  have hrendered : first.rendered = initialView := by
    rw [← hfirst, rendered_runEffects_eq]
    rfl
  have hran : first.ran = some initialView := by rw [← hfirst]; rfl
  have hmounted : first.mounted = true := by
    rw [← hfirst, mounted_runEffects]
    rfl
  have htruthy : Js.truthy draft.attemptedAt = true ∨ Js.truthy draft.savedAt = true :=
    .inr hp.savedAt
  have hlast : (runEffects key { first with rendered := first.state }).state =
      takenOver { first with rendered := first.state } := by
    have hinit : initEffect key { first with rendered := first.state } =
        { first with rendered := first.state } := by
      unfold initEffect
      rw [if_neg]
      rintro ⟨hnone, -⟩
      rw [hran] at hnone
      cases hnone
    rw [state_runEffects, hinit]
    unfold adoptEffect
    dsimp only
    rw [if_pos]
    · rfl
    · rw [hran, hstate]
      exact ⟨fun h => Bool.noConfusion (Prod.mk.inj (Option.some.inj h)).1, rfl⟩
  refine ⟨runEffects key { first with rendered := first.state },
    (draft.attemptedAt.or draft.savedAt).getD "", ?_, ?_, ?_, ?_⟩
  · have heffects : (system key).step (mount c savedContent) .runEffects = some first := by
      rw [← hfirst]
      rfl
    have hrender : (system key).step first .render =
        some { first with rendered := first.state } :=
      if_pos ⟨hmounted, hran.trans (hrendered ▸ rfl)⟩
    rw [LabelledSystem.run_cons heffects, LabelledSystem.run_cons hrender]
    exact LabelledSystem.run_cons (if_pos hmounted) []
  · rw [hlast]
    unfold takenOver
    rw [hstate]
    exact hp.content
  · rw [hlast]
    unfold takenOver
    rw [hstate]
    exact hp.requestId
  · rw [hlast]
    unfold takenOver
    rw [hstate]
    simp only [restored, hp.pending, htruthy, and_self, if_true, hp.requestId]

theorem flushDraft_pends (h : Recoverable key e) (hsettled : Settled e)
    (hwritable : e.cache.writable = true) {r : Option String}
    (hattempt : e.state.deliveryState.persistedAttempt = some r)
    (htext : Js.isBlank e.state.content = false) {now : String} (hnow : now ≠ "") :
    ∃ draft, (flushDraft now key e).cache.storage key = some draft ∧
      Pends e.state.content r draft := by
  obtain ⟨hrendered, hran⟩ := hsettled
  obtain ⟨hrequest, hpending⟩ := SaveDeliveryState.attempted_of_persisted hattempt
  have hlatest : e.latestContent = e.state.content := by
    rw [h.recorded.latest _ hran, hrendered]
  unfold flushDraft
  split_ifs with hdisc hclear
  · rw [← hlatest]
    exact (h.recorded.kept r hattempt hdisc).storage
  · rw [hrendered] at hclear
    exact absurd hpending hclear.2
  · unfold Cache.saveNow Cache.writeEntry
    rw [hlatest, htext, if_neg (by simp), if_pos (by exact hwritable)]
    refine ⟨_, by simp only [update_self]; rfl, pends_entry ?_ ?_ ?_⟩
    · rw [hrendered]
      exact h.delivering.request r hrequest
    · rw [hrendered]
      exact congrArg some hpending
    · exact decide_eq_true hnow

/-- Reloading the page restores the latest text with the id and the mark of an attempt that is not
confirmed, if the storage accepts the text when the page is hidden. -/
theorem pendingDraft_survives (key : String) {e : MemoEditor}
    (h : (system key).Reaches Orderly e) (hmounted : e.mounted = true) (hsettled : Settled e)
    (hwritable : e.cache.writable = true) {r : Option String}
    (hattempt : e.state.deliveryState.persistedAttempt = some r)
    (htext : Js.isBlank e.state.content = false) {now : String} (hnow : now ≠ "") :
    RestoredBy key now e r := by
  have hrec : Recoverable key e := by
    refine h.invariant ?_ fun _ _ _ hi hl hs => hi.step hl hs
    rintro _ ⟨cache, rfl⟩
    exact recoverable_mount cache none
  obtain ⟨draft, hdraft, hp⟩ := flushDraft_pends hrec hsettled hwritable hattempt htext hnow
  obtain ⟨-, hran⟩ := hsettled
  have hlistening : e.listening = true := by
    have hpending : e.state.deliveryState ≠ .idle := by
      intro hidle
      rw [hidle] at hattempt
      cases hattempt
    have hadopted := hrec.startup.adopted (.inr (.inl hpending))
    unfold MemoEditor.listening
    rw [hran]
    exact hadopted.1
  have hhide : (system key).step e (.hide now) = some (flushDraft now key e) :=
    if_pos ⟨hmounted, hlistening⟩
  obtain ⟨e', savedAt, hrun, hrestored⟩ := @run_newPage key
    { (flushDraft now key e).cache with pendingSaves := fun _ => none } draft _ r hdraft hp
    (flushDraft now key e).savedContent
  refine ⟨e', savedAt, ?_, hrestored⟩
  rw [reloadPage, LabelledSystem.run_cons hhide]
  exact (LabelledSystem.run_cons rfl _).trans hrun

end steps

section examples

def saveFails : List Label :=
  [.runEffects, .render, .runEffects, .edit "Hello", .render, .runEffects,
    .startSave "09:00" "id", .render, .runEffects, .fail "09:01" true, .render, .runEffects]

theorem pendingDraft_survives_edit :
    ∃ e, (system homeKey).run (mount emptyCache none)
        (saveFails ++ [.edit "Hello world", .render, .runEffects, .timeout "09:02"]) = some e ∧
      e.state.content = "Hello world" ∧ RestoredBy homeKey "09:03" e (some "id") := by
  have hrun : ∃ e, (system homeKey).run (mount emptyCache none)
        (saveFails ++ [.edit "Hello world", .render, .runEffects, .timeout "09:02"]) = some e ∧
      e.mounted = true ∧ Settled e ∧ e.cache.writable = true ∧
      e.state.deliveryState.persistedAttempt = some (some "id") ∧
      e.state.content = "Hello world" := ⟨_, rfl, rfl, ⟨rfl, rfl⟩, rfl, rfl, rfl⟩
  have hm : (system homeKey).Meets Orderly (mount emptyCache none)
      (saveFails ++ [.edit "Hello world", .render, .runEffects, .timeout "09:02"]) := by
    refine ⟨trivial, trivial, trivial, trivial, trivial, trivial, ⟨rfl, by decide⟩, trivial, trivial,
      trivial, trivial, trivial, trivial, trivial, trivial, ?_, trivial⟩
    exact (by decide : "09:02" ≠ "")
  obtain ⟨e, he, hmounted, hsettled, hwritable, hattempt, hcontent⟩ := hrun
  refine ⟨e, he, hcontent, ?_⟩
  exact pendingDraft_survives homeKey (.run (.init ⟨_, rfl⟩) hm he) hmounted hsettled hwritable
    hattempt (by rw [hcontent]; decide) (by decide)

def draftCache : Cache where
  storage := update (fun _ => none) homeKey
    (some (Cache.entry "08:00" "Hello" (attemptMetadata "08:00" (some "old") false none)))
  pendingSaves _ := none
  writable := true

/-- The text is lost when the storage is full or when the page is hidden before the text is
rendered, and the id when a draft is saved before the editor has taken over its id. -/
theorem pendingDraft_lost :
    (∃ e e', (system homeKey).run (mount emptyCache none)
        (saveFails ++ [.setWritable false, .edit "Hello world", .render, .runEffects]) = some e ∧
      e.mounted = true ∧ Settled e ∧
      e.state.deliveryState.persistedAttempt = some (some "id") ∧
      e.state.content = "Hello world" ∧
      (system homeKey).run e (reloadPage "09:03") = some e' ∧ e'.state.content = "Hello") ∧
    (∃ e e', (system homeKey).run (mount emptyCache none) (saveFails ++ [.edit "Hello world"]) =
        some e ∧
      e.mounted = true ∧ e.cache.writable = true ∧
      e.state.deliveryState.persistedAttempt = some (some "id") ∧
      e.state.content = "Hello world" ∧
      (system homeKey).run e (reloadPage "09:03") = some e' ∧ e'.state.content = "Hello") ∧
    ∃ e e', (system homeKey).run (mount draftCache none) [.runEffects, .render,
        .startSave "09:00" "new", .runEffects, .render, .runEffects, .fail "09:01" true, .render,
        .runEffects] = some e ∧
      e.mounted = true ∧ Settled e ∧ e.cache.writable = true ∧
      e.state.deliveryState.persistedAttempt = some (some "new") ∧
      e.state.content = "Hello" ∧
      (system homeKey).run e (reloadPage "09:03") = some e' ∧ e'.state.requestId = some "old" :=
  ⟨⟨_, _, rfl, rfl, ⟨rfl, rfl⟩, rfl, rfl, rfl, rfl⟩,
    ⟨_, _, rfl, rfl, rfl, rfl, rfl, rfl, rfl⟩,
    ⟨_, _, rfl, rfl, ⟨rfl, rfl⟩, rfl, rfl, rfl, rfl, rfl⟩⟩

end examples

end Memoark.Editor
