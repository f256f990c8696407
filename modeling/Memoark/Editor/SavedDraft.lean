import Memoark.Editor.Session

/-! What becomes of the text of a create save that has succeeded. -/
namespace Memoark.Editor
open Memoark.System

section text

variable (key saved : String)

def NotCached (e : MemoEditor) : Prop :=
  ∀ draft, e.cache.storage key = some draft → draft.content ≠ saved

/-- No effect, flush or retry is about to write the text. -/
structure Released (e : MemoEditor) : Prop where
  state : e.mounted = true → e.state.content = saved →
    e.rendered.content = saved ∧ e.state.saving = true
  rendered : e.mounted = true → e.rendered.content = saved →
    e.latestContent = saved ∧ e.rendered.saving = true
  latest : e.latestContent = saved → e.discardedContent = some saved
  call : ∀ call, e.saveInFlight = some call → call.invalidating = false →
    call.content ≠ saved ∧ (e.mounted = true → e.state.content ≠ saved)

/-- A timer that would write the text was started by the effects of a render that is still the
last one with effects. -/
def TimerOf (e : MemoEditor) (p : PendingSave) : Prop :=
  p.content = saved →
    e.latestContent = saved ∧ e.state.isInitialized = true ∧ e.rendered.isInitialized = true

/-- The text is not cached, and no step but a timer will cache it. -/
structure Forgotten (e : MemoEditor) : Prop where
  notCached : NotCached key saved e
  mode : ∀ p, e.cache.pendingSaves key = some p → p.metadata.mode = some .create
  released : Js.isBlank saved = false → Released saved e
  pending : Js.isBlank saved = false → ∀ p, e.cache.pendingSaves key = some p → TimerOf saved e p

end text

structure Coherent (e : MemoEditor) : Prop where
  initialized : e.rendered.isInitialized = true → e.state.isInitialized = true
  unstarted : e.ran = none → e.rendered = initialView ∧ e.saveInFlight = none
  saving : e.saveInFlight.isSome → e.state.saving = true

/-- The saved text has been rendered and its effects have run, where the editor holds it. -/
structure UpToDate (e : MemoEditor) (saved : String) : Prop where
  rendered : e.state.content = saved → e.rendered.content = saved
  latest : e.rendered.content = saved → e.latestContent = saved

/-- No timer writes the saved text while it is discarded, and no edit that restores the saved text
waits for its effects when the save succeeds. -/
def NoLateWrite (key : String) (e : MemoEditor) : Label → Prop
  | .succeed => ∀ call, e.saveInFlight = some call → e.mounted = true → UpToDate e call.content
  | .timeout _ => ∀ p, e.cache.pendingSaves key = some p →
      e.discardedContent = some e.latestContent → e.savedContent ≠ some p.content
  | _ => True

def NeverCachedAgain (key : String) (e : MemoEditor) : Prop :=
  ∀ saved, e.savedContent = some saved → NotCached key saved e

section writes

variable {key saved : String} {e : MemoEditor}

theorem not_blank_empty {saved : String} (h : Js.isBlank saved = false) : saved ≠ "" := by
  rintro rfl
  exact absurd h (by decide)

theorem NotCached.write {now content : String} {metadata : DraftMetadata} {c : Cache}
    (h : ∀ draft, c.storage key = some draft → draft.content ≠ saved)
    (hmode : metadata.mode = some .create)
    (hcontent : Js.isBlank saved = false → content ≠ saved) :
    ∀ draft, (c.writeEntry now key content metadata).2.storage key = some draft →
      draft.content ≠ saved := by
  intro draft hdraft
  rcases Cache.storage_writeEntry hmode hdraft with hold | ⟨rfl, hblank⟩
  · exact h draft hold
  · intro heq
    subst heq
    exact hcontent hblank rfl

theorem Forgotten.of_noTimer (hcached : NotCached key saved e)
    (htimer : e.cache.pendingSaves key = none)
    (hreleased : Js.isBlank saved = false → Released saved e) : Forgotten key saved e where
  notCached := hcached
  mode := by simp [htimer]
  released := hreleased
  pending := by simp [htimer]

theorem notCached_clear {c : Cache} :
    ∀ draft, (c.clear key).storage key = some draft → draft.content ≠ saved := by simp

theorem Forgotten.flush (h : Forgotten key saved e) (now : String) :
    Forgotten key saved (flushDraft now key e) := by
  unfold flushDraft
  split_ifs with hdiscarded hempty
  · exact h
  · refine .of_noTimer notCached_clear (by simp) fun hb => ?_
    obtain ⟨hstate, hrendered, hlatest, hcall⟩ := h.released hb
    exact ⟨hstate, hrendered, hlatest, hcall⟩
  · have hne : Js.isBlank saved = false → e.latestContent ≠ saved := by
      intro hb heq
      have hdisc := (h.released hb).latest heq
      rw [heq] at hdiscarded
      exact hdiscarded hdisc
    refine .of_noTimer (NotCached.write h.notCached rfl hne) (by simp) fun hb => ?_
    obtain ⟨hstate, hrendered, hlatest, hcall⟩ := h.released hb
    exact ⟨hstate, hrendered, hlatest, hcall⟩

end writes

section effects

variable {key saved : String} {e : MemoEditor}

theorem restored_content {cachedDraft : Option Draft} {v : View}
    (h : ∀ draft, cachedDraft = some draft → draft.content ≠ saved) (hne : saved ≠ "") :
    (restored cachedDraft v).content ≠ saved := by
  cases cachedDraft with
  | none => exact hne.symm
  | some draft => exact h draft rfl

@[simp] theorem restored_isInitialized (cachedDraft : Option Draft) (v : View) :
    (restored cachedDraft v).isInitialized = true := by
  cases cachedDraft <;> rfl

theorem Forgotten.initEffect (h : Forgotten key saved e) (hc : Coherent e) :
    Forgotten key saved (initEffect key e) := by
  unfold Editor.initEffect
  split_ifs with hfirst
  · have hcall := (hc.unstarted (Option.isNone_iff_eq_none.mp hfirst.1)).2
    refine ⟨h.notCached, h.mode, fun hb => ?_, fun hb p hp hcontent => ?_⟩
    · have hne := restored_content (v := e.state) h.notCached (not_blank_empty hb)
      refine ⟨fun _ heq => absurd heq hne, (h.released hb).rendered, (h.released hb).latest, ?_⟩
      intro call hsome
      rw [hcall] at hsome
      cases hsome
    · obtain ⟨hlatest, _, hrendered⟩ := h.pending hb p hp hcontent
      exact ⟨hlatest, restored_isInitialized _ _, hrendered⟩
  · exact h

theorem Forgotten.adoptEffect (h : Forgotten key saved e) :
    Forgotten key saved (adoptEffect e) := by
  unfold Editor.adoptEffect
  dsimp only
  split_ifs
  · refine ⟨h.notCached, h.mode, fun hb => ?_, fun hb p hp => h.pending hb p hp⟩
    obtain ⟨hstate, hrendered, hlatest, hcall⟩ := h.released hb
    exact ⟨hstate, hrendered, hlatest, hcall⟩
  · exact h

theorem Released.contentEffect (h : Released saved e) (hm : e.mounted = true) :
    Released saved (contentEffect e) := by
  unfold Editor.contentEffect
  split_ifs
  · refine ⟨h.state, fun _ heq => ⟨heq, (h.rendered hm heq).2⟩, fun heq => ?_, h.call⟩
    -- the text is rendered, so it was discarded before and still is
    have hlatest := (h.rendered hm heq).1
    have hdisc := h.latest hlatest
    simpa [hdisc] using Eq.symm heq
  · exact h

section frames

variable (key) (e : MemoEditor)

theorem initEffect_frame : initEffect key e = { e with state := (initEffect key e).state } := by
  unfold initEffect
  split_ifs <;> rfl

theorem adoptEffect_frame : adoptEffect e = { e with state := (adoptEffect e).state } := by
  unfold adoptEffect
  dsimp only
  split_ifs <;> rfl

theorem contentEffect_frame : contentEffect e = { e with
    latestContent := (contentEffect e).latestContent
    discardedContent := (contentEffect e).discardedContent } := by
  unfold contentEffect
  split_ifs <;> rfl

theorem saveEffect_frame : saveEffect key e = { e with cache := (saveEffect key e).cache } := by
  unfold saveEffect
  dsimp only
  split_ifs <;> rfl

theorem state_runEffects :
    (runEffects key e).state = (adoptEffect (initEffect key e)).state := by
  have hcontent := contentEffect_frame (adoptEffect (initEffect key e))
  have hsave := saveEffect_frame key (contentEffect (adoptEffect (initEffect key e)))
  exact (congrArg (·.state) hsave).trans (congrArg (·.state) hcontent)

theorem rendered_runEffects :
    (runEffects key e).rendered = (adoptEffect (initEffect key e)).rendered := by
  have hcontent := contentEffect_frame (adoptEffect (initEffect key e))
  have hsave := saveEffect_frame key (contentEffect (adoptEffect (initEffect key e)))
  exact (congrArg (·.rendered) hsave).trans (congrArg (·.rendered) hcontent)

theorem saves_runEffects :
    ((runEffects key e).saveInFlight, (runEffects key e).savedContent) =
      (e.saveInFlight, e.savedContent) := by
  let saves := fun e : MemoEditor => (e.saveInFlight, e.savedContent)
  have hinit : saves (initEffect key e) = saves e := by rw [initEffect_frame]
  have hadopt : saves (adoptEffect (initEffect key e)) = saves (initEffect key e) := by
    rw [adoptEffect_frame]
  have hcontent : saves (contentEffect (adoptEffect (initEffect key e))) =
      saves (adoptEffect (initEffect key e)) := by rw [contentEffect_frame]
  have hsave : saves (saveEffect key (contentEffect (adoptEffect (initEffect key e)))) =
      saves (contentEffect (adoptEffect (initEffect key e))) := by rw [saveEffect_frame]
  exact hsave.trans (hcontent.trans (hadopt.trans hinit))

theorem mounted_adoptEffect : (adoptEffect (initEffect key e)).mounted = e.mounted := by
  have hadopt := congrArg (·.mounted) (adoptEffect_frame (initEffect key e))
  have hinit := congrArg (·.mounted) (initEffect_frame key e)
  exact hadopt.trans hinit

end frames

theorem Forgotten.autoSave (h : Forgotten key saved e)
    (hc : e.rendered.isInitialized = true → e.state.isInitialized = true) (hm : e.mounted = true) :
    Forgotten key saved (saveEffect key (contentEffect e)) := by
  have hreleased := fun hb => (h.released hb).contentEffect hm
  have hcache : (contentEffect e).cache = e.cache := congrArg (·.cache) (contentEffect_frame e)
  have hstate : (contentEffect e).state = e.state := congrArg (·.state) (contentEffect_frame e)
  have hrendered : (contentEffect e).rendered = e.rendered :=
    congrArg (·.rendered) (contentEffect_frame e)
  have hran : (contentEffect e).ran = e.ran := congrArg (·.ran) (contentEffect_frame e)
  have hmounted : (contentEffect e).mounted = true :=
    (congrArg (·.mounted) (contentEffect_frame e)).trans hm
  have hsame : e.ran.map (·.content) = some e.rendered.content →
      (contentEffect e).latestContent = e.latestContent := by
    intro heq
    rw [contentEffect, if_neg fun hne => hne heq]
  revert hreleased hcache hstate hrendered hran hmounted hsame
  generalize contentEffect e = e₁
  intro hreleased hcache hstate hrendered hran hmounted hsame
  unfold saveEffect
  dsimp only
  split_ifs with hdeps hempty
  · refine .of_noTimer notCached_clear (by simp) fun hb => ?_
    obtain ⟨hst, hre, hlatest, hcall⟩ := hreleased hb
    exact ⟨hst, hre, hlatest, hcall⟩
  · refine ⟨?_, fun p hp => ?_, fun hb => ?_, fun hb p hp hcontent => ?_⟩
    · rw [NotCached, Cache.storage_save, hcache]
      exact h.notCached
    · obtain rfl : _ = p := by simpa using hp
      rfl
    · obtain ⟨hst, hre, hlatest, hcall⟩ := hreleased hb
      exact ⟨hst, hre, hlatest, hcall⟩
    · obtain rfl : _ = p := by simpa using hp
      have hlatest := ((hreleased hb).rendered hmounted hcontent).1
      have hinit := hdeps.2
      refine ⟨hlatest, ?_, hinit⟩
      rw [hrendered] at hinit
      simpa only [hstate] using hc hinit
  · refine ⟨by rw [NotCached, hcache]; exact h.notCached, by rw [hcache]; exact h.mode, hreleased,
      fun hb p hp hcontent => ?_⟩
    rw [hcache] at hp
    obtain ⟨hlatest, hst, hinit⟩ := h.pending hb p hp hcontent
    -- the text has not changed, for `saveEffect` would have run
    have hdeps := Decidable.not_not.mp (not_and'.mp hdeps (by rw [hrendered]; exact hinit))
    obtain ⟨v, hv, heq⟩ := Option.map_eq_some_iff.mp hdeps
    have hcontent : e.ran.map (·.content) = some e.rendered.content := by
      rw [← hran, hv, ← hrendered]
      exact congrArg some (Prod.mk.inj heq).1
    refine ⟨?_, ?_, ?_⟩
    · rw [hsame hcontent]
      exact hlatest
    · rw [hstate]
      exact hst
    · rw [hrendered]
      exact hinit

theorem Coherent.beforeAutoSave (hc : Coherent e) :
    (adoptEffect (initEffect key e)).rendered.isInitialized = true →
      (adoptEffect (initEffect key e)).state.isInitialized = true := by
  have hinit : (Editor.initEffect key e).rendered.isInitialized = true →
      (Editor.initEffect key e).state.isInitialized = true := by
    unfold Editor.initEffect
    split_ifs
    · exact fun _ => restored_isInitialized _ _
    · exact hc.initialized
  unfold Editor.adoptEffect
  dsimp only
  split_ifs <;> exact hinit

theorem Forgotten.runEffects (h : Forgotten key saved e) (hc : Coherent e)
    (hm : e.mounted = true) : Forgotten key saved (runEffects key e) := by
  obtain ⟨hcached, hmode, hreleased, hpending⟩ :=
    (h.initEffect hc).adoptEffect.autoSave hc.beforeAutoSave ((mounted_adoptEffect key e).trans hm)
  refine ⟨hcached, hmode, fun hb => ?_, hpending⟩
  obtain ⟨hst, hre, hlatest, hcall⟩ := hreleased hb
  exact ⟨hst, hre, hlatest, hcall⟩

theorem Coherent.runEffects (hc : Coherent e) : Coherent (runEffects key e) where
  initialized := by
    rw [state_runEffects, rendered_runEffects]
    exact hc.beforeAutoSave
  unstarted := nofun
  saving := by
    rw [(Prod.mk.inj (saves_runEffects key e)).1, state_runEffects]
    intro hsome
    have hran : e.ran ≠ none := by
      intro hran
      rw [(hc.unstarted hran).2] at hsome
      cases hsome
    have hsaving := hc.saving hsome
    have hinit : (initEffect key e).state.saving = true := by
      rw [initEffect, if_neg fun h => hran (Option.isNone_iff_eq_none.mp h.1)]
      exact hsaving
    unfold adoptEffect
    dsimp only
    split_ifs <;> exact hinit

end effects

section steps

variable {key saved : String} {e e' : MemoEditor}

structure Inv (key : String) (e : MemoEditor) : Prop where
  coherent : Coherent e
  forgotten : ∀ saved, e.savedContent = some saved → Forgotten key saved e

theorem Forgotten.render (h : Forgotten key saved e) (hm : e.mounted = true) :
    Forgotten key saved { e with rendered := e.state } := by
  refine ⟨h.notCached, h.mode, fun hb => ?_, fun hb p hp hcontent => ?_⟩
  · obtain ⟨hstate, hrendered, hlatest, hcall⟩ := h.released hb
    refine ⟨fun _ heq => ⟨heq, (hstate hm heq).2⟩, fun _ heq => ?_, hlatest, hcall⟩
    obtain ⟨heq', hsaving⟩ := hstate hm heq
    exact ⟨(hrendered hm heq').1, hsaving⟩
  · obtain ⟨hlatest, hinit, _⟩ := h.pending hb p hp hcontent
    exact ⟨hlatest, hinit, hinit⟩

theorem Forgotten.attach (h : Forgotten key saved e) (hasFiles : Bool) :
    Forgotten key saved { e with state := { e.state with hasFiles := hasFiles } } := by
  refine ⟨h.notCached, h.mode, fun hb => ?_, fun hb p hp => h.pending hb p hp⟩
  obtain ⟨hstate, hrendered, hlatest, hcall⟩ := h.released hb
  exact ⟨hstate, hrendered, hlatest, hcall⟩

theorem Forgotten.startSave (h : Forgotten key saved e) (hm : e.mounted = true)
    (hsave : e.rendered.canSave = true) (now uuid : String) :
    Forgotten key saved (startSave now key e uuid) := by
  have hsaving : e.rendered.saving = false := by
    simp only [View.canSave, Bool.and_eq_true, Bool.not_eq_true'] at hsave
    exact hsave.2
  have hne : Js.isBlank saved = false → e.rendered.content ≠ saved := by
    intro hb heq
    have hlocked := ((h.released hb).rendered hm heq).2
    rw [hsaving] at hlocked
    cases hlocked
  refine .of_noTimer (NotCached.write h.notCached rfl hne) (Cache.pendingSaves_saveNow ..) fun hb => ?_
  obtain ⟨hstate, hrendered, hlatest, hcall⟩ := h.released hb
  refine ⟨fun _ heq => ⟨(hstate hm heq).1, rfl⟩, hrendered, hlatest, ?_⟩
  intro call hsome _
  obtain rfl := Option.some.inj hsome
  exact ⟨hne hb, fun _ heq => hne hb (hstate hm heq).1⟩

theorem Forgotten.saveSucceeded {call : SaveCall} (hc : Coherent e)
    (hcall : e.saveInFlight = some call) (hanswer : e.answerable = true)
    (hup : e.mounted = true → UpToDate e call.content) :
    Forgotten key call.content (saveSucceeded key e call) := by
  refine .of_noTimer notCached_clear (Cache.pendingSaves_clear ..) fun _ => ?_
  have hsaving := hc.saving (by rw [hcall]; rfl)
  refine ⟨fun hm heq => ⟨(hup hm).rendered heq, hsaving⟩, fun hm heq => ⟨(hup hm).latest heq, ?_⟩,
    fun heq => congrArg some heq, ?_⟩
  · have hm : e.mounted = true := hm
    have hlocked : e.rendered.saving = true := by
      simpa [MemoEditor.answerable, hm] using hanswer
    exact hlocked
  · intro call' hsome hnot
    obtain rfl := Option.some.inj hsome
    cases hnot

theorem Forgotten.saveUnchanged (h : Forgotten key saved e) {call : SaveCall}
    (hcall : e.saveInFlight = some call) (hnot : call.invalidating = false) :
    Forgotten key saved (saveUnchanged key e) := by
  refine .of_noTimer notCached_clear (Cache.pendingSaves_clear ..) fun hb => ?_
  obtain ⟨hstate, hrendered, hlatest, hothers⟩ := h.released hb
  have hne := (hothers call hcall hnot).2
  exact ⟨fun hm heq => absurd heq (hne hm), hrendered, fun heq => congrArg some heq, nofun⟩

theorem Forgotten.saveFailed (h : Forgotten key saved e) {call : SaveCall}
    (hcall : e.saveInFlight = some call) (hnot : call.invalidating = false) (now : String)
    (network : Bool) : Forgotten key saved (saveFailed now key e network call) := by
  unfold Editor.saveFailed
  split_ifs
  · refine ⟨h.notCached, h.mode, fun hb => ?_, fun hb p hp => h.pending hb p hp⟩
    obtain ⟨hstate, hrendered, hlatest, hothers⟩ := h.released hb
    have hne := (hothers call hcall hnot).2
    exact ⟨fun hm heq => absurd heq (hne hm), hrendered, hlatest, nofun⟩
  · have hcontent : Js.isBlank saved = false → call.content ≠ saved :=
      fun hb => ((h.released hb).call call hcall hnot).1
    refine .of_noTimer (NotCached.write h.notCached rfl hcontent) (Cache.pendingSaves_saveNow ..)
      fun hb => ?_
    obtain ⟨hstate, hrendered, hlatest, hothers⟩ := h.released hb
    have hne := (hothers call hcall hnot).2
    exact ⟨fun hm heq => absurd heq (hne hm), hrendered, hlatest, nofun⟩

theorem Forgotten.resetEditor (h : Forgotten key saved e) :
    Forgotten key saved (resetEditor e) := by
  refine ⟨h.notCached, h.mode, fun hb => ?_, fun hb p hp => h.pending hb p hp⟩
  obtain ⟨hstate, hrendered, hlatest, hcall⟩ := h.released hb
  exact ⟨fun _ heq => absurd heq.symm (not_blank_empty hb), hrendered, hlatest, nofun⟩

theorem Forgotten.timeout (h : Forgotten key saved e) {now : String} {cache : Cache}
    (htimeout : e.cache.timeout now key = some cache)
    (hlate : ∀ p, e.cache.pendingSaves key = some p →
      e.discardedContent = some e.latestContent → p.content ≠ saved) :
    Forgotten key saved { e with cache := cache } := by
  unfold Cache.timeout at htimeout
  split at htimeout
  · rename_i p hp
    obtain rfl := Option.some.inj htimeout
    have hne : Js.isBlank saved = false → p.content ≠ saved := by
      intro hb heq
      have hlatest := (h.pending hb p hp heq).1
      have hdisc := (h.released hb).latest hlatest
      exact hlate p hp (by rw [hdisc, hlatest]) heq
    refine .of_noTimer (NotCached.write h.notCached (h.mode p hp) hne) ?_ fun hb => ?_
    · simp [Cache.clearTimeout]
    · obtain ⟨hstate, hrendered, hlatest, hcall⟩ := h.released hb
      exact ⟨hstate, hrendered, hlatest, hcall⟩
  · cases htimeout

theorem Forgotten.unmount (h : Forgotten key saved e) :
    Forgotten key saved { e with mounted := false } := by
  refine ⟨h.notCached, h.mode, fun hb => ?_, fun hb p hp => h.pending hb p hp⟩
  obtain ⟨_, _, hlatest, hcall⟩ := h.released hb
  exact ⟨nofun, nofun, hlatest, fun call hsome hnot => ⟨(hcall call hsome hnot).1, nofun⟩⟩

theorem Forgotten.reload (h : Forgotten key saved e) (savedContent : Option String) :
    Forgotten key saved (mount { e.cache with pendingSaves := fun _ => none } savedContent) := by
  refine .of_noTimer h.notCached rfl fun hb => ?_
  have hne := not_blank_empty hb
  exact ⟨fun _ heq => absurd heq.symm hne, fun _ heq => absurd heq.symm hne,
    fun heq => absurd heq.symm hne, nofun⟩

theorem Coherent.startSave (hc : Coherent e) (hsave : e.rendered.canSave = true)
    (now uuid : String) : Coherent (startSave now key e uuid) where
  initialized := hc.initialized
  unstarted := by
    intro hran
    rw [(hc.unstarted hran).1] at hsave
    exact absurd hsave (by decide)
  saving := fun _ => rfl

theorem Coherent.flush (hc : Coherent e) (now : String) : Coherent (flushDraft now key e) := by
  obtain ⟨hinit, hun, hsaving⟩ := hc
  unfold flushDraft
  split_ifs <;> exact ⟨hinit, hun, hsaving⟩

theorem Coherent.saveFailed (hc : Coherent e) (now : String) (network : Bool) (call : SaveCall) :
    Coherent (saveFailed now key e network call) := by
  obtain ⟨hinit, hun, hsaving⟩ := hc
  unfold Editor.saveFailed
  split_ifs <;> exact ⟨hinit, fun hran => ⟨(hun hran).1, rfl⟩, nofun⟩

theorem savedContent_flushDraft (now : String) :
    (flushDraft now key e).savedContent = e.savedContent := by
  unfold flushDraft
  split_ifs <;> rfl

theorem Inv.step {l : Label} (h : Inv key e) (hl : NoLateWrite key e l)
    (hs : step key e l = some e') : Inv key e' := by
  obtain ⟨hc, hf⟩ := h
  cases l with
  | render =>
    obtain ⟨⟨hm, hran⟩, ⟨⟩⟩ := Option.ite_none_right_eq_some.mp hs
    refine ⟨⟨id, fun hnone => ?_, hc.saving⟩, fun saved hsaved => (hf saved hsaved).render hm⟩
    rw [hran] at hnone
    cases hnone
  | runEffects =>
    obtain ⟨hm, ⟨⟩⟩ := Option.ite_none_right_eq_some.mp hs
    refine ⟨hc.runEffects, fun saved hsaved => ?_⟩
    rw [(Prod.mk.inj (saves_runEffects key e)).2] at hsaved
    exact (hf saved hsaved).runEffects hc hm
  | edit content =>
    obtain ⟨hm, ⟨⟩⟩ := Option.ite_none_right_eq_some.mp hs
    refine ⟨⟨hc.initialized, hc.unstarted, hc.saving⟩, fun saved hsaved => ?_⟩
    obtain ⟨hsame, hkept⟩ := Option.ite_none_right_eq_some.mp hsaved
    subst hsame
    obtain ⟨hcached, hmode, hreleased, hpending⟩ := hf saved hkept
    refine ⟨hcached, hmode, fun hb => ?_, hpending⟩
    obtain ⟨hstate, hrendered, hlatest, hcall⟩ := hreleased hb
    exact ⟨hstate, hrendered, hlatest, hcall⟩
  | attach hasFiles =>
    obtain ⟨hm, ⟨⟩⟩ := Option.ite_none_right_eq_some.mp hs
    exact ⟨⟨hc.initialized, hc.unstarted, hc.saving⟩,
      fun saved hsaved => (hf saved hsaved).attach hasFiles⟩
  | startSave now uuid =>
    obtain ⟨⟨hm, hsave, _⟩, ⟨⟩⟩ := Option.ite_none_right_eq_some.mp hs
    exact ⟨hc.startSave hsave now uuid,
      fun saved hsaved => (hf saved hsaved).startSave hm hsave now uuid⟩
  | succeed =>
    simp only [Editor.step] at hs
    split at hs
    · rename_i call hcall
      obtain ⟨⟨hanswer, _⟩, ⟨⟩⟩ := Option.ite_none_right_eq_some.mp hs
      have hsaving := hc.saving (by rw [hcall]; rfl)
      refine ⟨⟨hc.initialized, fun hran => ?_, fun _ => hsaving⟩, fun saved hsaved => ?_⟩
      · have hnone := (hc.unstarted hran).2
        rw [hcall] at hnone
        cases hnone
      · obtain rfl := Option.some.inj hsaved
        exact Forgotten.saveSucceeded hc hcall hanswer (hl call hcall)
    · cases hs
  | unchanged =>
    simp only [Editor.step] at hs
    split at hs
    · rename_i call hcall
      obtain ⟨⟨_, hnot, _⟩, ⟨⟩⟩ := Option.ite_none_right_eq_some.mp hs
      refine ⟨⟨hc.initialized, fun hran => ⟨(hc.unstarted hran).1, rfl⟩, nofun⟩, ?_⟩
      exact fun saved hsaved => (hf saved hsaved).saveUnchanged hcall (Bool.not_eq_true _ ▸ hnot)
    · cases hs
  | fail now network =>
    simp only [Editor.step] at hs
    split at hs
    · rename_i call hcall
      obtain ⟨⟨_, hnot⟩, ⟨⟩⟩ := Option.ite_none_right_eq_some.mp hs
      refine ⟨hc.saveFailed now network call, fun saved hsaved => ?_⟩
      have hsaved : e.savedContent = some saved := by
        unfold saveFailed at hsaved
        split_ifs at hsaved <;> exact hsaved
      exact (hf saved hsaved).saveFailed hcall (Bool.not_eq_true _ ▸ hnot) now network
    · cases hs
  | invalidated =>
    simp only [Editor.step] at hs
    split at hs
    · obtain ⟨_, ⟨⟩⟩ := Option.ite_none_right_eq_some.mp hs
      refine ⟨⟨hc.initialized, fun hran => ⟨(hc.unstarted hran).1, rfl⟩, nofun⟩, ?_⟩
      exact fun saved hsaved => (hf saved hsaved).resetEditor
    · cases hs
  | timeout now =>
    obtain ⟨cache, htimeout, ⟨⟩⟩ := Option.map_eq_some_iff.mp hs
    refine ⟨⟨hc.initialized, hc.unstarted, hc.saving⟩, fun saved hsaved => ?_⟩
    refine (hf saved hsaved).timeout htimeout fun p hp hdisc heq => ?_
    subst heq
    exact hl p hp hdisc hsaved
  | hide now =>
    obtain ⟨_, ⟨⟩⟩ := Option.ite_none_right_eq_some.mp hs
    refine ⟨hc.flush now, fun saved hsaved => ?_⟩
    rw [savedContent_flushDraft] at hsaved
    exact (hf saved hsaved).flush now
  | unmount now =>
    obtain ⟨_, ⟨⟩⟩ := Option.ite_none_right_eq_some.mp hs
    split
    · obtain ⟨hinit, hun, hsaving⟩ : Coherent (flushDraft now key e) := hc.flush now
      refine ⟨⟨hinit, hun, hsaving⟩, fun saved hsaved => ?_⟩
      have hsaved : (flushDraft now key e).savedContent = some saved := hsaved
      rw [savedContent_flushDraft] at hsaved
      exact ((hf saved hsaved).flush now).unmount
    · exact ⟨⟨hc.initialized, hc.unstarted, hc.saving⟩,
        fun saved hsaved => (hf saved hsaved).unmount⟩
  | reload =>
    cases hs
    exact ⟨⟨nofun, fun _ => ⟨rfl, rfl⟩, nofun⟩, fun saved hsaved => (hf saved hsaved).reload _⟩
  | setWritable writable =>
    cases hs
    refine ⟨⟨hc.initialized, hc.unstarted, hc.saving⟩, fun saved hsaved => ?_⟩
    obtain ⟨hcached, hmode, hreleased, hpending⟩ := hf saved hsaved
    refine ⟨hcached, hmode, fun hb => ?_, hpending⟩
    obtain ⟨hstate, hrendered, hlatest, hcall⟩ := hreleased hb
    exact ⟨hstate, hrendered, hlatest, hcall⟩

end steps

/-- Along every run whose timers do not write a discarded text, a saved text is not cached again. -/
theorem neverCachedAgain_of_noLateWrite (key : String) {e : MemoEditor}
    (h : (system key).Reaches (NoLateWrite key) e) : NeverCachedAgain key e := by
  have hinv : Inv key e := by
    refine h.invariant ?_ fun _ _ _ hi hl hs => hi.step hl hs
    rintro _ ⟨cache, rfl⟩
    exact ⟨⟨nofun, fun _ => ⟨rfl, rfl⟩, nofun⟩, nofun⟩
  intro saved hsaved
  exact (hinv.forgotten saved hsaved).notCached

section examples

def homeKey : String := "users/1-home"

def emptyCache : Cache := ⟨fun _ => none, fun _ => none, true⟩

def saveHello : List Label :=
  [.runEffects, .render, .runEffects, .edit "Hello", .render, .runEffects,
    .startSave "09:00" "id", .render, .runEffects, .succeed, .render, .runEffects]

/-- The queries are invalidated before the timer fires. -/
theorem neverCachedAgain_saveHello :
    ∃ e, (system homeKey).run (mount emptyCache none)
        (saveHello ++ [.invalidated, .render, .runEffects]) = some e ∧
      e.savedContent = some "Hello" ∧ e.state.content = "" ∧ NeverCachedAgain homeKey e := by
  have hrun : ∃ e, (system homeKey).run (mount emptyCache none)
        (saveHello ++ [.invalidated, .render, .runEffects]) = some e ∧
      e.savedContent = some "Hello" ∧ e.state.content = "" := ⟨_, rfl, rfl, rfl⟩
  have hm : (system homeKey).Meets (NoLateWrite homeKey) (mount emptyCache none)
      (saveHello ++ [.invalidated, .render, .runEffects]) := by
    refine ⟨trivial, trivial, trivial, trivial, trivial, trivial, trivial, trivial, trivial, ?_,
      trivial, trivial, trivial, trivial, trivial, trivial⟩
    intro call hcall _
    obtain rfl := Option.some.inj hcall
    exact ⟨fun _ => rfl, fun _ => rfl⟩
  obtain ⟨e, he, hsaved, hcontent⟩ := hrun
  exact ⟨e, he, hsaved, hcontent,
    neverCachedAgain_of_noLateWrite homeKey (.run (.init ⟨_, rfl⟩) hm he)⟩

/-- The effects of the save's own updates start the timer again; it fires while the queries are
being invalidated. -/
theorem saved_text_is_cached_again :
    ∃ e, (system homeKey).Reaches (fun _ _ => True) e ∧ e.savedContent = some "Hello" ∧
      (e.cache.storage homeKey).map (·.content) = some "Hello" ∧ ¬NeverCachedAgain homeKey e := by
  have hrun : ∃ e, (system homeKey).run (mount emptyCache none) (saveHello ++ [.timeout "09:01"]) =
      some e ∧ e.savedContent = some "Hello" ∧
      (e.cache.storage homeKey).map (·.content) = some "Hello" := ⟨_, rfl, rfl, rfl⟩
  obtain ⟨e, he, hsaved, hcached⟩ := hrun
  refine ⟨e, .run (.init ⟨_, rfl⟩) (LabelledSystem.meets_true _ _) he, hsaved, hcached, fun h => ?_⟩
  obtain ⟨draft, hdraft, hcontent⟩ := Option.map_eq_some_iff.mp hcached
  exact h "Hello" hsaved draft hdraft hcontent

end examples

end Memoark.Editor
