import Mathlib.Data.List.Nodup
import Memoark.Go.Strings
import Memoark.Scheduler.JobLoop

/-! `Register`, `Start` and `Stop` of `internal/scheduler/scheduler.go`, one call after the other,
with the loops of the jobs running beside them. -/
namespace Memoark.Scheduler
open Memoark.System

structure RegisteredJob where
  job : Job
  /-- The context that `cancelFn` cancels. -/
  cancelFn : Option Nat

/-- A goroutine of `runJobWithSchedule`, in its select or in the handler. -/
structure Loop where
  name : String
  ctx : Nat
  inHandler : Bool

structure SchedulerState where
  jobs : List RegisteredJob
  running : Bool
  /-- Whether `stopCh` is closed. -/
  stopChClosed : Bool
  cancelled : List Nat
  nextCtx : Nat
  /-- The goroutines that the wait group counts. -/
  loops : List Loop
  /-- Whether a call of `Stop` is waiting for the loops. -/
  stopping : Bool
  panicked : Bool

inductive SchedulerLabel where
  /-- `none` is a nil job. -/
  | register (job : Option Job)
  | start
  | stop
  /-- `Stop` returns, because no loop is left or because its context is done. -/
  | stopDone
  | stopExpired
  | fire (loop : Nat)
  | handlerReturn (loop : Nat)
  | exit (loop : Nat)

namespace Lifecycle

def register (s : SchedulerState) : Option Job → Except String SchedulerState
  | none => .error "job cannot be nil"
  | some job =>
    match job.validate with
    | .error err => .error ("invalid job: " ++ err)
    | .ok () =>
      if s.jobs.any (·.job.name = job.name) then
        .error ("job with name " ++ Go.quoted job.name ++ " already registered")
      else .ok { s with jobs := s.jobs ++ [⟨job, none⟩] }

def launch (s : SchedulerState) (job : Job) : SchedulerState :=
  { s with
    jobs := s.jobs.map fun rj =>
      if rj.job.name = job.name then { rj with cancelFn := some s.nextCtx } else rj
    nextCtx := s.nextCtx + 1
    loops := s.loops ++ [⟨job.name, s.nextCtx, false⟩] }

def startJobs : List RegisteredJob → SchedulerState → Except String Unit × SchedulerState
  | [], s => (.ok (), s)
  | rj :: rest, s =>
    match parseCronExpression rj.job.schedule with
    | .error err =>
      (.error ("failed to parse schedule for job " ++ Go.quoted rj.job.name ++ ": " ++ err), s)
    | .ok _ => startJobs rest (launch s rj.job)

def start (s : SchedulerState) : Except String Unit × SchedulerState :=
  if s.running then (.error "scheduler already running", s)
  else
    match startJobs s.jobs s with
    | (.error err, s') => (.error err, s')
    | (.ok (), s') => (.ok (), { s' with running := true })

/-- `Stop` up to its wait. Closing a closed channel panics. -/
def stop (s : SchedulerState) : Except String SchedulerState :=
  if s.running then
    let s := { s with running := false, cancelled := s.cancelled ++ s.jobs.filterMap RegisteredJob.cancelFn }
    if s.stopChClosed then .ok { s with panicked := true }
    else .ok { s with stopChClosed := true, stopping := true }
  else .error "scheduler not running"

def SignalOpen (s : SchedulerState) (l : Loop) : Prop :=
  l.ctx ∉ s.cancelled ∧ s.stopChClosed = false

/-- A loop may leave its select when its context or the stop channel is done. -/
def signalled (s : SchedulerState) (l : Loop) : Bool := l.ctx ∈ s.cancelled || s.stopChClosed

def loopStep (s : SchedulerState) (i : Nat) (inHandler : Bool) : Option SchedulerState :=
  match s.loops[i]? with
  | some l =>
    if l.inHandler = inHandler then none
    else some { s with loops := s.loops.set i { l with inHandler := inHandler } }
  | none => none

def call (s : SchedulerState) (s' : SchedulerState) : Option SchedulerState :=
  if s.stopping then none else some s'

def step (s : SchedulerState) (label : SchedulerLabel) : Option SchedulerState :=
  if s.panicked then none
  else
    match label with
    | .register job => call s ((register s job).toOption.getD s)
    | .start => call s (start s).2
    | .stop => call s ((stop s).toOption.getD s)
    | .stopDone => if s.stopping ∧ s.loops = [] then some { s with stopping := false } else none
    | .stopExpired => if s.stopping then some { s with stopping := false } else none
    | .fire i => loopStep s i true
    | .handlerReturn i => loopStep s i false
    | .exit i =>
      match s.loops[i]? with
      | some l =>
        if !l.inHandler && signalled s l then some { s with loops := s.loops.eraseIdx i } else none
      | none => none

structure Init (s : SchedulerState) : Prop where
  jobs : s.jobs = []
  running : s.running = false
  stopChClosed : s.stopChClosed = false
  loops : s.loops = []
  stopping : s.stopping = false
  panicked : s.panicked = false
  cancelled : s.cancelled = []

def system : LabelledSystem SchedulerState SchedulerLabel := ⟨Init, step⟩

/-- No call has panicked; while the scheduler runs, each registered job has exactly one loop, whose
signals are open; when it does not run and no call of `Stop` waits, there is no loop. -/
structure Sound (s : SchedulerState) : Prop where
  noPanic : s.panicked = false
  running : s.running = true → ∀ rj ∈ s.jobs, ∃ l,
    s.loops.filter (·.name = rj.job.name) = [l] ∧ SignalOpen s l
  stopped : s.running = false → s.stopping = false → s.loops = []

/-- No job is added while the scheduler runs, no scheduler with jobs is started again and none
stopped again, and no call of `Stop` gives up before the loops have ended. -/
def Single (s : SchedulerState) : SchedulerLabel → Prop
  | .register (some job) => s.running = true → job.validate = .ok () →
      ∃ rj ∈ s.jobs, rj.job.name = job.name
  | .start => s.running = false → s.stopping = false → s.stopChClosed = true → s.jobs = []
  | .stop => s.running = true → s.stopChClosed = false
  | .stopExpired => s.stopping = true → s.loops = []
  | _ => True

structure Inv (s : SchedulerState) : Prop where
  panicked : s.panicked = false
  names : (s.jobs.map (·.job.name)).Nodup
  valid : ∀ rj ∈ s.jobs, rj.job.validate = .ok ()
  cancelled : ∀ ctx ∈ s.cancelled, ctx < s.nextCtx
  cancelFns : ∀ ctx ∈ s.jobs.filterMap RegisteredJob.cancelFn, ctx < s.nextCtx
  /-- While the scheduler runs, the loops are those of the jobs. -/
  loops : s.running = true → s.loops.map (·.name) = s.jobs.map (·.job.name)
  live : s.running = true → ∀ l ∈ s.loops, l.ctx ∉ s.cancelled
  restarted : s.running = true → s.stopChClosed = true → s.jobs = []
  stopping : s.stopping = true → s.running = false
  stopped : s.running = false → s.stopping = false → s.loops = []

section start

variable {s : SchedulerState}

structure Launched (s : SchedulerState) (rest : List RegisteredJob) (s' : SchedulerState) : Prop where
  jobs : s'.jobs.map (·.job) = s.jobs.map (·.job)
  loops : ∃ new, s'.loops = s.loops ++ new ∧ new.map (·.name) = rest.map (·.job.name) ∧
    ∀ l ∈ new, s.nextCtx ≤ l.ctx
  nextCtx : s.nextCtx ≤ s'.nextCtx
  cancelFns : (∀ ctx ∈ s.jobs.filterMap RegisteredJob.cancelFn, ctx < s.nextCtx) →
    ∀ ctx ∈ s'.jobs.filterMap RegisteredJob.cancelFn, ctx < s'.nextCtx
  cancelled : s'.cancelled = s.cancelled
  stopChClosed : s'.stopChClosed = s.stopChClosed
  stopping : s'.stopping = s.stopping
  panicked : s'.panicked = s.panicked

theorem launched_launch (s : SchedulerState) (rj : RegisteredJob) :
    Launched s [rj] (launch s rj.job) where
  jobs := by
    unfold launch
    rw [List.map_map]
    refine List.map_congr_left fun r _ => ?_
    show (if r.job.name = rj.job.name then _ else r : RegisteredJob).job = r.job
    split <;> rfl
  loops := by
    refine ⟨[⟨rj.job.name, s.nextCtx, false⟩], rfl, rfl, fun l hl => ?_⟩
    obtain rfl := List.mem_singleton.mp hl
    exact Nat.le_refl s.nextCtx
  nextCtx := Nat.le_succ s.nextCtx
  cancelFns := by
    intro h ctx hctx
    obtain ⟨r, hr, hcancel⟩ := List.mem_filterMap.mp hctx
    obtain ⟨r', hr', rfl⟩ := List.mem_map.mp hr
    show ctx < s.nextCtx + 1
    split at hcancel
    · cases hcancel
      omega
    · have := h ctx (List.mem_filterMap.mpr ⟨r', hr', hcancel⟩)
      omega
  cancelled := rfl
  stopChClosed := rfl
  stopping := rfl
  panicked := rfl

theorem Launched.trans {s₁ s₂ : SchedulerState} {first second : List RegisteredJob}
    (h : Launched s first s₁) (h' : Launched s₁ second s₂) :
    Launched s (first ++ second) s₂ where
  jobs := h'.jobs.trans h.jobs
  loops := by
    obtain ⟨new, hloops, hnames, hctx⟩ := h.loops
    obtain ⟨new', hloops', hnames', hctx'⟩ := h'.loops
    refine ⟨new ++ new', ?_, ?_, fun l hl => ?_⟩
    · rw [hloops', hloops, List.append_assoc]
    · rw [List.map_append, List.map_append, hnames, hnames']
    · rcases List.mem_append.mp hl with hl | hl
      · exact hctx l hl
      · exact Nat.le_trans h.nextCtx (hctx' l hl)
  nextCtx := Nat.le_trans h.nextCtx h'.nextCtx
  cancelFns := fun hs => h'.cancelFns (h.cancelFns hs)
  cancelled := h'.cancelled.trans h.cancelled
  stopChClosed := h'.stopChClosed.trans h.stopChClosed
  stopping := h'.stopping.trans h.stopping
  panicked := h'.panicked.trans h.panicked

theorem startJobs_spec {rest : List RegisteredJob} (h : ∀ rj ∈ rest, rj.job.validate = .ok ())
    (s : SchedulerState) : ∃ s', startJobs rest s = (.ok (), s') ∧ Launched s rest s' := by
  induction rest generalizing s with
  | nil =>
    refine ⟨s, rfl, rfl, ⟨[], ?_, rfl, ?_⟩, Nat.le_refl _, fun h => h, rfl, rfl, rfl, rfl⟩
    · rw [List.append_nil]
    · exact fun l hl => absurd hl List.not_mem_nil
  | cons rj rest ih =>
    obtain ⟨schedule, hschedule⟩ := Job.exists_schedule (h rj List.mem_cons_self)
    obtain ⟨s', hs', hlaunched⟩ := ih (fun r hr => h r (List.mem_cons_of_mem rj hr))
      (launch s rj.job)
    refine ⟨s', ?_, (launched_launch s rj).trans hlaunched⟩
    rw [startJobs, hschedule]
    exact hs'

end start

section steps

variable {s s' : SchedulerState}

theorem Inv.of_init (h : Init s) : Inv s where
  panicked := h.panicked
  names := by
    rw [h.jobs]
    exact List.nodup_nil
  valid := by
    rw [h.jobs]
    exact fun rj hrj => absurd hrj List.not_mem_nil
  cancelled := by
    rw [h.cancelled]
    exact fun ctx hctx => absurd hctx List.not_mem_nil
  cancelFns := by
    rw [h.jobs]
    exact fun ctx hctx => absurd hctx List.not_mem_nil
  loops := fun hrunning => absurd (h.running.symm.trans hrunning) Bool.false_ne_true
  live := fun hrunning => absurd (h.running.symm.trans hrunning) Bool.false_ne_true
  restarted := fun _ _ => h.jobs
  stopping := fun _ => h.running
  stopped := fun _ _ => h.loops

theorem Inv.not_panicked (h : Inv s) : ¬s.panicked = true := by
  rw [h.panicked]
  exact Bool.false_ne_true

theorem filter_name {loops : List Loop} (h : (loops.map (·.name)).Nodup) {l : Loop} (hl : l ∈ loops) :
    loops.filter (·.name = l.name) = [l] := by
  induction loops with
  | nil => cases hl
  | cons head loops ih =>
    rw [List.map_cons, List.nodup_cons] at h
    obtain ⟨hhead, hrest⟩ := h
    rcases List.mem_cons.mp hl with rfl | hl
    · rw [List.filter_cons_of_pos (by simp)]
      congr 1
      refine List.filter_eq_nil_iff.mpr fun r hr hname => hhead ?_
      rw [← of_decide_eq_true hname]
      exact List.mem_map_of_mem hr
    · have hne : head.name ≠ l.name := by
        intro heq
        rw [heq] at hhead
        exact hhead (List.mem_map_of_mem hl)
      rw [List.filter_cons_of_neg (by simpa using hne)]
      exact ih hrest hl

theorem Inv.sound (h : Inv s) : Sound s where
  noPanic := h.panicked
  running := by
    intro hrunning rj hrj
    have hname : rj.job.name ∈ s.loops.map (·.name) := by
      rw [h.loops hrunning]
      exact List.mem_map_of_mem hrj
    obtain ⟨l, hl, hlname⟩ := List.mem_map.mp hname
    have hnodup : (s.loops.map (·.name)).Nodup := by
      rw [h.loops hrunning]
      exact h.names
    refine ⟨l, ?_, h.live hrunning l hl, ?_⟩
    · rw [← hlname]
      exact filter_name hnodup hl
    · apply eq_false_of_ne_true
      intro hclosed
      rw [h.restarted hrunning hclosed] at hrj
      cases hrj
  stopped := h.stopped

theorem register_cases (s : SchedulerState) (job : Option Job) :
    (register s job).toOption.getD s = s ∨ ∃ new, job = some new ∧ new.validate = .ok () ∧
      (∀ rj ∈ s.jobs, rj.job.name ≠ new.name) ∧
      (register s job).toOption.getD s = { s with jobs := s.jobs ++ [⟨new, none⟩] } := by
  cases job with
  | none => exact .inl rfl
  | some new =>
    cases hvalid : new.validate with
    | error err =>
      simp only [register, hvalid]
      exact .inl rfl
    | ok _ =>
      simp only [register, hvalid]
      split
      · exact .inl rfl
      · rename_i hnew
        refine .inr ⟨new, rfl, hvalid, fun rj hrj hname => hnew ?_, rfl⟩
        exact List.any_eq_true.mpr ⟨rj, hrj, decide_eq_true hname⟩

theorem Inv.register (h : Inv s) {job : Option Job} (hl : Single s (.register job)) :
    Inv ((register s job).toOption.getD s) := by
  rcases register_cases s job with heq | ⟨new, rfl, hvalid, hnew, heq⟩
  · rw [heq]
    exact h
  · have hrunning : s.running = false := by
      apply eq_false_of_ne_true
      intro hrunning
      obtain ⟨rj, hrj, hname⟩ := hl hrunning hvalid
      exact hnew rj hrj hname
    have hnot : s.running ≠ true := by
      rw [hrunning]
      exact Bool.false_ne_true
    rw [heq]
    exact {
      panicked := h.panicked
      names := by
        rw [List.map_append, List.map_singleton, ← List.concat_eq_append]
        refine h.names.concat fun hmem => ?_
        obtain ⟨rj, hrj, hname⟩ := List.mem_map.mp hmem
        exact hnew rj hrj hname
      valid := by
        intro rj hrj
        rcases List.mem_append.mp hrj with hrj | hrj
        · exact h.valid rj hrj
        · obtain rfl := List.mem_singleton.mp hrj
          exact hvalid
      cancelled := h.cancelled
      cancelFns := by
        rw [List.filterMap_append]
        simpa using h.cancelFns
      loops := fun hrun => absurd hrun hnot
      live := h.live
      restarted := fun hrun => absurd hrun hnot
      stopping := h.stopping
      stopped := h.stopped }

theorem start_cases (h : Inv s) : s.running = true ∧ (start s).2 = s ∨ s.running = false ∧
    ∃ s', (start s).2 = { s' with running := true } ∧ Launched s s.jobs s' := by
  unfold start
  by_cases hrunning : s.running = true
  · rw [if_pos hrunning]
    exact .inl ⟨hrunning, rfl⟩
  · obtain ⟨s', hs', hlaunched⟩ := startJobs_spec h.valid s
    rw [if_neg hrunning, hs']
    exact .inr ⟨eq_false_of_ne_true hrunning, s', rfl, hlaunched⟩

theorem Inv.start (h : Inv s) (hstopping : s.stopping = false) (hl : Single s .start) :
    Inv (start s).2 := by
  rcases start_cases h with ⟨-, heq⟩ | ⟨hrunning, s', heq, hlaunched⟩
  · rw [heq]
    exact h
  · obtain ⟨new, hloops, hnames, hctx⟩ := hlaunched.loops
    rw [h.stopped hrunning hstopping, List.nil_append] at hloops
    have hjobs : s'.jobs.map (·.job.name) = s.jobs.map (·.job.name) := by
      have hmap := congrArg (List.map Job.name) hlaunched.jobs
      rw [List.map_map, List.map_map] at hmap
      exact hmap
    rw [heq]
    exact {
      panicked := hlaunched.panicked.trans h.panicked
      names := by
        show (s'.jobs.map (·.job.name)).Nodup
        rw [hjobs]
        exact h.names
      valid := by
        intro rj hrj
        have hmem : rj.job ∈ s.jobs.map (·.job) := by
          rw [← hlaunched.jobs]
          exact List.mem_map_of_mem hrj
        obtain ⟨rj', hrj', hjob⟩ := List.mem_map.mp hmem
        rw [← hjob]
        exact h.valid rj' hrj'
      cancelled := by
        intro ctx (hmem : ctx ∈ s'.cancelled)
        rw [hlaunched.cancelled] at hmem
        exact Nat.lt_of_lt_of_le (h.cancelled ctx hmem) hlaunched.nextCtx
      cancelFns := hlaunched.cancelFns h.cancelFns
      loops := fun _ => by
        show s'.loops.map (·.name) = s'.jobs.map (·.job.name)
        rw [hloops, hnames, hjobs]
      live := by
        intro _ l hl (hmem : l.ctx ∈ s'.cancelled)
        rw [hlaunched.cancelled] at hmem
        have hlt := h.cancelled l.ctx hmem
        have hle := hctx l (hloops ▸ hl)
        omega
      restarted := by
        intro _ hclosed
        have hnil := hl hrunning hstopping (hlaunched.stopChClosed.symm.trans hclosed)
        have hlength := congrArg List.length hlaunched.jobs
        rw [hnil] at hlength
        exact List.eq_nil_of_length_eq_zero (by simpa using hlength)
      stopping := fun hstop =>
        absurd (hstopping.symm.trans (hlaunched.stopping.symm.trans hstop)) Bool.false_ne_true
      stopped := fun hfalse => absurd hfalse (by simp) }

theorem Inv.stop (h : Inv s) (hl : Single s .stop) : Inv ((stop s).toOption.getD s) := by
  unfold Lifecycle.stop
  by_cases hrunning : s.running = true
  · rw [if_pos hrunning]
    dsimp only
    rw [if_neg (by rw [hl hrunning]; exact Bool.false_ne_true)]
    exact {
      panicked := h.panicked
      names := h.names
      valid := h.valid
      cancelled := by
        intro ctx hctx
        rcases List.mem_append.mp hctx with hctx | hctx
        · exact h.cancelled ctx hctx
        · exact h.cancelFns ctx hctx
      cancelFns := h.cancelFns
      loops := fun hfalse => absurd hfalse Bool.false_ne_true
      live := fun hfalse => absurd hfalse Bool.false_ne_true
      restarted := fun hfalse => absurd hfalse Bool.false_ne_true
      stopping := fun _ => rfl
      stopped := fun _ hfalse => absurd hfalse.symm Bool.false_ne_true }
  · rw [if_neg hrunning]
    exact h

theorem Inv.loopStep (h : Inv s) {i : Nat} {inHandler : Bool}
    (hs : Lifecycle.loopStep s i inHandler = some s') : Inv s' := by
  unfold Lifecycle.loopStep at hs
  split at hs
  · rename_i l hl
    split at hs <;> cases hs
    have hnames : (s.loops.set i { l with inHandler := inHandler }).map (·.name) =
        s.loops.map (·.name) := by
      obtain ⟨hi, hget⟩ := List.getElem?_eq_some_iff.mp hl
      have hlength : i < (s.loops.map (·.name)).length := by
        rw [List.length_map]
        exact hi
      have hname : (s.loops.map (·.name))[i] = l.name := by rw [List.getElem_map, hget]
      rw [List.map_set, ← hname]
      exact List.set_getElem_self hlength
    have hctx : ∀ l' ∈ s.loops.set i { l with inHandler := inHandler },
        ∃ l'' ∈ s.loops, l''.ctx = l'.ctx := by
      intro l' hl'
      rcases List.mem_or_eq_of_mem_set hl' with hold | rfl
      · exact ⟨l', hold, rfl⟩
      · exact ⟨l, List.mem_of_getElem? hl, rfl⟩
    exact { h with
      loops := fun hrunning => hnames.trans (h.loops hrunning)
      live := by
        intro hrunning l' hl'
        obtain ⟨l'', hl'', heq⟩ := hctx l' hl'
        rw [← heq]
        exact h.live hrunning l'' hl''
      stopped := by
        intro hrunning hstopping
        have hnil := h.stopped hrunning hstopping
        rw [hnil] at hl
        cases hl }
  · cases hs

theorem Inv.exit (h : Inv s) {i : Nat} (hs : Lifecycle.step s (.exit i) = some s') : Inv s' := by
  simp only [Lifecycle.step, if_neg h.not_panicked] at hs
  split at hs
  · rename_i l hl
    split at hs <;> cases hs
    rename_i hexit
    have hmem := List.mem_of_getElem? hl
    have hnot : s.running ≠ true := by
      intro hrunning
      simp only [signalled, Bool.and_eq_true, Bool.or_eq_true, decide_eq_true_eq] at hexit
      rcases hexit.2 with hcancelled | hclosed
      · exact h.live hrunning l hmem hcancelled
      · have hloops := h.loops hrunning
        rw [h.restarted hrunning hclosed, List.map_nil, List.map_eq_nil_iff] at hloops
        rw [hloops] at hmem
        cases hmem
    exact { h with
      loops := fun hrunning => absurd hrunning hnot
      live := fun hrunning => absurd hrunning hnot
      stopped := by
        intro hrunning hstopping
        rw [h.stopped hrunning hstopping] at hl
        cases hl }
  · cases hs

theorem Inv.step {l : SchedulerLabel} (h : Inv s) (hl : Single s l)
    (hs : Lifecycle.step s l = some s') : Inv s' := by
  cases l with
  | exit i => exact h.exit hs
  | register job =>
    simp only [Lifecycle.step, if_neg h.not_panicked, call] at hs
    split at hs <;> cases hs
    exact h.register hl
  | start =>
    simp only [Lifecycle.step, if_neg h.not_panicked, call] at hs
    split at hs <;> cases hs
    rename_i hstopping
    exact h.start (eq_false_of_ne_true hstopping) hl
  | stop =>
    simp only [Lifecycle.step, if_neg h.not_panicked, call] at hs
    split at hs <;> cases hs
    exact h.stop hl
  | stopDone =>
    simp only [Lifecycle.step, if_neg h.not_panicked] at hs
    split at hs <;> cases hs
    rename_i hdone
    exact { h with stopping := fun hfalse => absurd hfalse.symm (by simp), stopped := fun _ _ => hdone.2 }
  | stopExpired =>
    simp only [Lifecycle.step, if_neg h.not_panicked] at hs
    split at hs <;> cases hs
    rename_i hstopping
    exact { h with
      stopping := fun hfalse => absurd hfalse Bool.false_ne_true
      stopped := fun _ _ => hl hstopping }
  | fire i =>
    simp only [Lifecycle.step, if_neg h.not_panicked] at hs
    exact h.loopStep hs
  | handlerReturn i =>
    simp only [Lifecycle.step, if_neg h.not_panicked] at hs
    exact h.loopStep hs

theorem Inv.breaks_register (h : Inv s) {job : Job} (hrunning : s.running = true)
    (hvalid : job.validate = .ok ()) (hnew : ∀ rj ∈ s.jobs, rj.job.name ≠ job.name) :
    ∃ s', Lifecycle.step s (.register (some job)) = some s' ∧ ¬Sound s' := by
  have hstopping : ¬s.stopping = true := by
    intro hstopping
    rw [h.stopping hstopping] at hrunning
    cases hrunning
  have hany : ¬s.jobs.any (·.job.name = job.name) = true := by
    intro hany
    obtain ⟨rj, hrj, hname⟩ := List.any_eq_true.mp hany
    exact hnew rj hrj (of_decide_eq_true hname)
  refine ⟨{ s with jobs := s.jobs ++ [⟨job, none⟩] }, ?_, ?_⟩
  · simp only [Lifecycle.step, if_neg h.not_panicked, call, if_neg hstopping, Lifecycle.register,
      hvalid, if_neg hany]
    rfl
  · intro hsound
    obtain ⟨l, hl, -⟩ := hsound.running hrunning ⟨job, none⟩ (by simp)
    have hmem : l ∈ s.loops.filter (·.name = job.name) := by
      rw [show s.loops.filter (·.name = job.name) = [l] from hl]
      exact List.mem_singleton_self l
    obtain ⟨hloop, hname⟩ := List.mem_filter.mp hmem
    have hjob : l.name ∈ s.jobs.map (·.job.name) := by
      rw [← h.loops hrunning]
      exact List.mem_map_of_mem hloop
    obtain ⟨rj, hrj, heq⟩ := List.mem_map.mp hjob
    exact hnew rj hrj (heq.trans (of_decide_eq_true hname))

theorem Inv.breaks_start (h : Inv s) (hrunning : s.running = false) (hstopping : s.stopping = false)
    (hclosed : s.stopChClosed = true) (hjobs : s.jobs ≠ []) :
    ∃ s', Lifecycle.step s .start = some s' ∧ ¬Sound s' := by
  have hnot : ¬s.stopping = true := by
    rw [hstopping]
    exact Bool.false_ne_true
  refine ⟨(Lifecycle.start s).2, ?_, ?_⟩
  · simp only [Lifecycle.step, if_neg h.not_panicked, call, if_neg hnot]
  · rcases start_cases h with ⟨htrue, -⟩ | ⟨-, s', heq, hlaunched⟩
    · rw [hrunning] at htrue
      cases htrue
    · rw [heq]
      intro hsound
      have hne : s'.jobs ≠ [] := by
        intro hnil
        have hlength := congrArg List.length hlaunched.jobs
        rw [hnil] at hlength
        exact hjobs (List.eq_nil_of_length_eq_zero (by simpa using hlength.symm))
      obtain ⟨rj, hrj⟩ := List.exists_mem_of_ne_nil _ hne
      obtain ⟨l, -, -, hopen⟩ := hsound.running rfl rj hrj
      change s'.stopChClosed = false at hopen
      rw [hlaunched.stopChClosed, hclosed] at hopen
      cases hopen

theorem Inv.breaks {l : SchedulerLabel} (h : Inv s) (hl : ¬Single s l) :
    ∃ s', Lifecycle.step s l = some s' ∧ ¬Sound s' := by
  cases l with
  | register job =>
    cases job with
    | none => exact absurd trivial hl
    | some job =>
      simp only [Single, Classical.not_imp, not_exists, not_and] at hl
      obtain ⟨hrunning, hvalid, hnew⟩ := hl
      exact h.breaks_register hrunning hvalid hnew
  | start =>
    simp only [Single, Classical.not_imp] at hl
    obtain ⟨hrunning, hstopping, hclosed, hjobs⟩ := hl
    exact h.breaks_start hrunning hstopping hclosed hjobs
  | stop =>
    simp only [Single, Classical.not_imp, Bool.not_eq_false] at hl
    obtain ⟨hrunning, hclosed⟩ := hl
    have hstopping : ¬s.stopping = true := by
      intro hstopping
      rw [h.stopping hstopping] at hrunning
      cases hrunning
    refine ⟨{ s with
      running := false
      cancelled := s.cancelled ++ s.jobs.filterMap RegisteredJob.cancelFn
      panicked := true }, ?_, fun hsound => ?_⟩
    · simp only [Lifecycle.step, if_neg h.not_panicked, call, if_neg hstopping, Lifecycle.stop,
        if_pos hrunning, if_pos hclosed]
      rfl
    · exact absurd hsound.noPanic (by simp)
  | stopExpired =>
    simp only [Single, Classical.not_imp] at hl
    obtain ⟨hstopping, hloops⟩ := hl
    refine ⟨{ s with stopping := false }, ?_, fun hsound => ?_⟩
    · simp only [Lifecycle.step, if_neg h.not_panicked, if_pos hstopping]
    · exact hloops (hsound.stopped (h.stopping hstopping) rfl)
  | _ => exact absurd trivial hl

end steps

/-- A run keeps the lifecycle exactly if each of its steps meets the condition. -/
theorem sound_throughout_iff {s : SchedulerState} (h : Init s) (labels : List SchedulerLabel) :
    system.Throughout Sound s labels ↔ system.Meets Single s labels := by
  have hinv := Inv.of_init h
  constructor
  · intro hsound
    exact hsound.meets hinv (fun s a s' hi hc hs => hi.step hc hs) fun s a hi hc => hi.breaks hc
  · intro hmeets
    exact hmeets.throughout hinv (fun s hi => hi.sound) fun s a s' hi hc hs => hi.step hc hs

def newScheduler : SchedulerState := ⟨[], false, false, [], 0, [], false, false⟩

theorem init_newScheduler : Init newScheduler := ⟨rfl, rfl, rfl, rfl, rfl, rfl, rfl⟩

def minuteJob : Job := ⟨"tick", "* * * * *", "", true⟩

def oneRun : List SchedulerLabel :=
  [.register (some minuteJob), .start, .fire 0, .handlerReturn 0, .stop, .exit 0, .stopDone]

theorem sound_throughout_oneRun :
    system.Throughout Sound newScheduler oneRun ∧ system.Meets Single newScheduler oneRun := by
  have hm : system.Meets Single newScheduler oneRun := by
    refine ⟨fun hfalse => absurd hfalse Bool.false_ne_true, fun _ _ hfalse => ?_, trivial, trivial,
      fun _ => rfl, trivial, trivial, trivial⟩
    cases hfalse
  exact ⟨(sound_throughout_iff init_newScheduler oneRun).mpr hm, hm⟩

/-- After a restart the loop of the job ends at once, and the next `Stop` panics. -/
theorem restart_panics :
    (∃ s, system.run newScheduler (oneRun ++ [.start]) = some s ∧ s.running = true ∧
      s.stopChClosed = true ∧ ¬Sound s) ∧
    (∃ s, system.run newScheduler (oneRun ++ [.start, .exit 0]) = some s ∧ s.running = true ∧
      s.loops = [] ∧ s.jobs ≠ []) ∧
    ∃ s, system.run newScheduler (oneRun ++ [.start, .stop]) = some s ∧ s.panicked = true := by
  have hstart : ∃ s, system.run newScheduler (oneRun ++ [.start]) = some s ∧ s.running = true ∧
      s.stopChClosed = true ∧ s.jobs ≠ [] := ⟨_, rfl, rfl, rfl, List.cons_ne_nil _ _⟩
  refine ⟨?_, ⟨_, rfl, rfl, rfl, List.cons_ne_nil _ _⟩, ⟨_, rfl, rfl⟩⟩
  obtain ⟨s, hs, hrunning, hclosed, hjobs⟩ := hstart
  refine ⟨s, hs, hrunning, hclosed, fun hsound => ?_⟩
  obtain ⟨rj, hrj⟩ := List.exists_mem_of_ne_nil _ hjobs
  obtain ⟨l, -, -, hopen⟩ := hsound.running hrunning rj hrj
  rw [hclosed] at hopen
  cases hopen

end Lifecycle

end Memoark.Scheduler
