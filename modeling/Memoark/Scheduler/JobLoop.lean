import Memoark.Scheduler.Cron
import Memoark.System.Runs

/-! Jobs of `internal/scheduler/job.go`, and the loop of `runJobWithSchedule` under a clock that
moves forward. -/
namespace Memoark.Scheduler
open Memoark.System

structure Job where
  name : String
  schedule : String
  timezone : String
  /-- Whether `Handler` is not nil. -/
  hasHandler : Bool
  deriving DecidableEq

def Job.validate (job : Job) : Except String Unit :=
  if job.name = "" then .error "job name is required"
  else if job.schedule = "" then .error "job schedule is required"
  else
    match parseCronExpression job.schedule with
    | .error err => .error ("invalid cron expression: " ++ err)
    | .ok _ => if job.hasHandler then .ok () else .error "job handler is required"

theorem Job.exists_schedule {job : Job} (h : job.validate = .ok ()) :
    ∃ s, parseCronExpression job.schedule = .ok s := by
  unfold validate at h
  split at h
  · cases h
  split at h
  · cases h
  split at h
  · cases h
  · rename_i s hs
    exact ⟨s, hs⟩

/-- What a run of the loop reads: an accepted job with its schedule, the time zone of the scheduler,
the time zone database and the local time zone. -/
structure Setting where
  job : Job
  accepted : job.validate = .ok ()
  schedule : Schedule
  parsed : parseCronExpression job.schedule = .ok schedule
  timezone : Option Go.Location
  loadLocation : String → Option Go.Location
  localZone : Go.Location

def Setting.zoned (x : Setting) (clock : Int) : Go.Time :=
  if x.job.timezone ≠ "" then ⟨clock, (x.loadLocation x.job.timezone).getD x.localZone⟩
  else ⟨clock, x.timezone.getD x.localZone⟩

def untilTime (next : Go.Time) (clock : Int) : Int :=
  max (-9223372036854775808) (min 9223372036854775807 (next.unixNano - clock))

structure Invocation where
  scheduled : Go.Time
  start : Int

inductive Phase where
  | ready
  | planned (next : Go.Time)
  /-- In the select, with a timer that fires at the deadline. -/
  | waiting (next : Go.Time) (deadline : Int)
  | running
  | stopped

inductive LoopLabel where
  /-- Time passes, in nanoseconds. -/
  | tick (nanos : Nat)
  | plan
  | arm
  | fire
  | return
  | stop

structure LoopState where
  clock : Int
  phase : Phase
  invocations : List Invocation

namespace JobLoop

def step (x : Setting) (s : LoopState) : LoopLabel → Option LoopState
  | .tick nanos => some { s with clock := s.clock + nanos }
  | .plan =>
    match s.phase with
    | .ready => some { s with phase := .planned (x.schedule.Next (x.zoned s.clock)) }
    | _ => none
  | .arm =>
    match s.phase with
    | .planned next =>
      -- A timer with a negative duration fires at once.
      some { s with phase := .waiting next (s.clock + max 0 (untilTime next s.clock)) }
    | _ => none
  | .fire =>
    match s.phase with
    | .waiting next deadline =>
      if deadline ≤ s.clock then
        some { s with phase := .running, invocations := s.invocations ++ [⟨next, s.clock⟩] }
      else none
    | _ => none
  | .return =>
    match s.phase with
    | .running => some { s with phase := .ready }
    | _ => none
  | .stop =>
    match s.phase with
    | .waiting _ _ => some { s with phase := .stopped }
    | _ => none

structure Init (s : LoopState) : Prop where
  phase : s.phase = .ready
  invocations : s.invocations = []

def system (x : Setting) : LabelledSystem LoopState LoopLabel := ⟨Init, step x⟩

/-- Each invocation comes at or after an instant that matches the schedule, and that instant is
later than the one of the invocation before. -/
structure OnSchedule (s : Schedule) (invocations : List Invocation) : Prop where
  matched : ∀ i ∈ invocations, s.matchesTime i.scheduled = true ∧ i.scheduled.unixNano ≤ i.start
  later : invocations.Pairwise fun i j => i.scheduled.unixNano < j.scheduled.unixNano

def HasNext (x : Setting) (s : LoopState) : LoopLabel → Prop
  | .plan => x.schedule.Found (x.zoned s.clock)
  | _ => True

def Ahead (x : Setting) (s : LoopState) (next : Go.Time) : Prop :=
  x.schedule.matchesTime next = true ∧ (∀ i ∈ s.invocations, i.scheduled.unixNano < next.unixNano) ∧
    next.unixNano ≤ s.clock + 6000000000000000000

def PhaseSound (x : Setting) (s : LoopState) : Phase → Prop
  | .planned next => Ahead x s next
  | .waiting next deadline => Ahead x s next ∧ next.unixNano ≤ deadline
  | _ => True

structure Inv (x : Setting) (s : LoopState) : Prop where
  onSchedule : OnSchedule x.schedule s.invocations
  past : ∀ i ∈ s.invocations, i.scheduled.unixNano ≤ s.clock
  phase : PhaseSound x s s.phase

section steps

variable {x : Setting} {s s' : LoopState}

theorem Inv.of_init (h : Init s) : Inv x s where
  onSchedule := by
    rw [h.invocations]
    exact ⟨fun i hi => absurd hi List.not_mem_nil, List.Pairwise.nil⟩
  past := by
    rw [h.invocations]
    exact fun i hi => absurd hi List.not_mem_nil
  phase := by
    rw [h.phase]
    trivial

theorem Inv.tick (h : Inv x s) (nanos : Nat) : Inv x { s with clock := s.clock + nanos } where
  onSchedule := h.onSchedule
  past := by
    intro i hi
    have := h.past i hi
    show i.scheduled.unixNano ≤ s.clock + nanos
    omega
  phase := by
    have hphase := h.phase
    have hahead : ∀ {next}, Ahead x s next → Ahead x { s with clock := s.clock + nanos } next := by
      intro next ⟨hmatch, hlater, hnear⟩
      refine ⟨hmatch, hlater, ?_⟩
      show next.unixNano ≤ s.clock + nanos + 6000000000000000000
      omega
    show PhaseSound x _ s.phase
    cases hs : s.phase with
    | planned next =>
      rw [hs] at hphase
      exact hahead hphase
    | waiting next deadline =>
      rw [hs] at hphase
      exact ⟨hahead hphase.1, hphase.2⟩
    | _ => trivial

theorem zoned_unixNano (clock : Int) : (x.zoned clock).unixNano = clock := by
  unfold Setting.zoned
  split <;> rfl

theorem Inv.ahead (h : Inv x s) (hfound : x.schedule.Found (x.zoned s.clock)) :
    Ahead x s (x.schedule.Next (x.zoned s.clock)) := by
  obtain ⟨hmatch, hlater, hnear⟩ := Schedule.Next_of_found hfound
  rw [zoned_unixNano] at hlater hnear
  exact ⟨hmatch, fun i hi => Int.lt_of_le_of_lt (h.past i hi) hlater, hnear⟩

theorem le_deadline {next : Go.Time} {clock : Int}
    (h : next.unixNano ≤ clock + 6000000000000000000) :
    next.unixNano ≤ clock + max 0 (untilTime next clock) := by
  unfold untilTime
  omega

theorem Inv.fire (h : Inv x s) {next : Go.Time} {deadline : Int} (hahead : Ahead x s next)
    (hdeadline : next.unixNano ≤ deadline) (hclock : deadline ≤ s.clock) :
    Inv x { s with phase := .running, invocations := s.invocations ++ [⟨next, s.clock⟩] } where
  onSchedule := by
    obtain ⟨hmatch, hlater, -⟩ := hahead
    constructor
    · intro i hi
      rcases List.mem_append.mp hi with hold | hnew
      · exact h.onSchedule.matched i hold
      · obtain rfl := List.mem_singleton.mp hnew
        exact ⟨hmatch, Int.le_trans hdeadline hclock⟩
    · refine List.pairwise_append.mpr ⟨h.onSchedule.later, List.pairwise_singleton _ _, ?_⟩
      intro i hi j hj
      obtain rfl := List.mem_singleton.mp hj
      exact hlater i hi
  past := by
    intro i hi
    rcases List.mem_append.mp hi with hold | hnew
    · exact h.past i hold
    · obtain rfl := List.mem_singleton.mp hnew
      exact Int.le_trans hdeadline hclock
  phase := trivial

theorem Inv.step {l : LoopLabel} (h : Inv x s) (hl : HasNext x s l)
    (hs : JobLoop.step x s l = some s') : Inv x s' := by
  have hphase := h.phase
  cases l with
  | tick nanos =>
    cases hs
    exact h.tick nanos
  | plan =>
    simp only [JobLoop.step] at hs
    split at hs <;> cases hs
    exact { h with phase := h.ahead hl }
  | arm =>
    simp only [JobLoop.step] at hs
    split at hs <;> cases hs
    rename_i next hplanned
    rw [hplanned] at hphase
    exact { h with phase := ⟨hphase, le_deadline hphase.2.2⟩ }
  | fire =>
    simp only [JobLoop.step] at hs
    split at hs
    · rename_i next deadline hwaiting
      rw [hwaiting] at hphase
      split at hs <;> cases hs
      rename_i hclock
      exact h.fire hphase.1 hphase.2 hclock
    · cases hs
  | «return» =>
    simp only [JobLoop.step] at hs
    split at hs <;> cases hs
    exact { h with phase := trivial }
  | stop =>
    simp only [JobLoop.step] at hs
    split at hs <;> cases hs
    exact { h with phase := trivial }

end steps

/-- A loop whose searches find an instant invokes its handler on schedule. -/
theorem onSchedule_of_hasNext {x : Setting} {s : LoopState} (h : (system x).Reaches (HasNext x) s) :
    OnSchedule x.schedule s.invocations := by
  have hinv : Inv x s := h.invariant (fun _ => Inv.of_init) fun _ _ _ hi hl hs => hi.step hl hs
  exact hinv.onSchedule

def inUTC (job : Job) (accepted : job.validate = .ok ()) (schedule : Schedule)
    (parsed : parseCronExpression job.schedule = .ok schedule) : Setting where
  job := job
  accepted := accepted
  schedule := schedule
  parsed := parsed
  timezone := some Go.UTC
  loadLocation := fun _ => none
  localZone := Go.UTC

def everyMinute : Setting :=
  inUTC ⟨"tick", "* * * * *", "", true⟩ rfl
    ⟨.exact 0, .wildcard, .wildcard, .wildcard, .wildcard, .wildcard, false⟩ rfl

def newYear : LoopState := ⟨1735689600000000000, .ready, []⟩

theorem everyMinute_found : everyMinute.schedule.Found (everyMinute.zoned newYear.clock) :=
  ⟨0, rfl, rfl⟩

theorem everyMinute_next :
    everyMinute.schedule.Next (everyMinute.zoned newYear.clock) = ⟨1735689660000000000, Go.UTC⟩ := by
  unfold Schedule.Next
  rw [Schedule.search, if_pos (by rfl), if_pos (by rfl)]
  rfl

def plannedState (next : Go.Time) : LoopState := ⟨newYear.clock, .planned next, []⟩

theorem plan_newYear {x : Setting} {next : Go.Time}
    (h : x.schedule.Next (x.zoned newYear.clock) = next) :
    (system x).step newYear .plan = some (plannedState next) := by
  rw [← h]
  rfl

theorem init_newYear (x : Setting) : (system x).init newYear := ⟨rfl, rfl⟩

/-- A job of every minute is invoked on the minute. -/
theorem onSchedule_of_hasNext_minute : ∃ s,
    (system everyMinute).run (plannedState ⟨1735689660000000000, Go.UTC⟩)
        [.arm, .tick 60000000000, .fire] = some s ∧
      s.invocations = [⟨⟨1735689660000000000, Go.UTC⟩, 1735689660000000000⟩] ∧
      OnSchedule everyMinute.schedule s.invocations := by
  have hplan := plan_newYear everyMinute_next
  have hreach := LabelledSystem.Reaches.step (C := HasNext everyMinute) (a := .plan)
    (.init (init_newYear everyMinute)) everyMinute_found hplan
  have hrun : ∃ s, (system everyMinute).run (plannedState ⟨1735689660000000000, Go.UTC⟩)
        [.arm, .tick 60000000000, .fire] = some s ∧
      s.invocations = [⟨⟨1735689660000000000, Go.UTC⟩, 1735689660000000000⟩] := ⟨_, rfl, rfl⟩
  obtain ⟨s, hs, hinvocations⟩ := hrun
  have hm : (system everyMinute).Meets (HasNext everyMinute)
      (plannedState ⟨1735689660000000000, Go.UTC⟩) [.arm, .tick 60000000000, .fire] :=
    ⟨trivial, trivial, trivial, trivial⟩
  exact ⟨s, hs, hinvocations, onSchedule_of_hasNext (.run hreach hm hs)⟩

def february31 : Setting :=
  inUTC ⟨"never", "0 0 31 2 7", "", true⟩ rfl
    ⟨.exact 0, .exact 0, .exact 0, .exact 31, .exact 2, .exact 7, false⟩ rfl

theorem february31_never (t : Go.Time) : february31.schedule.matchesTime t = false := by
  obtain ⟨-, -, -, -, -, -, hweekday⟩ := t.clock_range
  obtain ⟨-, -, -, -, hday⟩ := Time.dateOf_spec (t.wall / 86400)
  apply eq_false_of_ne_true
  intro h
  simp only [february31, inUTC, Schedule.matchesTime, FieldMatcher.matchesValue, Bool.and_eq_true,
    Bool.or_eq_true, decide_eq_true_eq] at h
  obtain ⟨⟨-, hmonth⟩, h31 | h7⟩ := h
  · change t.date.day ≤ Time.daysIn t.date.month t.date.year at hday
    have hfebruary : t.date.month = 2 := by omega
    rw [hfebruary] at hday
    have := Time.daysIn_february t.date.year
    omega
  · omega

/-- An accepted job that matches no instant is invoked at once, for the zero time. -/
theorem february31_invoked : february31.job.validate = .ok () ∧
    (∀ t, february31.schedule.matchesTime t = false) ∧
    ∃ s, (system february31).Reaches (fun _ _ => True) s ∧ s.clock = newYear.clock ∧
      s.invocations = [⟨.zero, newYear.clock⟩] ∧ ¬OnSchedule february31.schedule s.invocations := by
  have hnext : ∀ clock, february31.schedule.Next (february31.zoned clock) = .zero := by
    intro clock
    apply Schedule.Next_of_not_found
    rintro ⟨n, -, hmatch⟩
    rw [february31_never] at hmatch
    cases hmatch
  have hplan := plan_newYear (hnext newYear.clock)
  have hreach := LabelledSystem.Reaches.step (C := fun _ _ => True) (a := .plan)
    (.init (init_newYear february31)) trivial hplan
  have hrun : ∃ s, (system february31).run (plannedState .zero) [.arm, .fire] = some s ∧
      s.clock = newYear.clock ∧ s.invocations = [⟨.zero, newYear.clock⟩] := ⟨_, rfl, rfl, rfl⟩
  obtain ⟨s, hs, hclock, hinvocations⟩ := hrun
  refine ⟨february31.accepted, february31_never, s,
    .run hreach (LabelledSystem.meets_true _ _) hs, hclock, hinvocations, fun h => ?_⟩
  rw [hinvocations] at h
  have hmatch := (h.matched _ List.mem_cons_self).1
  rw [february31_never] at hmatch
  cases hmatch

end JobLoop

end Memoark.Scheduler
