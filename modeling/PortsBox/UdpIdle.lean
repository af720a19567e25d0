import Mathlib.Data.List.Basic
import Mathlib.Order.Lattice
import Mathlib.Order.MinMax
import Mathlib.Tactic.Common

/-!
# Idle UDP sessions

The clock of one session: `last_active`, which the shard loop and the downstream task both
store after reading the clock, and the `idle` timer of `relay_downstream`, which looks at it
again when it fires. A store may come late and overwrite a newer one. Times are nanoseconds
since the relay's epoch, `last_active` is in milliseconds, as the code has it.
-/

set_option autoImplicit false

namespace PortsBox

/-- Nanoseconds in a millisecond. -/
def nsPerMs : Nat := 1000000

/-- `idle_timeout`, and what the scheduler promises: how long a task takes from its reading of the
clock to its store, and how long after its time a timer is polled. -/
structure IdlePace where
  timeout : Nat
  delay : Nat
  slack : Nat

structure SessionClock where
  now : Nat
  lastActive : Nat
  /-- Readings of the clock that have not been stored. -/
  readings : List Nat
  /-- The time of the latest packet that is stored; no code reads it. -/
  latest : Nat
  /-- When `relay_downstream` began, and when its timer fires. -/
  timer : Option (Nat × Nat)
  /-- When the session ended for being idle, with its latest packet then. -/
  ended : Option (Nat × Nat)
  deriving DecidableEq, Repr

namespace SessionClock

/-- `now_ms` -/
def nowMs (now : Nat) : Nat := now / nsPerMs

/-- `connect_active` returns at this time. -/
def connected (now : Nat) : SessionClock where
  now := now
  lastActive := nowMs now
  readings := []
  latest := now
  timer := none
  ended := none

inductive Step where
  | sleep (span : Nat)
  /-- A packet in either direction reads the clock. -/
  | read
  | store (reading : Nat)
  /-- `relay_downstream` begins. -/
  | relay
  /-- The `idle` branch of its `select!`. -/
  | idle
  deriving DecidableEq, Repr

variable (pace : IdlePace)

/-- `idle_deadline` -/
def idleDeadline (s : SessionClock) : Nat := s.lastActive * nsPerMs + pace.timeout

/-- Whether the tasks still keep their pace at a time. -/
def inTime (s : SessionClock) (now : Nat) : Bool :=
  s.readings.all (fun reading => now ≤ reading + pace.delay) &&
    (s.ended.isSome || s.timer.all fun timer => now ≤ timer.2 + pace.slack)

def step (s : SessionClock) : Step → Option SessionClock
  | .sleep span =>
    if s.inTime pace (s.now + span) then some { s with now := s.now + span } else none
  | .read => some { s with readings := s.now :: s.readings }
  | .store reading =>
    if reading ∈ s.readings then
      some { s with
        lastActive := nowMs reading
        readings := s.readings.erase reading
        latest := max s.latest reading }
    else none
  | .relay =>
    match s.timer with
    | some _ => none
    -- a deadline that has passed fires at once
    | none => some { s with timer := some (s.now, max s.now (s.idleDeadline pace)) }
  | .idle =>
    match s.ended, s.timer with
    | none, some (began, fires) =>
      if s.now < fires then none
      else if s.idleDeadline pace ≤ s.now then some { s with ended := some (s.now, s.latest) }
      else some { s with timer := some (began, s.idleDeadline pace) }
    | _, _ => none

/-- What a step does. -/
inductive Steps (s : SessionClock) : Step → SessionClock → Prop
  | sleep {span : Nat} (htime : s.inTime pace (s.now + span) = true) :
      Steps s (.sleep span) { s with now := s.now + span }
  | read : Steps s .read { s with readings := s.now :: s.readings }
  | store {reading : Nat} (hread : reading ∈ s.readings) :
      Steps s (.store reading)
        { s with
          lastActive := nowMs reading
          readings := s.readings.erase reading
          latest := max s.latest reading }
  | relay (hnew : s.timer = none) :
      Steps s .relay { s with timer := some (s.now, max s.now (s.idleDeadline pace)) }
  | ends {began fires : Nat} (hlive : s.ended = none) (htimer : s.timer = some (began, fires))
      (hdeadline : s.idleDeadline pace ≤ s.now) :
      Steps s .idle { s with ended := some (s.now, s.latest) }
  | reset {began fires : Nat} (hlive : s.ended = none) (htimer : s.timer = some (began, fires))
      (hdeadline : s.now < s.idleDeadline pace) :
      Steps s .idle { s with timer := some (began, s.idleDeadline pace) }

/-- The clocks that any order of steps reaches. -/
inductive Reaches (pace : IdlePace) : SessionClock → Prop
  | connected (now : Nat) : Reaches pace (connected now)
  | step {s next : SessionClock} {step : Step} (before : Reaches pace s)
      (hstep : s.step pace step = some next) : Reaches pace next

/-- `last_active` is about the latest packet: no later, and earlier by less than a millisecond and
the time of a late store. -/
structure Paced (s : SessionClock) : Prop where
  readings : ∀ reading ∈ s.readings, reading ≤ s.now ∧ s.now ≤ reading + pace.delay
  latest_le : s.latest ≤ s.now
  active_le : s.lastActive * nsPerMs ≤ s.latest
  latest_lt : s.latest < s.lastActive * nsPerMs + nsPerMs + pace.delay
  timer : ∀ began fires, s.timer = some (began, fires) →
    fires ≤ max began (s.latest + pace.timeout) ∧
      (s.ended = none → s.now ≤ fires + pace.slack)
  ended : ∀ time latest, s.ended = some (time, latest) →
    latest + pace.timeout < time + nsPerMs + pace.delay

variable {pace} {s next : SessionClock}

theorem nowMs_mul_le (now : Nat) : nowMs now * nsPerMs ≤ now := Nat.div_mul_le_self now nsPerMs

theorem lt_nowMs_mul (now : Nat) : now < nowMs now * nsPerMs + nsPerMs :=
  Nat.lt_div_mul_add (by decide)

theorem paced_connected (now : Nat) : (connected now).Paced pace := by
  have hlow := nowMs_mul_le now
  have hhigh := lt_nowMs_mul now
  refine ⟨?_, le_rfl, hlow, ?_, ?_, ?_⟩
  · intro reading hreading
    cases hreading
  · show now < nowMs now * nsPerMs + nsPerMs + pace.delay
    omega
  · intro began fires htimer
    cases htimer
  · intro time latest hended
    cases hended

theorem inTime_iff {now : Nat} : s.inTime pace now = true ↔
    (∀ reading ∈ s.readings, now ≤ reading + pace.delay) ∧
      (s.ended = none → ∀ began fires, s.timer = some (began, fires) →
        now ≤ fires + pace.slack) := by
  unfold inTime
  rw [Bool.and_eq_true, List.all_eq_true, Bool.or_eq_true]
  refine and_congr (by simp) ?_
  cases s.ended with
  | some ended => simp
  | none =>
    cases s.timer with
    | none => simp
    | some timer =>
      rcases timer with ⟨began, fires⟩
      constructor
      · intro h _ _ _ heq
        obtain ⟨rfl, rfl⟩ := Prod.mk.inj (Option.some.inj heq)
        simpa using h
      · intro h
        simpa using h rfl began fires rfl

theorem steps_of_step {step : Step} (h : s.step pace step = some next) :
    Steps pace s step next := by
  cases step with
  | sleep span =>
    obtain ⟨htime, heq⟩ := Option.ite_none_right_eq_some.mp h
    obtain rfl := Option.some.inj heq
    exact Steps.sleep htime
  | read =>
    obtain rfl := Option.some.inj h
    exact Steps.read
  | store reading =>
    obtain ⟨hread, heq⟩ := Option.ite_none_right_eq_some.mp h
    obtain rfl := Option.some.inj heq
    exact Steps.store hread
  | relay =>
    unfold SessionClock.step at h
    cases htimer : s.timer with
    | some timer =>
      rw [htimer] at h
      cases h
    | none =>
      rw [htimer] at h
      obtain rfl := Option.some.inj h
      exact Steps.relay htimer
  | idle =>
    unfold SessionClock.step at h
    cases hlive : s.ended with
    | some ended =>
      rw [hlive] at h
      cases h
    | none =>
      cases htimer : s.timer with
      | none =>
        rw [hlive, htimer] at h
        cases h
      | some timer =>
        rcases timer with ⟨began, fires⟩
        rw [hlive, htimer] at h
        dsimp only at h
        split at h
        · cases h
        split at h
        · next hdeadline =>
          obtain rfl := Option.some.inj h
          exact htimer ▸ Steps.ends hlive htimer hdeadline
        · next hdeadline =>
          obtain rfl := Option.some.inj h
          exact hlive ▸ Steps.reset hlive htimer (not_le.mp hdeadline)

theorem Paced.step (h : s.Paced pace) {step : Step} (hsome : s.step pace step = some next) :
    next.Paced pace := by
  have hstep := steps_of_step hsome
  obtain ⟨hreadings, hle, hactive, hlatest, htimers, hended⟩ := h
  cases hstep with
  | @sleep span htime =>
    obtain ⟨hdelay, hslack⟩ := inTime_iff.mp htime
    refine ⟨?_, Nat.le_add_right_of_le hle, hactive, hlatest, ?_, hended⟩
    · intro reading hreading
      have hnow := (hreadings reading hreading).1
      exact ⟨Nat.le_add_right_of_le hnow, hdelay reading hreading⟩
    · intro began fires htimer
      refine ⟨(htimers began fires htimer).1, ?_⟩
      intro hlive
      exact hslack hlive began fires htimer
  | read =>
    refine ⟨?_, hle, hactive, hlatest, htimers, hended⟩
    intro reading hreading
    rcases List.mem_cons.mp hreading with rfl | hold
    · exact ⟨le_rfl, Nat.le_add_right _ _⟩
    · exact hreadings reading hold
  | @store reading hread =>
    obtain ⟨hpast, hdelay⟩ := hreadings reading hread
    have hlow := nowMs_mul_le reading
    have hhigh := lt_nowMs_mul reading
    refine ⟨?_, max_le hle hpast, hlow.trans (le_max_right _ _), ?_, ?_, hended⟩
    · intro other hother
      exact hreadings other (List.mem_of_mem_erase hother)
    · -- a newer packet may be stored already, but no newer than this store
      apply max_lt
      · show s.latest < nowMs reading * nsPerMs + nsPerMs + pace.delay
        omega
      · show reading < nowMs reading * nsPerMs + nsPerMs + pace.delay
        omega
    · intro began fires htimer
      obtain ⟨hfires, hlive⟩ := htimers began fires htimer
      refine ⟨hfires.trans (max_le_max le_rfl ?_), hlive⟩
      exact Nat.add_le_add_right (le_max_left _ _) _
  | relay hnew =>
    refine ⟨hreadings, hle, hactive, hlatest, ?_, hended⟩
    intro began fires htimer
    obtain ⟨rfl, rfl⟩ := Prod.mk.inj (Option.some.inj htimer)
    refine ⟨max_le_max le_rfl ?_, ?_⟩
    · exact Nat.add_le_add_right hactive _
    · intro _
      exact Nat.le_add_right_of_le (le_max_left _ _)
  | @ends began fires hlive htimer hdeadline =>
    refine ⟨hreadings, hle, hactive, hlatest, ?_, ?_⟩
    · intro began fires htimer
      refine ⟨(htimers began fires htimer).1, ?_⟩
      intro hnone
      cases hnone
    · intro time latest hsome
      obtain ⟨rfl, rfl⟩ := Prod.mk.inj (Option.some.inj hsome)
      unfold idleDeadline at hdeadline
      omega
  | @reset began fires hlive htimer hdeadline =>
    refine ⟨hreadings, hle, hactive, hlatest, ?_, hended⟩
    intro began' fires' htimer'
    obtain ⟨rfl, rfl⟩ := Prod.mk.inj (Option.some.inj htimer')
    refine ⟨(Nat.add_le_add_right hactive _).trans (le_max_right _ _), ?_⟩
    intro _
    exact Nat.le_add_right_of_le hdeadline.le

/-- A session ends for being idle when there was no packet for the timeout, but for the rounding
and a late store, and it has ended when the timeout is over and the timer was polled. -/
theorem idle_window (h : Reaches pace s) :
    (∀ time latest, s.ended = some (time, latest) →
      latest + pace.timeout < time + nsPerMs + pace.delay) ∧
    ∀ began fires, s.timer = some (began, fires) → s.ended = none →
      s.now ≤ max began (s.latest + pace.timeout) + pace.slack := by
  have hpaced : s.Paced pace := by
    induction h with
    | connected now => exact paced_connected now
    | step _ hstep ih => exact ih.step hstep
  refine ⟨hpaced.ended, ?_⟩
  intro began fires htimer hlive
  obtain ⟨hfires, hnow⟩ := hpaced.timer began fires htimer
  exact (hnow hlive).trans (Nat.add_le_add_right hfires _)

/-! ## A session kept open once -/

/-- The code's timeout. -/
def usualPace : IdlePace := ⟨60000000000, 1000000, 5000000⟩

theorem Reaches.run (steps : List Step) (h : Reaches pace s)
    (hrun : steps.foldlM (SessionClock.step pace) s = some next) : Reaches pace next := by
  induction steps generalizing s with
  | nil =>
    obtain rfl := Option.some.inj hrun
    exact h
  | cons step steps ih =>
    rw [List.foldlM_cons] at hrun
    obtain ⟨mid, hstep, hrest⟩ := Option.bind_eq_some_iff.mp hrun
    exact ih (h.step hstep) hrest

/-- A packet after half a minute; the timer fires in vain, and then once more. -/
def keptOpen : List Step :=
  [.relay, .sleep 30000000000, .read, .store 30000000000, .sleep 30000000000, .idle,
   .sleep 30000000000, .idle]

theorem idle_window_keptOpen : ∃ s, Reaches usualPace s ∧
    s.ended = some (90000000000, 30000000000) ∧
      30000000000 + usualPace.timeout < 90000000000 + nsPerMs + usualPace.delay := by
  have hrun : keptOpen.foldlM (step usualPace) (connected 0) =
      some ⟨90000000000, 30000, [], 30000000000, some (0, 90000000000),
        some (90000000000, 30000000000)⟩ := by decide +kernel
  have hreaches := (Reaches.connected 0).run keptOpen hrun
  exact ⟨_, hreaches, rfl, (idle_window hreaches).1 _ _ rfl⟩

end SessionClock

end PortsBox
