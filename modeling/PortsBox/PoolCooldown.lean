import PortsBox.Lib.Timers
import PortsBox.PoolCore

/-!
# How long a target cools down

A pool with a cooldown on the clock: every outage spawns a task that marks its target up again
after the cooldown, and a `confirm` does not cancel it. So an outage that starts while a task
of an earlier one is pending is cut short, and any other lasts as long as it should.
-/

set_option autoImplicit false

namespace PortsBox

/-- A task `mark_down` spawned: its number and the target it marks up. -/
structure Rearm where
  task : Nat
  target : Nat
  deriving DecidableEq, Repr

def rearm (pool : TargetPool) (task : Rearm) : TargetPool := pool.markUp task.target

/-- A pool, the clock and the pending tasks, and how many have been spawned. -/
structure TimedPool extends Clocked TargetPool Rearm where
  spawned : Nat

inductive PoolEvent where
  | markDown (i : Nat)
  | confirm (i : Nat)
  | tick (t : Tick Rearm)
  deriving DecidableEq, Repr

namespace TimedPool

def start (targets : List String) (nonempty : targets ≠ []) (cooldown : Nat) : TimedPool :=
  ⟨⟨TargetPool.new targets nonempty (some cooldown), 0, []⟩, 0⟩

def markDown (s : TimedPool) (i : Nat) : TimedPool :=
  match s.state.markDown i with
  | (pool, none) => { s with state := pool }
  | (pool, some cooldown) =>
    { s with
      state := pool
      pending := ⟨s.now + cooldown, ⟨s.spawned, i⟩⟩ :: s.pending
      spawned := s.spawned + 1 }

def step (s : TimedPool) : PoolEvent → Option TimedPool
  | .markDown i => some (s.markDown i)
  | .confirm i => some { s with state := s.state.confirm i }
  | .tick t => (s.toClocked.tick rearm t).map fun clocked => ⟨clocked, s.spawned⟩

def steps (s : TimedPool) : List PoolEvent → Option TimedPool
  | [] => some s
  | e :: rest => (s.step e).bind (steps · rest)

/-- The outage of `i` that starts here lasts for the cooldown `c` unless `i` is confirmed, and no
task of an earlier outage ends it. -/
structure CoolsDown (s : TimedPool) (c i : Nat) : Prop where
  stays : ∀ run after, s.steps (.markDown i :: run) = some after → .confirm i ∉ run →
    after.now < s.now + c → after.state.isHealthy i = false
  ownTask : ∀ run after timer next, s.steps (.markDown i :: run) = some after →
    .confirm i ∉ run → timer.payload.task < s.spawned →
    after.step (.tick (.fire timer)) = some next →
    after.state.isHealthy i = false → next.state.isHealthy i = false

/-! ## Steps -/

theorem steps_append (s : TimedPool) (first rest : List PoolEvent) :
    s.steps (first ++ rest) = (s.steps first).bind (steps · rest) := by
  induction first generalizing s with
  | nil => rfl
  | cons e first ih => simp only [List.cons_append, steps, ih, Option.bind_assoc]

/-- What holds at the start and across every step of a run holds at its end. -/
theorem steps_preserve {P : TimedPool → Prop} {run : List PoolEvent}
    (hstep : ∀ s e after, e ∈ run → P s → s.step e = some after → P after)
    {s after : TimedPool} (hstart : P s) (hrun : s.steps run = some after) : P after := by
  induction run generalizing s with
  | nil => exact Option.some.inj hrun ▸ hstart
  | cons e run ih =>
    obtain ⟨middle, hfirst, hrest⟩ := Option.bind_eq_some_iff.mp hrun
    have hmiddle := hstep s e middle List.mem_cons_self hstart hfirst
    exact ih (fun s e after he => hstep s e after (List.mem_cons_of_mem _ he)) hmiddle hrest

theorem steps_ticks {s : TimedPool} {run : List (Tick Rearm)} {clocked : Clocked TargetPool Rearm}
    (h : s.toClocked.ticks rearm run = some clocked) :
    s.steps (run.map .tick) = some ⟨clocked, s.spawned⟩ := by
  induction run generalizing s with
  | nil =>
    obtain rfl := Option.some.inj h
    rfl
  | cons t run ih =>
    obtain ⟨middle, hfirst, hrest⟩ := Option.bind_eq_some_iff.mp h
    have hstep : s.step (.tick t) = some ⟨middle, s.spawned⟩ := by
      rw [step, hfirst, Option.map_some]
    rw [List.map_cons, steps, hstep, Option.bind_some]
    exact ih hrest

@[simp] theorem updateActive_cooldown (pool : TargetPool) :
    pool.updateActive.cooldown = pool.cooldown := by
  unfold TargetPool.updateActive
  dsimp only
  split <;> rfl

theorem cooldown_markUp (pool : TargetPool) (i : Nat) :
    (pool.markUp i).cooldown = pool.cooldown := by
  unfold TargetPool.markUp
  split
  · rfl
  · exact updateActive_cooldown _

/-- What `mark_down` does where there is a cooldown. -/
theorem markDown_cases {s : TimedPool} {c : Nat} (hcooldown : s.state.cooldown = some c) (i : Nat) :
    (s.state.isHealthy i = true ∧ s.markDown i =
        { s with
          state := (s.state.setHealthy i false).updateActive
          pending := ⟨s.now + c, ⟨s.spawned, i⟩⟩ :: s.pending
          spawned := s.spawned + 1 }) ∨
      (s.state.isHealthy i = false ∧ s.markDown i = s) := by
  unfold markDown TargetPool.markDown
  cases hup : s.state.isHealthy i with
  | true =>
    left
    simp [hcooldown]
  | false =>
    right
    simp

theorem state_markDown (s : TimedPool) (i : Nat) :
    (s.markDown i).state = (s.state.markDown i).1 := by
  unfold markDown
  split <;> rename_i heq <;> rw [heq]

/-- A run does not add or remove targets. -/
theorem length_markUp (pool : TargetPool) (i : Nat) :
    (pool.markUp i).healthy.length = pool.healthy.length := by
  unfold TargetPool.markUp
  split
  · rfl
  · rw [TargetPool.updateActive_healthy, TargetPool.setHealthy, List.length_set]

theorem isHealthy_markUp_of_ne (pool : TargetPool) {i j : Nat} (h : i ≠ j) :
    (pool.markUp i).isHealthy j = pool.isHealthy j := by
  rw [TargetPool.isHealthy_markUp, if_neg fun hij => h hij.1]

theorem step_tick {s after : TimedPool} {t : Tick Rearm} (h : s.step (.tick t) = some after) :
    s.toClocked.tick rearm t = some after.toClocked ∧ after.spawned = s.spawned := by
  obtain ⟨clocked, hclocked, rfl⟩ := Option.map_eq_some_iff.mp h
  exact ⟨hclocked, rfl⟩

/-! ## What every run keeps -/

/-- The pool has its cooldown, no task is overdue or due after it, and the tasks are spawned
ones. -/
structure Armed (c : Nat) (s : TimedPool) : Prop where
  cooldown : s.state.cooldown = some c
  onTime : s.OnTime
  near : ∀ timer ∈ s.pending, timer.due ≤ s.now + c
  known : ∀ timer ∈ s.pending, timer.payload.task < s.spawned

variable {c : Nat} {s after : TimedPool}

theorem armed_start (targets : List String) (nonempty : targets ≠ []) (c : Nat) :
    (start targets nonempty c).Armed c :=
  ⟨rfl, fun _ h => absurd h List.not_mem_nil, fun _ h => absurd h List.not_mem_nil,
    fun _ h => absurd h List.not_mem_nil⟩

theorem Armed.markDown (h : s.Armed c) (i : Nat) : (s.markDown i).Armed c := by
  rcases markDown_cases h.cooldown i with ⟨-, heq⟩ | ⟨-, heq⟩
  · rw [heq]
    refine ⟨(updateActive_cooldown _).trans h.cooldown, ?_, ?_, ?_⟩
    · intro timer hmem
      rcases List.mem_cons.mp hmem with rfl | hmem
      · exact Nat.le_add_right s.now c
      · exact h.onTime timer hmem
    · intro timer hmem
      rcases List.mem_cons.mp hmem with rfl | hmem
      · exact le_rfl
      · exact h.near timer hmem
    · intro timer hmem
      rcases List.mem_cons.mp hmem with rfl | hmem
      · exact Nat.lt_succ_self s.spawned
      · exact Nat.lt_succ_of_lt (h.known timer hmem)
  · rwa [heq]

theorem Armed.step (h : s.Armed c) {e : PoolEvent} (hstep : s.step e = some after) :
    after.Armed c := by
  cases e with
  | markDown i => exact Option.some.inj hstep ▸ h.markDown i
  | confirm i =>
    obtain rfl := Option.some.inj hstep
    exact ⟨(cooldown_markUp _ _).trans h.cooldown, h.onTime, h.near, h.known⟩
  | tick t =>
    obtain ⟨htick, hspawned⟩ := step_tick hstep
    refine ⟨?_, h.onTime.tick htick, ?_, ?_⟩
    · cases t with
      | sleep span =>
        rw [(Clocked.tick_sleep_iff.mp htick).2]
        exact h.cooldown
      | fire timer =>
        rw [(Clocked.tick_fire_iff.mp htick).2]
        exact (cooldown_markUp _ _).trans h.cooldown
    · intro timer hmem
      have hnow := Clocked.now_le_of_tick htick
      exact (h.near timer (Clocked.mem_of_tick htick hmem)).trans (Nat.add_le_add_right hnow c)
    · intro timer hmem
      rw [hspawned]
      exact h.known timer (Clocked.mem_of_tick htick hmem)

theorem Armed.steps (h : s.Armed c) {run : List PoolEvent} (hrun : s.steps run = some after) :
    after.Armed c :=
  steps_preserve (fun _ _ _ _ hs hstep => hs.step hstep) h hrun

/-! ## An outage with no task pending -/

/-- What holds since the outage of `i` that starts in `first`, as long as `i` is not confirmed. -/
structure Cooling (first : TimedPool) (c i : Nat) (s : TimedPool) : Prop where
  later : first.now ≤ s.now
  more : first.spawned ≤ s.spawned
  tasks : ∀ timer ∈ s.pending, timer.payload.target = i →
    first.now + c ≤ timer.due ∧ first.spawned ≤ timer.payload.task
  down : s.now < first.now + c → s.state.isHealthy i = false

variable {first : TimedPool} {i : Nat}

theorem Cooling.markDown (h : Cooling first c i s) (harmed : s.Armed c) (j : Nat) :
    Cooling first c i (s.markDown j) := by
  rcases markDown_cases harmed.cooldown j with ⟨-, heq⟩ | ⟨-, heq⟩
  · refine ⟨?_, ?_, ?_, ?_⟩
    · rw [heq]
      exact h.later
    · rw [heq]
      exact Nat.le_succ_of_le h.more
    · rw [heq]
      intro timer hmem htarget
      rcases List.mem_cons.mp hmem with rfl | hmem
      · exact ⟨Nat.add_le_add_right h.later c, h.more⟩
      · exact h.tasks timer hmem htarget
    · intro hlt
      have hnow : (s.markDown j).now = s.now := by rw [heq]
      rw [hnow] at hlt
      rw [state_markDown, TargetPool.isHealthy_markDown, h.down hlt, ite_self]
  · rwa [heq]

theorem Cooling.step (h : Cooling first c i s) (harmed : s.Armed c) {e : PoolEvent}
    (hconfirm : e ≠ .confirm i) (hstep : s.step e = some after) : Cooling first c i after := by
  cases e with
  | markDown j => exact Option.some.inj hstep ▸ h.markDown harmed j
  | confirm j =>
    obtain rfl := Option.some.inj hstep
    have hother : j ≠ i := by
      rintro rfl
      exact hconfirm rfl
    refine ⟨h.later, h.more, h.tasks, ?_⟩
    intro hlt
    exact (isHealthy_markUp_of_ne _ hother).trans (h.down hlt)
  | tick t =>
    obtain ⟨htick, hspawned⟩ := step_tick hstep
    refine ⟨h.later.trans (Clocked.now_le_of_tick htick), hspawned ▸ h.more, ?_, ?_⟩
    · intro timer hmem
      exact h.tasks timer (Clocked.mem_of_tick htick hmem)
    · cases t with
      | sleep span =>
        rw [(Clocked.tick_sleep_iff.mp htick).2]
        intro hlt
        exact h.down (lt_of_le_of_lt (Nat.le_add_right _ span) hlt)
      | fire timer =>
        obtain ⟨⟨hmem, hdue⟩, hafter⟩ := Clocked.tick_fire_iff.mp htick
        rw [hafter]
        intro hlt
        -- a task of this target is not due before the outage ends
        have hother : timer.payload.target ≠ i := by
          intro htarget
          have hlate := (h.tasks timer hmem htarget).1
          rw [hdue] at hlate
          exact absurd hlt (not_lt.mpr hlate)
        exact (isHealthy_markUp_of_ne _ hother).trans (h.down hlt)

/-- Marking a target down that no pending task marks up starts an outage. -/
theorem cooling_markDown (harmed : s.Armed c) (hup : s.state.isHealthy i = true)
    (hnone : ∀ timer ∈ s.pending, timer.payload.target ≠ i) : Cooling s c i (s.markDown i) := by
  rcases markDown_cases harmed.cooldown i with ⟨-, heq⟩ | ⟨hdown, -⟩
  · refine ⟨?_, ?_, ?_, ?_⟩
    · rw [heq]
    · rw [heq]
      exact Nat.le_succ s.spawned
    · rw [heq]
      intro timer hmem htarget
      rcases List.mem_cons.mp hmem with rfl | hmem
      · exact ⟨le_rfl, le_rfl⟩
      · exact absurd htarget (hnone timer hmem)
    · intro _
      rw [state_markDown, TargetPool.isHealthy_markDown, if_pos rfl]
  · rw [hup] at hdown
    cases hdown

theorem cooling_run (harmed : s.Armed c) (hup : s.state.isHealthy i = true)
    (hnone : ∀ timer ∈ s.pending, timer.payload.target ≠ i) {run : List PoolEvent}
    (hrun : s.steps (.markDown i :: run) = some after) (hconfirm : .confirm i ∉ run) :
    Cooling s c i after := by
  have hrest : (s.markDown i).steps run = some after := hrun
  have hboth := steps_preserve (P := fun s' => s'.Armed c ∧ Cooling s c i s')
    (fun s' e next he hs' hstep =>
      ⟨hs'.1.step hstep, hs'.2.step hs'.1 (fun heq => hconfirm (heq ▸ he)) hstep⟩)
    ⟨harmed.markDown i, cooling_markDown harmed hup hnone⟩ hrest
  exact hboth.2

theorem coolsDown_of_none (harmed : s.Armed c) (hup : s.state.isHealthy i = true)
    (hnone : ∀ timer ∈ s.pending, timer.payload.target ≠ i) : s.CoolsDown c i := by
  constructor
  · intro run after hrun hconfirm
    exact (cooling_run harmed hup hnone hrun hconfirm).down
  · intro run after timer next hrun hconfirm hearlier hfire hdown
    have hcooling := cooling_run harmed hup hnone hrun hconfirm
    obtain ⟨⟨hmem, -⟩, hnext⟩ := Clocked.tick_fire_iff.mp (step_tick hfire).1
    have hother : timer.payload.target ≠ i := by
      intro htarget
      exact absurd (hcooling.tasks timer hmem htarget).2 (not_le.mpr hearlier)
    rw [hnext]
    exact (isHealthy_markUp_of_ne _ hother).trans hdown

/-! ## An outage with a task pending -/

/-- The task of a target that is due first gets to fire, and the target is down until then. -/
theorem reaches_first (honTime : s.OnTime) (hdown : s.state.isHealthy i = false)
    {early : Timer Rearm} (hmem : early ∈ s.pending)
    (hfirst : ∀ other ∈ s.pending, other.payload.target = i → early.due ≤ other.due) :
    ∃ run after, s.steps run = some after ∧ .confirm i ∉ run ∧
      (early ∈ after.pending ∧ early.due = after.now) ∧ after.state.isHealthy i = false ∧
      after.state.healthy.length = s.state.healthy.length := by
  obtain ⟨run, clocked, hrun, hnow, hkept, hsame⟩ :=
    honTime.drain rearm (honTime early hmem)
  have hstate := hsame
    (fun pool => pool.isHealthy i = false ∧ pool.healthy.length = s.state.healthy.length)
  refine ⟨run.map .tick, ⟨clocked, s.spawned⟩, steps_ticks hrun, by simp,
    ⟨hkept early hmem le_rfl, hnow.symm⟩, hstate ?_ ⟨hdown, rfl⟩⟩
  intro other hother hbefore pool hpool
  have hne : other.payload.target ≠ i := by
    intro htarget
    exact absurd hbefore (not_lt.mpr (hfirst other hother htarget))
  exact ⟨(isHealthy_markUp_of_ne _ hne).trans hpool.1, (length_markUp _ _).trans hpool.2⟩

/-- Of the pending tasks of the target, the one due first ends the outage. -/
theorem not_coolsDown_of_pending (harmed : s.Armed c) (hup : s.state.isHealthy i = true)
    {timer : Timer Rearm} (hmem : timer ∈ s.pending) (htarget : timer.payload.target = i) :
    ¬ s.CoolsDown c i := by
  intro hcools
  obtain ⟨early, hearly, htask, hfirst⟩ := Clocked.exists_first s.pending
    (p := fun timer => timer.payload.target = i) ⟨timer, hmem, htarget⟩
  rcases markDown_cases harmed.cooldown i with ⟨-, heq⟩ | ⟨hoff, -⟩
  · have hpending : (s.markDown i).pending =
        ⟨s.now + c, ⟨s.spawned, i⟩⟩ :: s.pending := by rw [heq]
    have hlength : (s.markDown i).state.healthy.length = s.state.healthy.length := by
      rw [heq]
      simp [TargetPool.setHealthy]
    have hdown : (s.markDown i).state.isHealthy i = false := by
      rw [state_markDown, TargetPool.isHealthy_markDown, if_pos rfl]
    have hfirst' : ∀ other ∈ (s.markDown i).pending, other.payload.target = i →
        early.due ≤ other.due := by
      intro other hother hsame
      rw [hpending] at hother
      rcases List.mem_cons.mp hother with rfl | hother
      · exact harmed.near early hearly
      · exact hfirst other hother hsame
    obtain ⟨run, after, hrun, hconfirm, hdue, hstill, hsize⟩ :=
      reaches_first (harmed.markDown i).onTime hdown
        (hpending ▸ List.mem_cons_of_mem _ hearly) hfirst'
    have hfire : after.step (.tick (.fire early)) =
        some ⟨⟨rearm after.state early.payload, after.now, after.pending.erase early⟩,
          after.spawned⟩ := by
      rw [step, Clocked.tick_fire_iff.mpr ⟨hdue, rfl⟩, Option.map_some]
    have hend := hcools.ownTask run after early _ hrun hconfirm (harmed.known early hearly)
      hfire hstill
    have hback : (after.state.markUp early.payload.target).isHealthy i = true := by
      rw [htask, TargetPool.isHealthy_markUp, if_pos]
      exact ⟨rfl, hsize ▸ hlength ▸ TargetPool.isHealthy_lt hup⟩
    exact absurd (hback.symm.trans hend) (by decide)
  · rw [hup] at hoff
    cases hoff

/-- In every run, an outage that starts at some point of it lasts for the cooldown, whatever
follows, exactly where no task of an earlier outage of the target is pending. -/
theorem cools_down_iff (targets : List String) (nonempty : targets ≠ []) (cooldown : Nat)
    (run : List PoolEvent) (s : TimedPool)
    (hrun : (start targets nonempty cooldown).steps run = some s) (i : Nat)
    (hup : s.state.isHealthy i = true) :
    s.CoolsDown cooldown i ↔ ∀ timer ∈ s.pending, timer.payload.target ≠ i := by
  have harmed := (armed_start targets nonempty cooldown).steps hrun
  constructor
  · intro hcools timer hmem htarget
    exact not_coolsDown_of_pending harmed hup hmem htarget hcools
  · exact coolsDown_of_none harmed hup

/-- After an outage that its own task has ended, the next one lasts for the cooldown. -/
theorem cools_down_iff_ended :
    ∃ s, (start ["a:1", "b:1"] (by decide) 30).steps
        [.markDown 0, .tick (.sleep 30), .tick (.fire ⟨30, ⟨0, 0⟩⟩)] = some s ∧
      s.CoolsDown 30 0 := by
  refine ⟨_, rfl, ?_⟩
  apply (cools_down_iff ["a:1", "b:1"] (by decide) 30
    [.markDown 0, .tick (.sleep 30), .tick (.fire ⟨30, ⟨0, 0⟩⟩)] _ rfl 0 rfl).mpr
  intro timer hmem
  exact absurd hmem List.not_mem_nil

/-- An outage that a `confirm` ends leaves its task behind, which ends the next outage after 29 of
its 30 seconds. -/
theorem not_coolsDown_confirmed :
    ∃ s after, (start ["a:1", "b:1"] (by decide) 30).steps
        [.markDown 0, .tick (.sleep 1), .confirm 0] = some s ∧
      s.now = 1 ∧ s.state.isHealthy 0 = true ∧
      s.steps [.markDown 0, .tick (.sleep 29), .tick (.fire ⟨30, ⟨0, 0⟩⟩)] = some after ∧
      after.now < s.now + 30 ∧ after.state.isHealthy 0 = true ∧ ¬ s.CoolsDown 30 0 := by
  refine ⟨_, _, rfl, rfl, rfl, rfl, by decide, rfl, ?_⟩
  intro hcools
  have hdown := hcools.stays [.tick (.sleep 29), .tick (.fire ⟨30, ⟨0, 0⟩⟩)] _ rfl (by decide)
    (by decide)
  cases hdown

end TimedPool

end PortsBox
