import Mathlib

/-!
# The targets of a rule

`TargetPool` keeps which targets are healthy and which one is active, and both
`connect_active` loops go down the priority list with it. The active target is always the
healthy one of highest priority, or the primary when none is healthy.
-/

set_option autoImplicit false

namespace PortsBox

/-- The targets in priority order, with their health. -/
structure TargetPool where
  targets : List String
  healthy : List Bool
  active : Nat
  cooldown : Option Nat
  sized : healthy.length = targets.length
  nonempty : targets ≠ []

namespace TargetPool

def new (targets : List String) (nonempty : targets ≠ []) (cooldown : Option Nat) : TargetPool where
  targets := targets
  healthy := targets.map fun _ => true
  active := 0
  cooldown := cooldown
  sized := List.length_map ..
  nonempty := nonempty

def len (pool : TargetPool) : Nat := pool.targets.length

def pick (pool : TargetPool) : Nat × String := (pool.active, pool.targets.getD pool.active "")

def isHealthy (pool : TargetPool) (i : Nat) : Bool := pool.healthy.getD i false

def updateActive (pool : TargetPool) : TargetPool :=
  let next := (pool.healthy.findIdx? id).getD 0
  if next = pool.active then pool else { pool with active := next }

/-- `healthy[i].store(up)` -/
def setHealthy (pool : TargetPool) (i : Nat) (up : Bool) : TargetPool :=
  { pool with
    healthy := pool.healthy.set i up
    sized := (List.length_set ..).trans pool.sized }

/-- The pool, and the delay after which the spawned task marks the target up again. -/
def markDown (pool : TargetPool) (i : Nat) : TargetPool × Option Nat :=
  if pool.isHealthy i then ((pool.setHealthy i false).updateActive, pool.cooldown)
  else (pool, none)

def markUp (pool : TargetPool) (i : Nat) : TargetPool :=
  if pool.isHealthy i then pool else (pool.setHealthy i true).updateActive

/-- The time it also stores is only read by the probes. -/
def confirm (pool : TargetPool) (i : Nat) : TargetPool := pool.markUp i

end TargetPool

/-! ## Connecting -/

/-- What a connection attempt comes to. -/
inductive Attempt where
  | connected
  | failed (error : String)
  | timedOut
  deriving DecidableEq, Repr

/-- The error an attempt leaves behind, for a TCP `connect` or a UDP `session`. -/
def Attempt.error (what target : String) : Attempt → Option String
  | connected => none
  | failed error => some (what ++ " to " ++ target ++ " failed: " ++ error)
  | timedOut => some (what ++ " to " ++ target ++ " timed out")

/-- What a `connect_active` call leaves: the pool, the index connected to or the last error, and
the indices it tried. -/
structure Connecting where
  pool : TargetPool
  result : Except String Nat
  tried : List Nat

/-- The loop both `connect_active` functions run; the number of rounds left comes first. -/
def failover (what : String) (connected : TargetPool → Nat → TargetPool) (attempt : Nat → Attempt) :
    Nat → TargetPool → Option String → Connecting
  | 0, pool, lastErr => ⟨pool, .error (lastErr.getD "no targets"), []⟩
  | rounds + 1, pool, _ =>
    let (i, target) := pool.pick
    match (attempt i).error what target with
    | none => ⟨connected pool i, .ok i, [i]⟩
    | some error =>
      let pool := (pool.markDown i).1
      if pool.pick.1 = i then ⟨pool, .error error, [i]⟩
      else
        let rest := failover what connected attempt rounds pool (some error)
        { rest with tried := i :: rest.tried }

/-- `connect_active` of the TCP side. -/
def Tcp.connectActive (pool : TargetPool) (attempt : Nat → Attempt) : Connecting :=
  failover "connect" TargetPool.confirm attempt pool.len pool none

/-- `connect_active` of the UDP side, where only a reply confirms the target. -/
def Udp.connectActive (pool : TargetPool) (attempt : Nat → Attempt) : Connecting :=
  failover "session" (fun pool _ => pool) attempt pool.len pool none

/-! ## Calls -/

inductive PoolCall where
  | markDown (i : Nat)
  | markUp (i : Nat)
  | confirm (i : Nat)
  deriving DecidableEq, Repr

namespace TargetPool

def call (pool : TargetPool) : PoolCall → TargetPool
  | .markDown i => (pool.markDown i).1
  | .markUp i => pool.markUp i
  | .confirm i => pool.confirm i

def calls (pool : TargetPool) (run : List PoolCall) : TargetPool := run.foldl call pool

/-! ## The lowest healthy index -/

/-- The active target is the lowest healthy one, or the primary when none is healthy. -/
def LowestActive (pool : TargetPool) : Prop :=
  pool.active = (pool.healthy.findIdx? id).getD 0

theorem isHealthy_lt {pool : TargetPool} {i : Nat} (h : pool.isHealthy i = true) :
    i < pool.healthy.length := by
  by_contra hge
  rw [isHealthy, List.getD_eq_default _ _ (not_lt.mp hge)] at h
  cases h

theorem LowestActive.of_healthy {pool : TargetPool} (h : pool.LowestActive) {i : Nat}
    (hi : pool.isHealthy i = true) :
    pool.isHealthy pool.active = true ∧ ∀ j < pool.active, pool.isHealthy j = false := by
  have hlt := isHealthy_lt hi
  rw [isHealthy, List.getD_eq_getElem _ _ hlt] at hi
  have hsome := List.findIdx?_eq_some_of_exists (p := id) ⟨_, List.getElem_mem hlt, hi⟩
  have hactive : pool.active = pool.healthy.findIdx id := by
    rw [h, hsome]
    rfl
  rw [← hactive] at hsome
  obtain ⟨hbound, hself, hbefore⟩ := List.findIdx?_eq_some_iff_getElem.mp hsome
  constructor
  · rw [isHealthy, List.getD_eq_getElem _ _ hbound]
    exact hself
  · intro j hj
    rw [isHealthy, List.getD_eq_getElem _ _ (hj.trans hbound)]
    simpa using hbefore j hj

theorem LowestActive.of_none {pool : TargetPool} (h : pool.LowestActive)
    (hnone : ∀ i, pool.isHealthy i = false) : pool.active = 0 := by
  have hfind : pool.healthy.findIdx? id = none := by
    apply List.findIdx?_eq_none_iff.mpr
    intro up hup
    obtain ⟨i, hi, rfl⟩ := List.mem_iff_getElem.mp hup
    have hoff := hnone i
    rwa [isHealthy, List.getD_eq_getElem _ _ hi] at hoff
  rw [h, hfind]
  rfl

theorem updateActive_lowest (pool : TargetPool) : pool.updateActive.LowestActive := by
  unfold updateActive
  dsimp only
  split
  · rename_i hsame
    exact hsame.symm
  · rfl

@[simp] theorem updateActive_healthy (pool : TargetPool) :
    pool.updateActive.healthy = pool.healthy := by
  unfold updateActive
  dsimp only
  split <;> rfl

@[simp] theorem isHealthy_updateActive (pool : TargetPool) (i : Nat) :
    pool.updateActive.isHealthy i = pool.isHealthy i := by simp [isHealthy]

theorem isHealthy_setHealthy (pool : TargetPool) (i : Nat) (up : Bool) (j : Nat) :
    (pool.setHealthy i up).isHealthy j =
      if i = j ∧ j < pool.healthy.length then up else pool.isHealthy j := by
  simp only [isHealthy, setHealthy, List.getD_eq_getElem?_getD, List.getElem?_set]
  by_cases hij : i = j
  · subst hij
    by_cases hlt : i < pool.healthy.length <;> simp [hlt]
  · simp [hij]

theorem new_lowest (targets : List String) (nonempty : targets ≠ []) (cooldown : Option Nat) :
    (new targets nonempty cooldown).LowestActive := by
  cases targets with
  | nil => exact absurd rfl nonempty
  | cons target targets => rfl

/-- What `mark_down` leaves: one target unhealthy, the others as they were. -/
theorem isHealthy_markDown (pool : TargetPool) (i j : Nat) :
    (pool.markDown i).1.isHealthy j = if i = j then false else pool.isHealthy j := by
  unfold markDown
  split
  · rename_i hup
    have hlt := isHealthy_lt hup
    rw [isHealthy_updateActive, isHealthy_setHealthy]
    by_cases hij : i = j
    · subst hij
      simp [hlt]
    · simp [hij]
  · rename_i hdown
    by_cases hij : i = j
    · subst hij
      simpa using hdown
    · rw [if_neg hij]

/-- What `mark_up` leaves: one target healthy, if there is such a target. -/
theorem isHealthy_markUp (pool : TargetPool) (i j : Nat) :
    (pool.markUp i).isHealthy j =
      if i = j ∧ j < pool.healthy.length then true else pool.isHealthy j := by
  unfold markUp
  split
  · rename_i hup
    split
    · rename_i hij
      rw [← hij.1, hup]
    · rfl
  · rw [isHealthy_updateActive, isHealthy_setHealthy]

theorem markDown_lowest {pool : TargetPool} (h : pool.LowestActive) (i : Nat) :
    (pool.markDown i).1.LowestActive := by
  unfold markDown
  split
  · exact updateActive_lowest _
  · exact h

theorem markUp_lowest {pool : TargetPool} (h : pool.LowestActive) (i : Nat) :
    (pool.markUp i).LowestActive := by
  unfold markUp
  split
  · exact h
  · exact updateActive_lowest _

theorem call_lowest {pool : TargetPool} (h : pool.LowestActive) (c : PoolCall) :
    (pool.call c).LowestActive := by
  cases c with
  | markDown i => exact markDown_lowest h i
  | markUp i => exact markUp_lowest h i
  | confirm i => exact markUp_lowest h i

theorem calls_lowest {pool : TargetPool} (h : pool.LowestActive) (run : List PoolCall) :
    (pool.calls run).LowestActive := by
  induction run generalizing pool with
  | nil => exact h
  | cons c run ih => exact ih (call_lowest h c)

end TargetPool

end PortsBox
