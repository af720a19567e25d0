import PortsBox.PoolCore

/-!
# Going down the priority list

With the reachability of the targets fixed, both `connect_active` loops end at the lowest
reachable healthy target, or at the primary when no healthy one is reachable, and mark down
the healthy targets they went past. The rounds, one for each target, are always enough.
-/

set_option autoImplicit false

namespace PortsBox

namespace TargetPool

/-! ## The healthy targets a loop has left -/

theorem isHealthy_of_count_zero {pool : TargetPool} (h : pool.healthy.count true = 0) (i : Nat) :
    pool.isHealthy i = false := by
  by_contra hup
  have htrue : pool.isHealthy i = true := by simpa using hup
  have hlt := isHealthy_lt htrue
  rw [isHealthy, List.getD_eq_getElem _ _ hlt] at htrue
  exact List.count_eq_zero.mp h (htrue ▸ List.getElem_mem hlt)

theorem count_markDown {pool : TargetPool} {i : Nat} (h : pool.isHealthy i = true) :
    (pool.markDown i).1.healthy.count true + 1 = pool.healthy.count true := by
  have hlt := isHealthy_lt h
  have hself : pool.healthy[i] = true := by
    rwa [isHealthy, List.getD_eq_getElem _ _ hlt] at h
  have hpos : 0 < pool.healthy.count true :=
    List.count_pos_iff.mpr (hself ▸ List.getElem_mem hlt)
  rw [markDown, if_pos h, updateActive_healthy, setHealthy, List.count_set hlt]
  simp [hself]
  omega

theorem count_lt_of_primary {pool : TargetPool} (h : pool.isHealthy 0 = false) :
    pool.healthy.count true < pool.len := by
  have hsized := pool.sized
  have hpos : 0 < pool.targets.length := List.length_pos_iff.mpr pool.nonempty
  unfold isHealthy at h
  unfold len
  cases hhealthy : pool.healthy with
  | nil =>
    rw [hhealthy, List.length_nil] at hsized
    omega
  | cons up rest =>
    rw [hhealthy] at h hsized
    have hoff : up = false := h
    have hle : rest.count true ≤ rest.length := List.count_le_length
    rw [hoff, List.count_cons_of_ne (by decide), ← hsized, List.length_cons]
    omega

/-- The rounds a loop may need: one for each healthy target, and one for a primary that is down
and yet reachable. -/
def roundsLeft (attempt : Nat → Attempt) (pool : TargetPool) : Nat :=
  pool.healthy.count true +
    if attempt 0 = .connected ∧ pool.isHealthy 0 = false then 1 else 0

theorem roundsLeft_le (attempt : Nat → Attempt) (pool : TargetPool) :
    pool.roundsLeft attempt ≤ pool.len := by
  have hle : pool.healthy.count true ≤ pool.len := by
    rw [len, ← pool.sized]
    exact List.count_le_length
  unfold roundsLeft
  split
  · rename_i hprimary
    have hlt := count_lt_of_primary hprimary.2
    omega
  · omega

/-! ## What a loop comes to -/

/-- The target to choose: the lowest reachable healthy one, or the primary when it is down and
no healthy one is reachable. -/
def Chosen (pool : TargetPool) (attempt : Nat → Attempt) (c : Nat) : Prop :=
  attempt c = .connected ∧
    ((pool.isHealthy c = true ∧
        ∀ j < c, pool.isHealthy j = true → attempt j ≠ .connected) ∨
      (c = 0 ∧ pool.isHealthy 0 = false ∧
        ∀ j, pool.isHealthy j = true → attempt j ≠ .connected))

/-- How a loop ends; `confirms` says whether connecting marks the target up. -/
def Ends (confirms : Bool) (pool : TargetPool) (attempt : Nat → Attempt) (out : Connecting) : Prop :=
  match out.result with
  | .ok c => pool.Chosen attempt c ∧
      ∀ j, out.pool.isHealthy j = true ↔
        (pool.isHealthy j = true ∧ pool.isHealthy c = true ∧ c ≤ j) ∨ (confirms = true ∧ j = c)
  | .error _ => (∀ j, pool.isHealthy j = true → attempt j ≠ .connected) ∧
      attempt 0 ≠ .connected ∧ (∀ j, out.pool.isHealthy j = false) ∧ out.pool.active = 0

theorem error_eq_none_iff {what target : String} {a : Attempt} :
    a.error what target = none ↔ a = .connected := by
  cases a <;> simp [Attempt.error]

section Step
variable {pool : TargetPool} (hlowest : pool.LowestActive)
include hlowest

/-- Where the active target is down, all are. -/
theorem LowestActive.none_of_down (hdown : pool.isHealthy pool.active = false) (j : Nat) :
    pool.isHealthy j = false := by
  by_contra hup
  have hactive := (hlowest.of_healthy (by simpa using hup : pool.isHealthy j = true)).1
  rw [hdown] at hactive
  cases hactive

theorem LowestActive.le (j : Nat) (hup : pool.isHealthy j = true) : pool.active ≤ j := by
  by_contra hlt
  have hdown := (hlowest.of_healthy hup).2 j (not_le.mp hlt)
  rw [hup] at hdown
  cases hdown

theorem LowestActive.active_lt : pool.active < pool.healthy.length := by
  cases hup : pool.isHealthy pool.active with
  | true => exact isHealthy_lt hup
  | false =>
    rw [hlowest.of_none (hlowest.none_of_down hup), pool.sized]
    exact List.length_pos_iff.mpr pool.nonempty

theorem chosen_active {attempt : Nat → Attempt} (hconnected : attempt pool.active = .connected) :
    pool.Chosen attempt pool.active := by
  refine ⟨hconnected, ?_⟩
  cases hup : pool.isHealthy pool.active with
  | true =>
    left
    refine ⟨rfl, ?_⟩
    intro j hj hj'
    exact absurd (hlowest.le j hj') (not_le.mpr hj)
  | false =>
    have hnone := hlowest.none_of_down hup
    have hzero := hlowest.of_none hnone
    right
    refine ⟨hzero, hnone 0, ?_⟩
    intro j hj
    rw [hnone j] at hj
    cases hj

/-- A target that is not reached is marked down; the rest of the loop then answers for the whole. -/
theorem Ends.of_markDown {confirms : Bool} {attempt : Nat → Attempt} {out : Connecting}
    (hfailed : attempt pool.active ≠ .connected)
    (hends : (pool.markDown pool.active).1.Ends confirms attempt out) :
    pool.Ends confirms attempt out := by
  have hdown := isHealthy_markDown pool pool.active
  have hother : ∀ j, attempt j = .connected → pool.active ≠ j := by
    rintro j hj rfl
    exact hfailed hj
  have hunreached : ∀ j, ((pool.markDown pool.active).1.isHealthy j = true →
      attempt j ≠ .connected) → pool.isHealthy j = true → attempt j ≠ .connected := by
    intro j hrest hup hj
    rw [hdown, if_neg (hother j hj)] at hrest
    exact hrest hup hj
  unfold Ends at hends ⊢
  split at hends
  · rename_i c hresult
    obtain ⟨⟨hconnected, hchoice⟩, hafter⟩ := hends
    have hc := hdown c
    rw [if_neg (hother c hconnected)] at hc
    constructor
    · refine ⟨hconnected, ?_⟩
      rcases hchoice with ⟨hup, hbelow⟩ | ⟨rfl, hoff, hnone⟩
      · left
        rw [hc] at hup
        exact ⟨hup, fun j hj => hunreached j (hbelow j hj)⟩
      · right
        rw [hc] at hoff
        exact ⟨rfl, hoff, fun j => hunreached j (hnone j)⟩
    · intro j
      rw [hafter, hc, hdown]
      by_cases hj : pool.active = j
      · subst hj
        have hnot : ¬ (pool.isHealthy c = true ∧ c ≤ pool.active) := by
          rintro ⟨hup, hle⟩
          exact hother c hconnected (le_antisymm (hlowest.le c hup) hle)
        simp [hnot]
      · rw [if_neg hj]
  · rename_i e hresult
    obtain ⟨hnone, hprimary, hend⟩ := hends
    exact ⟨fun j => hunreached j (hnone j), hprimary, hend⟩

/-- Where marking down does not move the active target, no target is left. -/
theorem ends_of_stuck {confirms : Bool} {attempt : Nat → Attempt} {error : String}
    (hfailed : attempt pool.active ≠ .connected)
    (hstuck : (pool.markDown pool.active).1.active = pool.active) (tried : List Nat) :
    pool.Ends confirms attempt ⟨(pool.markDown pool.active).1, .error error, tried⟩ := by
  have hdown := isHealthy_markDown pool pool.active
  have hlowest' := markDown_lowest hlowest pool.active
  have hoff : (pool.markDown pool.active).1.isHealthy
      (pool.markDown pool.active).1.active = false := by
    rw [hstuck, hdown, if_pos rfl]
  have hnone := hlowest'.none_of_down hoff
  have hzero := hlowest'.of_none hnone
  refine ⟨?_, ?_, hnone, hzero⟩
  · intro j hup
    have hj := hnone j
    rw [hdown] at hj
    by_cases heq : pool.active = j
    · rwa [← heq]
    · rw [if_neg heq, hup] at hj
      cases hj
  · rw [hstuck] at hzero
    rwa [hzero] at hfailed

theorem roundsLeft_markDown {attempt : Nat → Attempt} {rounds : Nat}
    (hfailed : attempt pool.active ≠ .connected)
    (hmoved : (pool.markDown pool.active).1.active ≠ pool.active)
    (hrounds : pool.roundsLeft attempt ≤ rounds + 1) :
    (pool.markDown pool.active).1.roundsLeft attempt ≤ rounds := by
  have hup : pool.isHealthy pool.active = true := by
    by_contra hoff
    apply hmoved
    rw [markDown, if_neg hoff]
  have hcount := count_markDown hup
  have hdown := isHealthy_markDown pool pool.active 0
  unfold roundsLeft at hrounds ⊢
  by_cases hprimary : attempt 0 = .connected
  · have hne : pool.active ≠ 0 := by
      intro hzero
      exact hfailed (hzero ▸ hprimary)
    have hoff := (hlowest.of_healthy hup).2 0 (Nat.pos_of_ne_zero hne)
    rw [if_neg hne, hoff] at hdown
    rw [if_pos ⟨hprimary, hdown⟩]
    rw [if_pos ⟨hprimary, hoff⟩] at hrounds
    omega
  · rw [if_neg fun h => hprimary h.1]
    omega

end Step

/-! ## The loop -/

section Loop
variable {what : String} {confirms : Bool} {connected : TargetPool → Nat → TargetPool}
  {attempt : Nat → Attempt}

section Round
variable {pool : TargetPool} (rounds : Nat) (lastErr : Option String)

theorem failover_connected
    (hnone : (attempt pool.active).error what (pool.targets.getD pool.active "") = none) :
    failover what connected attempt (rounds + 1) pool lastErr =
      ⟨connected pool pool.active, .ok pool.active, [pool.active]⟩ := by
  unfold failover
  dsimp only [pick]
  rw [hnone]

variable {error : String}
  (herror : (attempt pool.active).error what (pool.targets.getD pool.active "") = some error)
include herror

theorem failover_stuck (hstuck : (pool.markDown pool.active).1.active = pool.active) :
    failover what connected attempt (rounds + 1) pool lastErr =
      ⟨(pool.markDown pool.active).1, .error error, [pool.active]⟩ := by
  unfold failover
  dsimp only [pick]
  rw [herror]
  exact if_pos hstuck

theorem failover_moved (hmoved : (pool.markDown pool.active).1.active ≠ pool.active) :
    failover what connected attempt (rounds + 1) pool lastErr =
      let rest := failover what connected attempt rounds (pool.markDown pool.active).1 (some error)
      { rest with tried := pool.active :: rest.tried } := by
  rw [failover]
  dsimp only [pick]
  rw [herror]
  exact if_neg hmoved

end Round

theorem failover_ends
    (hconnected : ∀ pool : TargetPool, pool.LowestActive → ∀ j,
      (connected pool pool.active).isHealthy j = true ↔
        pool.isHealthy j = true ∨ (confirms = true ∧ j = pool.active))
    {rounds : Nat} {pool : TargetPool} (hlowest : pool.LowestActive)
    (hrounds : pool.roundsLeft attempt ≤ rounds) (lastErr : Option String) :
    pool.Ends confirms attempt (failover what connected attempt rounds pool lastErr) := by
  induction rounds generalizing pool lastErr with
  | zero =>
    have hcount : pool.healthy.count true = 0 := by
      unfold roundsLeft at hrounds
      omega
    have hnone := isHealthy_of_count_zero hcount
    refine ⟨?_, ?_, hnone, hlowest.of_none hnone⟩
    · intro j hup
      rw [hnone j] at hup
      cases hup
    · intro hprimary
      rw [roundsLeft, if_pos ⟨hprimary, hnone 0⟩] at hrounds
      omega
  | succ rounds ih =>
    cases herror : (attempt pool.active).error what (pool.targets.getD pool.active "") with
    | none =>
      have hreached := error_eq_none_iff.mp herror
      rw [failover_connected _ _ herror]
      refine ⟨chosen_active hlowest hreached, ?_⟩
      intro j
      rw [hconnected pool hlowest]
      refine or_congr_left ⟨?_, fun hkept => hkept.1⟩
      intro hup
      exact ⟨hup, (hlowest.of_healthy hup).1, hlowest.le j hup⟩
    | some error =>
      have hfailed : attempt pool.active ≠ .connected := by
        intro hreached
        rw [hreached] at herror
        cases herror
      by_cases hstuck : (pool.markDown pool.active).1.active = pool.active
      · rw [failover_stuck _ _ herror hstuck]
        exact ends_of_stuck hlowest hfailed hstuck _
      · rw [failover_moved _ _ herror hstuck]
        have hrest := ih (markDown_lowest hlowest pool.active)
          (roundsLeft_markDown hlowest hfailed hstuck hrounds) (some error)
        exact Ends.of_markDown hlowest hfailed hrest

theorem failover_tried (rounds : Nat) (pool : TargetPool) (lastErr : Option String) :
    (failover what connected attempt rounds pool lastErr).tried.length ≤ rounds := by
  induction rounds generalizing pool lastErr with
  | zero => exact le_rfl
  | succ rounds ih =>
    simp only [failover]
    split
    · exact Nat.succ_le_succ (Nat.zero_le rounds)
    · split
      · exact Nat.succ_le_succ (Nat.zero_le rounds)
      · exact Nat.succ_le_succ (ih _ _)

end Loop

/-! ## Both sides -/

theorem isHealthy_confirm {pool : TargetPool} (hlowest : pool.LowestActive) (j : Nat) :
    (pool.confirm pool.active).isHealthy j = true ↔
      pool.isHealthy j = true ∨ (true = true ∧ j = pool.active) := by
  have hrange := hlowest.active_lt
  rw [confirm, isHealthy_markUp]
  by_cases hj : pool.active = j
  · subst hj
    simp [hrange]
  · simp [hj, Ne.symm hj]

/-- What a `connect_active` call comes to; `confirms` says whether connecting marks the target
up, as on the TCP side. -/
structure FailsOver (confirms : Bool) (pool : TargetPool) (attempt : Nat → Attempt)
    (out : Connecting) : Prop where
  bounded : out.tried.length ≤ pool.len
  succeeds : (∃ c, out.result = .ok c) ↔
    ∃ i, (pool.isHealthy i = true ∨ i = 0) ∧ attempt i = .connected
  chosen : ∀ c, out.result = .ok c → pool.Chosen attempt c
  downed : ∀ c, out.result = .ok c → ∀ j, pool.isHealthy j = true →
    (out.pool.isHealthy j = false ↔ j < c ∨ pool.isHealthy c = false)
  upped : ∀ c, out.result = .ok c → ∀ j, pool.isHealthy j = false →
    (out.pool.isHealthy j = true ↔ confirms = true ∧ j = c)
  failed : ∀ e, out.result = .error e →
    (∀ j, out.pool.isHealthy j = false) ∧ out.pool.active = 0

theorem Ends.failsOver {confirms : Bool} {pool : TargetPool} {attempt : Nat → Attempt}
    {out : Connecting} (hends : pool.Ends confirms attempt out)
    (hbounded : out.tried.length ≤ pool.len) : pool.FailsOver confirms attempt out := by
  unfold Ends at hends
  cases hresult : out.result with
  | ok c =>
    rw [hresult] at hends
    obtain ⟨hchosen, hafter⟩ := hends
    have hsame : ∀ {c'}, out.result = .ok c' → c = c' := by
      intro c' hc'
      exact Except.ok.inj (hresult.symm.trans hc')
    refine ⟨hbounded, ?_, ?_, ?_, ?_, ?_⟩
    · refine iff_of_true ⟨c, hresult⟩ ⟨c, ?_, hchosen.1⟩
      rcases hchosen.2 with ⟨hup, -⟩ | ⟨hzero, -⟩
      · exact Or.inl hup
      · exact Or.inr hzero
    · intro c' hc'
      exact hsame hc' ▸ hchosen
    · intro c' hc' j hup
      obtain rfl := hsame hc'
      have hj := hafter j
      rw [Bool.eq_false_iff, ne_eq, hj]
      by_cases hc : pool.isHealthy c = true
      · have hle : j = c → c ≤ j := fun heq => heq ▸ le_rfl
        simp only [hup, hc, true_and, Bool.true_eq_false, or_false]
        omega
      · have hne : j ≠ c := by
          rintro rfl
          exact hc hup
        simp [hc, hne]
    · intro c' hc' j hdown
      obtain rfl := hsame hc'
      rw [hafter, hdown]
      simp
    · intro e he
      cases hresult.symm.trans he
  | error e =>
    rw [hresult] at hends
    obtain ⟨hnone, hprimary, hend⟩ := hends
    refine ⟨hbounded, ?_, ?_, ?_, ?_, fun _ _ => hend⟩
    · refine iff_of_false ?_ ?_
      · rintro ⟨c, hc⟩
        rw [hresult] at hc
        cases hc
      · rintro ⟨i, hup | rfl, hconnected⟩
        · exact hnone i hup hconnected
        · exact hprimary hconnected
    all_goals
      intro c hc
      rw [hresult] at hc
      cases hc

/-- In every pool that calls of `mark_down`, `mark_up` and `confirm` leave, the active target is
the lowest healthy one, or the primary, and both sides fail over as they should. -/
theorem fails_over (targets : List String) (nonempty : targets ≠ []) (cooldown : Option Nat)
    (run : List PoolCall) (attempt : Nat → Attempt) :
    let pool := (new targets nonempty cooldown).calls run
    (∀ i, pool.isHealthy i = true →
      pool.isHealthy pool.active = true ∧ ∀ j < pool.active, pool.isHealthy j = false) ∧
    ((∀ i, pool.isHealthy i = false) → pool.active = 0) ∧
    pool.FailsOver true attempt (Tcp.connectActive pool attempt) ∧
    pool.FailsOver false attempt (Udp.connectActive pool attempt) := by
  intro pool
  have hlowest : pool.LowestActive := calls_lowest (new_lowest targets nonempty cooldown) run
  have hrounds := pool.roundsLeft_le attempt
  refine ⟨fun i hup => hlowest.of_healthy hup, hlowest.of_none, ?_, ?_⟩
  · have hends := @failover_ends "connect" true confirm attempt
      (fun pool hlowest j => isHealthy_confirm hlowest j) _ pool hlowest hrounds none
    exact hends.failsOver (failover_tried _ _ _)
  · have hends := @failover_ends "session" false (fun pool _ => pool) attempt
      (fun pool _ j => by simp) _ pool hlowest hrounds none
    exact hends.failsOver (failover_tried _ _ _)

/-- With the primary down and only the last of three targets reachable, the TCP side connects to
the last one and marks the second down. -/
theorem fails_over_last :
    let pool := (new ["a:1", "b:1", "c:1"] (by decide) (some 30)).calls [.markDown 0]
    let attempt : Nat → Attempt := fun i => if i = 2 then .connected else .timedOut
    pool.active = 1 ∧ (Tcp.connectActive pool attempt).result = .ok 2 ∧
      (Tcp.connectActive pool attempt).pool.isHealthy 1 = false := by
  intro pool attempt
  obtain ⟨-, -, htcp, -⟩ := fails_over ["a:1", "b:1", "c:1"] (by decide) (some 30)
    [.markDown 0] attempt
  have hresult : (Tcp.connectActive pool attempt).result = .ok 2 := rfl
  refine ⟨rfl, hresult, ?_⟩
  exact (htcp.downed 2 hresult 1 rfl).mpr (Or.inl (by decide))

end TargetPool

end PortsBox
