import PortsBox.PoolCooldown

/-!
# The backstop prober

`probe_pool` connects in rounds to the targets that are down or that no traffic has confirmed
for an interval, while connections report what they meet. Once the reachability of the
targets stops changing, three rounds are enough for the health of every target to be
right, whatever it was before, and from then on the active target is the reachable one of
highest priority. Times are in milliseconds.
-/

set_option autoImplicit false

namespace PortsBox

/-- What a ticker may be late before it counts a tick as missed. -/
def tickSlack : Nat := 5

/-- A pool with its prober: when a target was confirmed last, when the next round is due, and the
probes of this round that have not ended. -/
structure Prober where
  pool : TargetPool
  confirmed : List Nat
  interval : Nat
  now : Nat
  due : Nat
  probing : List Nat

inductive ProberEvent where
  | pass (span : Nat)
  /-- Traffic reaches a target, or fails to. -/
  | delivered (i : Nat)
  | failed (i : Nat)
  | tick
  /-- A probe ends, connected or not. -/
  | probed (i : Nat) (connected : Bool)
  deriving DecidableEq, Repr

namespace Prober

def start (targets : List String) (nonempty : targets ≠ []) (interval : Nat) : Prober where
  pool := .new targets nonempty none
  confirmed := targets.map fun _ => 0
  interval
  now := 0
  due := interval
  probing := []

def confirm (s : Prober) (i : Nat) : Prober :=
  { s with pool := s.pool.confirm i, confirmed := s.confirmed.set i s.now }

def markDown (s : Prober) (i : Nat) : Prober := { s with pool := (s.pool.markDown i).1 }

def needsProbe (s : Prober) (i : Nat) : Bool :=
  if !s.pool.isHealthy i then true else s.interval ≤ s.now - s.confirmed.getD i 0

/-- When the ticker is due after a tick, with `MissedTickBehavior::Delay`. -/
def nextDue (s : Prober) : Nat :=
  if s.due + tickSlack < s.now then s.now + s.interval else s.due + s.interval

def step (s : Prober) : ProberEvent → Option Prober
  | .pass span => some { s with now := s.now + span }
  | .delivered i => some (s.confirm i)
  | .failed i => some (s.markDown i)
  | .tick =>
    if s.due ≤ s.now ∧ s.probing = [] then
      some { s with due := s.nextDue, probing := (List.range s.pool.len).filter s.needsProbe }
    else none
  | .probed i connected =>
    if i ∈ s.probing then
      let s := { s with probing := s.probing.filter (· ≠ i) }
      some (if connected then s.confirm i else s.markDown i)
    else none

def steps (s : Prober) : List ProberEvent → Option Prober
  | [] => some s
  | e :: rest => (s.step e).bind (steps · rest)

/-- What the event found out is what is reachable. -/
def Faithful (reach : Nat → Bool) : ProberEvent → Prop
  | .delivered i => reach i = true
  | .failed i => reach i = false
  | .probed i connected => connected = reach i
  | _ => True

instance (reach : Nat → Bool) : DecidablePred (Faithful reach)
  | .delivered i => inferInstanceAs (Decidable (reach i = true))
  | .failed i => inferInstanceAs (Decidable (reach i = false))
  | .probed i connected => inferInstanceAs (Decidable (connected = reach i))
  | .pass _ | .tick => isTrue trivial

/-- What every run keeps. -/
structure Sane (count : Nat) (s : Prober) : Prop where
  lowest : s.pool.LowestActive
  targets : s.pool.healthy.length = count
  past : ∀ i, s.confirmed.getD i 0 ≤ s.now

section Steps
variable {count : Nat} {s next : Prober} {e : ProberEvent}

theorem getD_set (confirmed : List Nat) (i j now : Nat) :
    (confirmed.set i now).getD j 0 = confirmed.getD j 0 ∨
      (j = i ∧ (confirmed.set i now).getD j 0 = now) := by
  simp only [List.getD_eq_getElem?_getD, List.getElem?_set]
  by_cases hij : i = j
  · subst hij
    by_cases hlt : i < confirmed.length <;> simp [hlt]
  · simp [hij]

theorem length_markDown (pool : TargetPool) (i : Nat) :
    (pool.markDown i).1.healthy.length = pool.healthy.length := by
  unfold TargetPool.markDown
  split
  · rw [TargetPool.updateActive_healthy, TargetPool.setHealthy, List.length_set]
  · rfl

theorem Sane.confirm (h : s.Sane count) (i : Nat) : (s.confirm i).Sane count := by
  refine ⟨TargetPool.markUp_lowest h.lowest i, ?_, ?_⟩
  · exact (TimedPool.length_markUp s.pool i).trans h.targets
  · intro j
    rcases getD_set s.confirmed i j s.now with hsame | ⟨-, hnow⟩
    · exact hsame.le.trans (h.past j)
    · exact hnow.le

theorem Sane.markDown (h : s.Sane count) (i : Nat) : (s.markDown i).Sane count :=
  ⟨TargetPool.markDown_lowest h.lowest i, (length_markDown s.pool i).trans h.targets, h.past⟩

theorem tick_eq (h : s.step .tick = some next) :
    s.due ≤ s.now ∧ s.probing = [] ∧
      next = { s with due := s.nextDue, probing := (List.range s.pool.len).filter s.needsProbe } := by
  obtain ⟨⟨hdue, hidle⟩, heq⟩ := Option.ite_none_right_eq_some.mp h
  exact ⟨hdue, hidle, (Option.some.inj heq).symm⟩

theorem probed_eq {i : Nat} {connected : Bool} (h : s.step (.probed i connected) = some next) :
    i ∈ s.probing ∧
      next = if connected then { s with probing := s.probing.filter (· ≠ i) }.confirm i
        else { s with probing := s.probing.filter (· ≠ i) }.markDown i := by
  obtain ⟨hmem, heq⟩ := Option.ite_none_right_eq_some.mp h
  exact ⟨hmem, (Option.some.inj heq).symm⟩

theorem Sane.step (h : s.Sane count) (hstep : s.step e = some next) : next.Sane count := by
  cases e with
  | pass span =>
    obtain rfl := Option.some.inj hstep
    exact ⟨h.lowest, h.targets, fun i => (h.past i).trans (Nat.le_add_right _ _)⟩
  | delivered i => exact Option.some.inj hstep ▸ h.confirm i
  | failed i => exact Option.some.inj hstep ▸ h.markDown i
  | tick =>
    obtain ⟨-, -, rfl⟩ := tick_eq hstep
    exact ⟨h.lowest, h.targets, h.past⟩
  | probed i connected =>
    obtain ⟨-, rfl⟩ := probed_eq hstep
    have hsame : Sane count { s with probing := s.probing.filter (· ≠ i) } :=
      ⟨h.lowest, h.targets, h.past⟩
    cases connected with
    | true => exact hsame.confirm i
    | false => exact hsame.markDown i

theorem Sane.steps (h : s.Sane count) {run : List ProberEvent} {last : Prober}
    (hrun : s.steps run = some last) : last.Sane count := by
  induction run generalizing s with
  | nil => exact Option.some.inj hrun ▸ h
  | cons e run ih =>
    obtain ⟨middle, hfirst, hrest⟩ := Option.bind_eq_some_iff.mp hrun
    exact ih (h.step hfirst) hrest

theorem interval_step (hstep : s.step e = some next) : next.interval = s.interval := by
  cases e with
  | pass span => exact Option.some.inj hstep ▸ rfl
  | delivered i => exact Option.some.inj hstep ▸ rfl
  | failed i => exact Option.some.inj hstep ▸ rfl
  | tick =>
    obtain ⟨-, -, rfl⟩ := tick_eq hstep
    rfl
  | probed i connected =>
    obtain ⟨-, rfl⟩ := probed_eq hstep
    cases connected <;> rfl

theorem interval_steps {run : List ProberEvent} {last : Prober} (hrun : s.steps run = some last) :
    last.interval = s.interval := by
  induction run generalizing s with
  | nil => exact Option.some.inj hrun ▸ rfl
  | cons e run ih =>
    obtain ⟨middle, hfirst, hrest⟩ := Option.bind_eq_some_iff.mp hrun
    exact (ih hrest).trans (interval_step hfirst)

theorem sane_start (targets : List String) (nonempty : targets ≠ []) (interval : Nat) :
    (start targets nonempty interval).Sane targets.length := by
  refine ⟨TargetPool.new_lowest targets nonempty none, List.length_map .., ?_⟩
  intro i
  simp only [start, List.getD_eq_getElem?_getD, List.getElem?_map]
  cases targets[i]? <;> simp

end Steps

/-! ## Rounds with the reachability fixed -/

/-- What is known `rounds` ticks after the time `since`, from which on `reach` says which targets
are reachable. -/
structure Settling (reach : Nat → Bool) (since rounds count : Nat) (s : Prober) : Prop where
  sane : s.Sane count
  slack : tickSlack ≤ s.interval
  later : since ≤ s.now
  due : 1 ≤ rounds → since + rounds * s.interval ≤ s.due + tickSlack
  stale : ∀ i, reach i = false → s.confirmed.getD i 0 ≤ since
  up : ∀ i < count, reach i = true →
    (1 ≤ rounds → s.pool.isHealthy i = true ∨ i ∈ s.probing) ∧
    (2 ≤ rounds → s.pool.isHealthy i = true)
  down : ∀ i, reach i = false →
    (3 ≤ rounds → s.pool.isHealthy i = false ∨ i ∈ s.probing) ∧
    (4 ≤ rounds → s.pool.isHealthy i = false)

section Settling
variable {reach : Nat → Bool} {since rounds count : Nat} {s next : Prober}

/-- A target that is reached is marked up, and no other. -/
theorem Settling.confirm (h : s.Settling reach since rounds count) {i : Nat} (hi : reach i = true)
    {probing : List Nat} (hkeep : ∀ j ≠ i, j ∈ s.probing → j ∈ probing) :
    ({ s with probing }.confirm i).Settling reach since rounds count := by
  have hsane : Sane count { s with probing } := ⟨h.sane.lowest, h.sane.targets, h.sane.past⟩
  have hhealthy : ∀ j, ({ s with probing }.confirm i).pool.isHealthy j =
      if i = j ∧ j < count then true else s.pool.isHealthy j := by
    intro j
    rw [← h.sane.targets]
    exact TargetPool.isHealthy_markUp s.pool i j
  refine ⟨hsane.confirm i, h.slack, h.later, h.due, ?_, ?_, ?_⟩
  · intro j hj
    rcases getD_set s.confirmed i j s.now with hsame | ⟨rfl, -⟩
    · exact hsame.le.trans (h.stale j hj)
    · rw [hi] at hj
      cases hj
  · intro j hlt hj
    rw [hhealthy]
    obtain ⟨hone, htwo⟩ := h.up j hlt hj
    by_cases hij : i = j
    · rw [if_pos ⟨hij, hlt⟩]
      exact ⟨fun _ => Or.inl rfl, fun _ => rfl⟩
    · rw [if_neg fun h => hij h.1]
      exact ⟨fun hr => (hone hr).imp_right (hkeep j (Ne.symm hij)), htwo⟩
  · intro j hj
    have hij : i ≠ j := by
      rintro rfl
      rw [hi] at hj
      cases hj
    rw [hhealthy, if_neg fun h => hij h.1]
    obtain ⟨hthree, hfour⟩ := h.down j hj
    exact ⟨fun hr => (hthree hr).imp_right (hkeep j (Ne.symm hij)), hfour⟩

/-- A target that is not reached is marked down, and no other. -/
theorem Settling.markDown (h : s.Settling reach since rounds count) {i : Nat} (hi : reach i = false)
    {probing : List Nat} (hkeep : ∀ j ≠ i, j ∈ s.probing → j ∈ probing) :
    ({ s with probing }.markDown i).Settling reach since rounds count := by
  have hsane : Sane count { s with probing } := ⟨h.sane.lowest, h.sane.targets, h.sane.past⟩
  have hhealthy : ∀ j, ({ s with probing }.markDown i).pool.isHealthy j =
      if i = j then false else s.pool.isHealthy j := TargetPool.isHealthy_markDown s.pool i
  refine ⟨hsane.markDown i, h.slack, h.later, h.due, h.stale, ?_, ?_⟩
  · intro j hlt hj
    have hij : i ≠ j := by
      rintro rfl
      rw [hi] at hj
      cases hj
    rw [hhealthy, if_neg hij]
    obtain ⟨hone, htwo⟩ := h.up j hlt hj
    exact ⟨fun hr => (hone hr).imp_right (hkeep j (Ne.symm hij)), htwo⟩
  · intro j hj
    rw [hhealthy]
    obtain ⟨hthree, hfour⟩ := h.down j hj
    by_cases hij : i = j
    · rw [if_pos hij]
      exact ⟨fun _ => Or.inl rfl, fun _ => rfl⟩
    · rw [if_neg hij]
      exact ⟨fun hr => (hthree hr).imp_right (hkeep j (Ne.symm hij)), hfour⟩

/-- A round probes the targets that are down, and from the third on all that are not reached. -/
theorem Settling.tick (h : s.Settling reach since rounds count) (hstep : s.step .tick = some next) :
    next.Settling reach since (rounds + 1) count := by
  obtain ⟨hdue, hidle, rfl⟩ := tick_eq hstep
  have hmem : ∀ i < count, s.needsProbe i = true →
      i ∈ (List.range s.pool.len).filter s.needsProbe := by
    intro i hlt hneeds
    have hlen : s.pool.len = count := s.pool.sized.symm.trans h.sane.targets
    exact List.mem_filter.mpr ⟨List.mem_range.mpr (hlen ▸ hlt), hneeds⟩
  have hslack := h.slack
  refine ⟨⟨h.sane.lowest, h.sane.targets, h.sane.past⟩, h.slack, h.later, ?_, h.stale, ?_, ?_⟩
  · intro _
    have hlater := h.later
    have hold := h.due
    change since + (rounds + 1) * s.interval ≤ s.nextDue + tickSlack
    rw [Nat.succ_mul]
    unfold nextDue
    cases rounds with
    | zero => split <;> omega
    | succ r =>
      have hpast := hold (Nat.le_add_left 1 r)
      split <;> omega
  · intro i hlt hi
    obtain ⟨hone, htwo⟩ := h.up i hlt hi
    constructor
    · intro _
      cases hup : s.pool.isHealthy i with
      | true => exact Or.inl rfl
      | false => exact Or.inr (hmem i hlt (by simp [needsProbe, hup]))
    · intro hr
      -- the probes of the round before have ended
      rcases hone (by omega) with hup | hprobing
      · exact hup
      · rw [hidle] at hprobing
        cases hprobing
  · intro i hi
    obtain ⟨hthree, hfour⟩ := h.down i hi
    constructor
    · intro hr
      cases hup : s.pool.isHealthy i with
      | false => exact Or.inl rfl
      | true =>
        right
        have hlt : i < count := h.sane.targets ▸ TargetPool.isHealthy_lt hup
        apply hmem i hlt
        have hpast := h.due (by omega)
        have hmul : 2 * s.interval ≤ rounds * s.interval := Nat.mul_le_mul_right _ (by omega)
        have hstale := h.stale i hi
        simp only [needsProbe, hup, Bool.not_true, Bool.false_eq_true, if_false, decide_eq_true_eq]
        omega
    · intro hr
      rcases hthree (by omega) with hdown | hprobing
      · exact hdown
      · rw [hidle] at hprobing
        cases hprobing

theorem Settling.step (h : s.Settling reach since rounds count) {e : ProberEvent}
    (hfaithful : Faithful reach e) (hstep : s.step e = some next) :
    next.Settling reach since (rounds + if e = .tick then 1 else 0) count := by
  have hsane := h.sane.step hstep
  cases e with
  | pass span =>
    obtain rfl := Option.some.inj hstep
    exact ⟨hsane, h.slack, h.later.trans (Nat.le_add_right _ _), h.due, h.stale, h.up,
      h.down⟩
  | delivered i => exact Option.some.inj hstep ▸ h.confirm hfaithful fun _ _ hj => hj
  | failed i => exact Option.some.inj hstep ▸ h.markDown hfaithful fun _ _ hj => hj
  | tick => exact h.tick hstep
  | probed i connected =>
    obtain ⟨-, rfl⟩ := probed_eq hstep
    have hkeep : ∀ j ≠ i, j ∈ s.probing → j ∈ s.probing.filter (· ≠ i) := by
      intro j hij hj
      exact List.mem_filter.mpr ⟨hj, decide_eq_true hij⟩
    have hconnected : connected = reach i := hfaithful
    cases connected with
    | true => exact h.confirm hconnected.symm hkeep
    | false => exact h.markDown hconnected.symm hkeep

theorem Settling.steps {run : List ProberEvent} {last : Prober}
    (h : s.Settling reach since rounds count) (hfaithful : ∀ e ∈ run, Faithful reach e)
    (hrun : s.steps run = some last) :
    last.Settling reach since (rounds + run.count .tick) count := by
  induction run generalizing s rounds with
  | nil => exact Option.some.inj hrun ▸ h
  | cons e run ih =>
    obtain ⟨middle, hfirst, hrest⟩ := Option.bind_eq_some_iff.mp hrun
    have hmiddle := h.step (hfaithful e List.mem_cons_self) hfirst
    have hlast := ih hmiddle (fun e he => hfaithful e (List.mem_cons_of_mem _ he)) hrest
    rw [List.count_cons]
    rw [Nat.add_assoc] at hlast
    rw [Nat.add_comm (List.count _ _)]
    simpa using hlast

end Settling

/-- Whatever has happened before, once every event finds the same targets reachable, after three
rounds of probes the healthy targets are the reachable ones, and the active one is the
reachable one of highest priority, or the primary when none is. -/
theorem probes_settle (targets : List String) (nonempty : targets ≠ []) {interval : Nat}
    (hinterval : tickSlack ≤ interval) {before run : List ProberEvent} {s last : Prober}
    (hbefore : (start targets nonempty interval).steps before = some s) {reach : Nat → Bool}
    (hfaithful : ∀ e ∈ run, Faithful reach e) (hrun : s.steps run = some last)
    (hrounds : 4 ≤ run.count .tick) :
    (∀ i < targets.length, last.pool.isHealthy i = reach i) ∧
      last.pool.active = ((List.range targets.length).find? reach).getD 0 := by
  have hsane := (sane_start targets nonempty interval).steps hbefore
  have hsettling : s.Settling reach s.now 0 targets.length := by
    have hsame : s.interval = interval := interval_steps hbefore
    refine ⟨hsane, hsame ▸ hinterval, le_rfl, ?_, fun i _ => hsane.past i, ?_, ?_⟩
    · intro h
      cases h
    · exact fun _ _ _ => ⟨fun h => absurd h (by decide), fun h => absurd h (by decide)⟩
    · exact fun _ _ => ⟨fun h => absurd h (by decide), fun h => absurd h (by decide)⟩
  have hlast := hsettling.steps hfaithful hrun
  rw [Nat.zero_add] at hlast
  have hhealthy : ∀ i < targets.length, last.pool.isHealthy i = reach i := by
    intro i hlt
    cases hi : reach i with
    | true => exact (hlast.up i hlt hi).2 (by omega)
    | false => exact (hlast.down i hi).2 (by omega)
  refine ⟨hhealthy, ?_⟩
  have hlowest := hlast.sane.lowest
  by_cases hsome : ∃ i, last.pool.isHealthy i = true
  · obtain ⟨i, hi⟩ := hsome
    obtain ⟨hup, hbelow⟩ := hlowest.of_healthy hi
    have hlt : last.pool.active < targets.length :=
      hlast.sane.targets ▸ TargetPool.isHealthy_lt hup
    have hfind : (List.range targets.length).find? reach = some last.pool.active := by
      apply List.find?_range_eq_some.mpr
      refine ⟨hhealthy _ hlt ▸ hup, List.mem_range.mpr hlt, ?_⟩
      intro j hj
      rw [← hhealthy j (hj.trans hlt), hbelow j hj]
      rfl
    rw [hfind]
    rfl
  · have hnone : ∀ i, last.pool.isHealthy i = false := by
      intro i
      by_contra hi
      exact hsome ⟨i, by simpa using hi⟩
    have hfind : (List.range targets.length).find? reach = none := by
      apply List.find?_eq_none.mpr
      intro i hi
      rw [← hhealthy i (List.mem_range.mp hi), hnone i]
      decide
    rw [hlowest.of_none hnone, hfind]
    rfl

/-- The primary is down for real, and the fallback was marked down by mistake. -/
def threeRounds : List ProberEvent :=
  let round := [.pass 10, .tick, .probed 1 true, .probed 0 false]
  round ++ round ++ round ++ [.pass 10, .tick]

theorem probes_settle_threeRounds : ∃ s last,
    (start ["p:1", "f:1"] (by decide) 10).steps [.failed 1] = some s ∧
      s.steps threeRounds = some last ∧ last.pool.isHealthy 0 = false ∧
      last.pool.isHealthy 1 = true ∧ last.pool.active = 1 := by
  have hbefore : (start ["p:1", "f:1"] (by decide) 10).steps [.failed 1] = some _ := rfl
  obtain ⟨hhealthy, hactive⟩ := probes_settle ["p:1", "f:1"] (by decide) (by decide) hbefore
    (show ∀ e ∈ threeRounds, Faithful (· == 1) e by decide) rfl (by decide)
  exact ⟨_, _, rfl, rfl, hhealthy 0 (by decide), hhealthy 1 (by decide), hactive⟩

end Prober

end PortsBox
