import Mathlib

/-!
# Timers on a clock

A state with a clock and the timers pending on it. Time passes no further than the next
pending timer, and a timer that is due fires once and changes the state. Where no timer is
overdue, every later time can be reached, by firing the timers due before it.
-/

set_option autoImplicit false

namespace PortsBox

structure Timer (α : Type) where
  due : Nat
  payload : α
  deriving DecidableEq, Repr

structure Clocked (σ α : Type) where
  state : σ
  now : Nat
  pending : List (Timer α)

inductive Tick (α : Type) where
  | sleep (span : Nat)
  | fire (timer : Timer α)
  deriving DecidableEq, Repr

namespace Clocked
variable {σ α : Type} [DecidableEq α] {effect : σ → α → σ} {c after : Clocked σ α}

def tick (effect : σ → α → σ) (c : Clocked σ α) : Tick α → Option (Clocked σ α)
  | .sleep span =>
    if ∀ timer ∈ c.pending, c.now + span ≤ timer.due then some { c with now := c.now + span }
    else none
  | .fire timer =>
    if timer ∈ c.pending ∧ timer.due = c.now then
      some { c with state := effect c.state timer.payload, pending := c.pending.erase timer }
    else none

def ticks (effect : σ → α → σ) (c : Clocked σ α) : List (Tick α) → Option (Clocked σ α)
  | [] => some c
  | t :: rest => (c.tick effect t).bind (ticks effect · rest)

/-- No pending timer is overdue. -/
def OnTime (c : Clocked σ α) : Prop := ∀ timer ∈ c.pending, c.now ≤ timer.due

theorem tick_sleep_iff {span : Nat} : c.tick effect (.sleep span) = some after ↔
    (∀ timer ∈ c.pending, c.now + span ≤ timer.due) ∧ after = { c with now := c.now + span } := by
  rw [tick, Option.ite_none_right_eq_some, Option.some.injEq, eq_comm (b := after)]

theorem tick_fire_iff {timer : Timer α} : c.tick effect (.fire timer) = some after ↔
    (timer ∈ c.pending ∧ timer.due = c.now) ∧ after =
      { c with state := effect c.state timer.payload, pending := c.pending.erase timer } := by
  rw [tick, Option.ite_none_right_eq_some, Option.some.injEq, eq_comm (b := after)]

theorem OnTime.tick (honTime : c.OnTime) {t : Tick α} (h : c.tick effect t = some after) :
    after.OnTime := by
  cases t with
  | sleep span =>
    obtain ⟨hdue, rfl⟩ := tick_sleep_iff.mp h
    exact hdue
  | fire timer =>
    obtain ⟨-, rfl⟩ := tick_fire_iff.mp h
    intro other hother
    exact honTime other (List.mem_of_mem_erase hother)

theorem mem_of_tick {t : Tick α} (h : c.tick effect t = some after) {timer : Timer α}
    (hmem : timer ∈ after.pending) : timer ∈ c.pending := by
  cases t with
  | sleep span =>
    obtain ⟨-, rfl⟩ := tick_sleep_iff.mp h
    exact hmem
  | fire fired =>
    obtain ⟨-, rfl⟩ := tick_fire_iff.mp h
    exact List.mem_of_mem_erase hmem

theorem now_le_of_tick {t : Tick α} (h : c.tick effect t = some after) : c.now ≤ after.now := by
  cases t with
  | sleep span =>
    obtain ⟨-, rfl⟩ := tick_sleep_iff.mp h
    exact Nat.le_add_right c.now span
  | fire fired =>
    obtain ⟨-, rfl⟩ := tick_fire_iff.mp h
    exact le_rfl

omit [DecidableEq α] in
/-- One of the pending timers with a property is due first. -/
theorem exists_first (pending : List (Timer α)) {p : Timer α → Prop}
    (hsome : ∃ timer ∈ pending, p timer) :
    ∃ timer ∈ pending, p timer ∧ ∀ other ∈ pending, p other → timer.due ≤ other.due := by
  classical
  have hdue : ∃ due, ∃ timer ∈ pending, p timer ∧ timer.due = due := by
    obtain ⟨timer, hmem, hp⟩ := hsome
    exact ⟨timer.due, timer, hmem, hp, rfl⟩
  obtain ⟨timer, hmem, hp, hfind⟩ := Nat.find_spec hdue
  refine ⟨timer, hmem, hp, ?_⟩
  intro other hother hpother
  rw [hfind]
  exact Nat.find_min' hdue ⟨other, hother, hpother, rfl⟩

/-- Every later time can be reached. The timers not due before it stay pending, and what no
other timer changes stays as it is. -/
theorem OnTime.drain (honTime : c.OnTime) (effect : σ → α → σ) {d : Nat} (hnow : c.now ≤ d) :
    ∃ run after, c.ticks effect run = some after ∧ after.now = d ∧
      (∀ timer ∈ c.pending, d ≤ timer.due → timer ∈ after.pending) ∧
      ∀ P : σ → Prop,
        (∀ timer ∈ c.pending, timer.due < d → ∀ s, P s → P (effect s timer.payload)) →
          P c.state → P after.state := by
  induction hn : c.pending.length using Nat.strong_induction_on generalizing c with
  | _ n ih =>
    by_cases hearly : ∃ timer ∈ c.pending, timer.due < d
    · obtain ⟨timer, hmem, hlt, hfirst⟩ := exists_first c.pending hearly
      have hreach : c.now + (timer.due - c.now) = timer.due :=
        Nat.add_sub_cancel' (honTime timer hmem)
      have hsleep : c.tick effect (.sleep (timer.due - c.now)) =
          some { c with now := timer.due } := by
        refine tick_sleep_iff.mpr ⟨?_, by rw [hreach]⟩
        intro other hother
        rw [hreach]
        by_cases hd : other.due < d
        · exact hfirst other hother hd
        · omega
      have hfire : ({ c with now := timer.due } : Clocked σ α).tick effect (.fire timer) =
          some ⟨effect c.state timer.payload, timer.due, c.pending.erase timer⟩ :=
        tick_fire_iff.mpr ⟨⟨hmem, rfl⟩, rfl⟩
      have hshort : (c.pending.erase timer).length < n := by
        rw [List.length_erase_of_mem hmem, hn]
        have := List.length_pos_of_mem hmem
        omega
      obtain ⟨run, after, hrun, hend, hkept, hsame⟩ := ih _ hshort
        ((honTime.tick hsleep).tick hfire) hlt.le rfl
      refine ⟨.sleep (timer.due - c.now) :: .fire timer :: run, after, ?_, hend, ?_, ?_⟩
      · simp only [ticks, hsleep, hfire, Option.bind_some]
        exact hrun
      · intro other hother hd
        apply hkept other _ hd
        exact (List.mem_erase_of_ne (by rintro rfl; omega)).mpr hother
      · intro P hP hstate
        apply hsame P
        · intro other hother
          exact hP other (List.mem_of_mem_erase hother)
        · exact hP timer hmem hlt _ hstate
    · have hlate : ∀ timer ∈ c.pending, d ≤ timer.due := by
        intro timer hmem
        by_contra hlt
        exact hearly ⟨timer, hmem, not_le.mp hlt⟩
      have hreach : c.now + (d - c.now) = d := Nat.add_sub_cancel' hnow
      have hsleep : c.tick effect (.sleep (d - c.now)) = some { c with now := d } := by
        refine tick_sleep_iff.mpr ⟨?_, by rw [hreach]⟩
        rwa [hreach]
      refine ⟨[.sleep (d - c.now)], { c with now := d }, ?_, rfl, fun _ h _ => h, fun _ _ h => h⟩
      simp only [ticks, hsleep, Option.bind_some]

end Clocked

end PortsBox
