import Mathlib

/-!
# Watched values

A watch channel holds the last value sent and how often one was sent. A waiter looks at the
value, and if it is not what it waits for, waits until something is sent that it has not
seen. A waiter that nothing wakes has therefore looked at the value that is there now.
-/

set_option autoImplicit false

namespace PortsBox

/-- The value in a watch channel, and its version. -/
structure Watched (α : Type) where
  value : α
  version : Nat
  deriving DecidableEq, Repr

/-- Where a waiter is in its loop; `waiting` has the version that it looked at. -/
inductive Waiter where
  | checking
  | waiting (seen : Nat)
  | done
  deriving DecidableEq, Repr

namespace Watched
variable {α : Type} [DecidableEq α]

/-- `send_if_modified` with a new value. -/
def replace (w : Watched α) (value : α) : Watched α :=
  if w.value = value then w else ⟨value, w.version + 1⟩

/-- What is sent while the version stays has not changed. -/
def Follows (before after : Watched α) : Prop :=
  before.version ≤ after.version ∧ (after.version = before.version → after.value = before.value)

omit [DecidableEq α] in
theorem Follows.refl (w : Watched α) : w.Follows w := ⟨le_rfl, fun _ => rfl⟩

omit [DecidableEq α] in
theorem follows_send (w : Watched α) (value : α) : w.Follows ⟨value, w.version + 1⟩ :=
  ⟨Nat.le_succ _, fun h => absurd h (Nat.succ_ne_self _)⟩

theorem follows_replace (w : Watched α) (value : α) : w.Follows (w.replace value) := by
  unfold replace
  split
  · exact .refl w
  · exact w.follows_send value

@[simp] theorem value_replace (w : Watched α) (value : α) : (w.replace value).value = value := by
  unfold replace
  split
  · assumption
  · rfl

theorem replace_eq (w : Watched α) (value : α) :
    w.replace value = ⟨value, (w.replace value).version⟩ := by
  unfold replace
  split
  · rename_i hsame
    rw [← hsame]
  · rfl

end Watched

namespace Waiter
variable {α : Type} {p : α → Bool} {w after : Watched α} {waiter next : Waiter}

/-- The next step of `loop { if p(*rx.borrow_and_update()) { return } rx.changed().await }`, if
nothing has to be sent first. -/
def poll (p : α → Bool) (w : Watched α) : Waiter → Option Waiter
  | .checking => some (if p w.value then .done else .waiting w.version)
  | .waiting seen => if seen = w.version then none else some .checking
  | .done => none

/-- A waiter that waits has not missed what it waits for. -/
def Sound (p : α → Bool) (w : Watched α) : Waiter → Prop
  | .waiting seen => seen ≤ w.version ∧ (seen = w.version → p w.value = false)
  | _ => True

theorem Sound.poll (hpoll : waiter.poll p w = some next) : next.Sound p w := by
  cases waiter with
  | checking =>
    obtain rfl := Option.some.inj hpoll
    cases hp : p w.value with
    | true => trivial
    | false => exact ⟨le_rfl, fun _ => hp⟩
  | waiting seen =>
    obtain ⟨-, heq⟩ := (Option.ite_none_left_eq_some ..).mp hpoll
    obtain rfl := Option.some.inj heq
    trivial
  | done => cases hpoll

theorem Sound.follows (h : waiter.Sound p w) (hfollows : w.Follows after) :
    waiter.Sound p after := by
  cases waiter with
  | checking => trivial
  | waiting seen =>
    obtain ⟨hle, hlast⟩ := h
    refine ⟨hle.trans hfollows.1, ?_⟩
    intro heq
    -- nothing was sent in between, as the version seen was not above the one before
    have hsame : after.version = w.version := le_antisymm (heq ▸ hle) hfollows.1
    rw [hfollows.2 hsame]
    exact hlast (heq.trans hsame)
  | done => trivial

/-- No lost wake-up: what a waiter waits for is not there when it cannot go on. -/
theorem Sound.blocked (h : waiter.Sound p w) (hblocked : waiter.poll p w = none)
    (hdone : waiter ≠ .done) : p w.value = false := by
  cases waiter with
  | checking => cases hblocked
  | waiting seen =>
    apply h.2
    by_contra hne
    rw [Waiter.poll, if_neg hne] at hblocked
    cases hblocked
  | done => exact absurd rfl hdone

/-- A waiter ends only where it looks at what it waits for. -/
theorem poll_done (h : waiter.poll p w = some .done) : p w.value = true := by
  cases waiter with
  | checking =>
    by_contra hp
    rw [Waiter.poll, if_neg hp] at h
    cases h
  | waiting seen =>
    obtain ⟨-, heq⟩ := (Option.ite_none_left_eq_some ..).mp h
    cases heq
  | done => cases h

/-- How many steps a waiter can still make before something is sent. -/
def left (w : Watched α) : Waiter → Nat
  | .checking => 1
  | .waiting seen => if seen = w.version then 0 else 2
  | .done => 0

theorem left_le (w : Watched α) (waiter : Waiter) : waiter.left w ≤ 2 := by
  cases waiter with
  | checking => exact Nat.le_succ 1
  | waiting seen =>
    rw [left]
    split <;> omega
  | done => exact Nat.zero_le 2

theorem left_poll (h : waiter.poll p w = some next) : next.left w < waiter.left w := by
  cases waiter with
  | checking =>
    obtain rfl := Option.some.inj h
    split <;> simp [left]
  | waiting seen =>
    obtain ⟨hne, heq⟩ := (Option.ite_none_left_eq_some ..).mp h
    obtain rfl := Option.some.inj heq
    rw [left, left, if_neg hne]
    decide
  | done => cases h

end Waiter

end PortsBox
