import Mathlib.Data.List.Count
import Mathlib.Tactic.Common

/-!
# Runs of a step function

A step function that does not take every action, and what holds along whole runs of it: a
property that the single steps keep, the state that brought one about, and a bound on how many
steps of a kind there are.
-/

set_option autoImplicit false

namespace PortsBox.Trace

variable {S A : Type} {step : S → A → Option S}

/-- The state after a list of actions. -/
def run (step : S → A → Option S) (s : S) (actions : List A) : Option S := actions.foldlM step s

theorem run_nil {s last : S} (h : run step s [] = some last) : last = s :=
  (Option.some.inj h).symm

theorem run_cons {s last : S} {a : A} {actions : List A}
    (h : run step s (a :: actions) = some last) :
    ∃ next, step s a = some next ∧ run step next actions = some last := by
  rw [run, List.foldlM_cons] at h
  exact Option.bind_eq_some_iff.mp h

/-- The steps of the allowed actions keep a property. -/
def Keeps (step : S → A → Option S) (allowed : A → Prop) (p : S → Prop) : Prop :=
  ∀ s a next, allowed a → step s a = some next → p s → p next

variable {allowed : A → Prop} {p : S → Prop}

theorem Keeps.run (h : Keeps step allowed p) {actions : List A} {s last : S}
    (hallowed : ∀ a ∈ actions, allowed a) (hrun : run step s actions = some last) (hs : p s) :
    p last := by
  induction actions generalizing s with
  | nil =>
    obtain rfl := run_nil hrun
    exact hs
  | cons a actions ih =>
    obtain ⟨next, hstep, hrest⟩ := run_cons hrun
    apply ih
    · intro b hb
      exact hallowed b (List.mem_cons_of_mem a hb)
    · exact hrest
    · exact h s a next (hallowed a List.mem_cons_self) hstep hs

/-- What holds at the end of a run held at its begin, or a state on the way gave the reason. -/
theorem reason {p q : S → Prop}
    (hstep : ∀ s a next, step s a = some next → p next → p s ∨ q s)
    {actions : List A} {s last : S} (hrun : run step s actions = some last) (hlast : p last) :
    p s ∨ ∃ before after mid, actions = before ++ after ∧ run step s before = some mid ∧ q mid := by
  induction actions generalizing s with
  | nil =>
    obtain rfl := run_nil hrun
    exact Or.inl hlast
  | cons a actions ih =>
    obtain ⟨next, hfirst, hrest⟩ := run_cons hrun
    rcases ih hrest with hnext | ⟨before, after, mid, rfl, hmid, hq⟩
    · rcases hstep s a next hfirst hnext with hs | hq
      · exact Or.inl hs
      · exact Or.inr ⟨[], a :: actions, s, rfl, rfl, hq⟩
    · refine Or.inr ⟨a :: before, after, mid, rfl, ?_, hq⟩
      rw [run, List.foldlM_cons, hfirst]
      exact hmid

/-- Every allowed step that is counted takes something from what is left, and none adds to it. -/
def Spends (step : S → A → Option S) (allowed : A → Prop) (p : S → Prop) (counted : A → Bool)
    (left : S → Nat) : Prop :=
  ∀ s a next, allowed a → step s a = some next → p s →
    left next + (if counted a then 1 else 0) ≤ left s

/-- A run has no more counted steps than were left before it. -/
theorem Spends.run {counted : A → Bool} {left : S → Nat}
    (hspends : Spends step allowed p counted left) (hkeeps : Keeps step allowed p)
    {actions : List A} {s last : S} (hallowed : ∀ a ∈ actions, allowed a)
    (hrun : Trace.run step s actions = some last) (hs : p s) :
    actions.countP counted + left last ≤ left s := by
  induction actions generalizing s with
  | nil =>
    obtain rfl := run_nil hrun
    simp
  | cons a actions ih =>
    obtain ⟨next, hstep, hrest⟩ := run_cons hrun
    have ha := hallowed a List.mem_cons_self
    have hpaid := hspends s a next ha hstep hs
    have hlater := ih (fun b hb => hallowed b (List.mem_cons_of_mem a hb)) hrest
      (hkeeps s a next ha hstep hs)
    rw [List.countP_cons]
    omega

end PortsBox.Trace
