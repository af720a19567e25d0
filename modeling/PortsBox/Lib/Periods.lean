import Mathlib

/-!
# Billing by period

Events carry a period and an amount. What is billed is, over the periods, the bill
of everything counted in the period; a bill need not be additive. A `Meter` keeps
one open period and the sum of the bills of the closed ones, and agrees with the
definition as long as periods do not go back.
-/

set_option autoImplicit false

namespace PortsBox.Periods

universe u v

variable {K : Type u} {A : Type v} [LinearOrder K] [AddCommMonoid A]

/-- Everything counted in one period. -/
def inPeriod (k : K) (events : List (K × A)) : A :=
  ((events.filter fun e => e.1 = k).map Prod.snd).sum

/-- The sum over the periods of their bills. -/
def billed (bill : A → Nat) (events : List (K × A)) : Nat :=
  ∑ k ∈ (events.map Prod.fst).toFinset, bill (inPeriod k events)

@[simp] theorem inPeriod_nil (k : K) : inPeriod k ([] : List (K × A)) = 0 := rfl

theorem inPeriod_append (k : K) (events more : List (K × A)) :
    inPeriod k (events ++ more) = inPeriod k events + inPeriod k more := by
  simp [inPeriod]

theorem inPeriod_single (k j : K) (a : A) : inPeriod k [(j, a)] = if j = k then a else 0 := by
  by_cases h : j = k <;> simp [inPeriod, h]

theorem inPeriod_of_notMem {k : K} {events : List (K × A)} (h : k ∉ events.map Prod.fst) :
    inPeriod k events = 0 := by
  have hnil : (events.filter fun e => e.1 = k) = [] := by
    apply List.filter_eq_nil_iff.mpr
    intro e he heq
    exact h (List.mem_map.mpr ⟨e, he, by simpa using heq⟩)
  rw [inPeriod, hnil]
  rfl

variable {bill : A → Nat} (hzero : bill 0 = 0)

@[simp] theorem billed_nil : billed bill ([] : List (K × A)) = 0 := rfl

section Sum
include hzero

/-- Periods without events add nothing. -/
theorem billed_eq_sum {events : List (K × A)} {periods : Finset K}
    (h : (events.map Prod.fst).toFinset ⊆ periods) :
    billed bill events = ∑ k ∈ periods, bill (inPeriod k events) := by
  apply Finset.sum_subset h
  intro k _ hk
  rw [inPeriod_of_notMem (fun hmem => hk (List.mem_toFinset.mpr hmem)), hzero]

/-- One more event changes the bill of its own period only. -/
theorem billed_append_single (events : List (K × A)) (k : K) (a : A) :
    billed bill (events ++ [(k, a)]) + bill (inPeriod k events) =
      billed bill events + bill (inPeriod k events + a) := by
  have hall : ((events ++ [(k, a)]).map Prod.fst).toFinset ⊆
      insert k (events.map Prod.fst).toFinset := by
    intro j
    simp
  have hold : (events.map Prod.fst).toFinset ⊆ insert k (events.map Prod.fst).toFinset :=
    Finset.subset_insert _ _
  have hmem : k ∈ insert k (events.map Prod.fst).toFinset := Finset.mem_insert_self _ _
  have hrest : ∀ j ∈ (insert k (events.map Prod.fst).toFinset).erase k,
      bill (inPeriod j (events ++ [(k, a)])) = bill (inPeriod j events) := by
    intro j hj
    have hne : k ≠ j := fun h => (Finset.mem_erase.mp hj).1 h.symm
    rw [inPeriod_append, inPeriod_single, if_neg hne, add_zero]
  rw [billed_eq_sum hzero hall, billed_eq_sum hzero hold, ← Finset.add_sum_erase _ _ hmem,
    ← Finset.add_sum_erase _ _ hmem, Finset.sum_congr rfl hrest, inPeriod_append,
    inPeriod_single, if_pos rfl]
  omega

end Sum

/-! ## Monotone bills -/

section Mono
variable [PartialOrder A] [CanonicallyOrderedAdd A] (hmono : Monotone bill)
include hzero hmono

theorem billed_le_append_single (events : List (K × A)) (k : K) (a : A) :
    billed bill events ≤ billed bill (events ++ [(k, a)]) := by
  have hstep := billed_append_single hzero events k a
  have hle : bill (inPeriod k events) ≤ bill (inPeriod k events + a) := hmono le_self_add
  omega

/-- More events are never billed less. -/
theorem billed_le_append (events more : List (K × A)) :
    billed bill events ≤ billed bill (events ++ more) := by
  induction more using List.reverseRecOn with
  | nil => rw [List.append_nil]
  | append_singleton more e ih =>
    rw [← List.append_assoc]
    exact ih.trans (billed_le_append_single hzero hmono _ e.1 e.2)

/-- Nor are they when they come first. -/
theorem billed_le_prepend (events more : List (K × A)) :
    billed bill more ≤ billed bill (events ++ more) := by
  have hsub : (more.map Prod.fst).toFinset ⊆ ((events ++ more).map Prod.fst).toFinset := by
    intro k
    simp only [List.mem_toFinset, List.map_append, List.mem_append]
    exact Or.inr
  rw [billed_eq_sum hzero hsub, billed]
  apply Finset.sum_le_sum
  intro k _
  rw [inPeriod_append]
  exact hmono le_add_self

end Mono

/-! ## The meter -/

/-- The sum of the bills of the closed periods, and the open one. -/
structure Meter (K : Type u) (A : Type v) where
  settled : Nat
  bucket : A
  period : K

namespace Meter

def total (bill : A → Nat) (meter : Meter K A) : Nat := meter.settled + bill meter.bucket

/-- Close the open period and open another one. -/
def roll (bill : A → Nat) (k : K) (meter : Meter K A) : Meter K A :=
  if meter.period = k then meter else ⟨meter.settled + bill meter.bucket, 0, k⟩

def add (a : A) (meter : Meter K A) : Meter K A := { meter with bucket := meter.bucket + a }

/-- The meter has counted the events, all of them up to its open period. -/
structure Holds (bill : A → Nat) (base : Nat) (events : List (K × A)) (meter : Meter K A) :
    Prop where
  bucket : meter.bucket = inPeriod meter.period events
  total : meter.total bill = base + billed bill events
  past : ∀ e ∈ events, e.1 ≤ meter.period

variable {base : Nat} {events : List (K × A)} {meter : Meter K A}

omit [LinearOrder K] in
@[simp] theorem add_period (a : A) : (meter.add a).period = meter.period := rfl

@[simp] theorem roll_period (k : K) : (meter.roll bill k).period = k := by
  unfold roll
  split
  · assumption
  · rfl

include hzero in
/-- Rolling over never changes the total. -/
theorem roll_total (k : K) : (meter.roll bill k).total bill = meter.total bill := by
  unfold roll
  split
  · rfl
  · simp [total, hzero]

include hzero in
theorem Holds.roll {k : K} (h : Holds bill base events meter) (hk : meter.period ≤ k) :
    Holds bill base events (meter.roll bill k) := by
  refine ⟨?_, ?_, ?_⟩
  · unfold Meter.roll
    split
    · exact h.bucket
    · rename_i hne
      have hlt : meter.period < k := lt_of_le_of_ne hk hne
      refine (inPeriod_of_notMem fun hmem => ?_).symm
      obtain ⟨e, he, heq⟩ := List.mem_map.mp hmem
      have hpast := h.past e he
      rw [show e.1 = k from heq] at hpast
      exact absurd hpast (not_le.mpr hlt)
  · rw [roll_total hzero]
    exact h.total
  · intro e he
    rw [roll_period]
    exact (h.past e he).trans hk

include hzero in
theorem Holds.add (h : Holds bill base events meter) (a : A) :
    Holds bill base (events ++ [(meter.period, a)]) (meter.add a) := by
  refine ⟨?_, ?_, ?_⟩
  · rw [add_period, inPeriod_append, inPeriod_single, if_pos rfl, ← h.bucket]
    rfl
  · have hstep := billed_append_single hzero events meter.period a
    have htotal := h.total
    rw [← h.bucket] at hstep
    unfold Meter.total Meter.add at *
    dsimp only
    omega
  · intro e he
    rcases List.mem_append.mp he with hold | hnew
    · exact h.past e hold
    · rw [List.mem_singleton.mp hnew, add_period]

/-- A meter that starts with something in its bucket has counted it as one event. -/
theorem holds_start (bill : A → Nat) (settled : Nat) (bucket : A) (k : K) :
    Holds bill settled [(k, bucket)] ⟨settled, bucket, k⟩ := by
  refine ⟨?_, ?_, ?_⟩
  · simp [inPeriod_single]
  · simp [total, billed, inPeriod_single]
  · intro e he
    rw [List.mem_singleton.mp he]

include hzero in
theorem holds_empty (settled : Nat) (k : K) : Holds bill settled [] ⟨settled, 0, k⟩ :=
  ⟨rfl, by simp [total, hzero], by simp⟩

end Meter

end PortsBox.Periods
