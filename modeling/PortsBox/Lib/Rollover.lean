import Mathlib

/-!
# Reading two counters while they are rolled over

The two counters of an open period are folded into a settled sum: one is taken, then
the other, then the bill of both is added. A reader loads the sum and the counters one
after another. It never reads more than the ceiling, which bills what has been taken
and is not settled yet, and which no move lowers.
-/

set_option autoImplicit false

namespace PortsBox.Rollover

/-- A bill of two amounts that taking them apart can only raise. -/
structure Tariff where
  bill : Nat → Nat → Nat
  zero : bill 0 0 = 0
  mono : ∀ {a b c d : Nat}, a ≤ c → b ≤ d → bill a b ≤ bill c d
  apart : ∀ a b : Nat, bill a b ≤ bill a 0 + bill 0 b
  up_le : ∀ a b n : Nat, bill (a + n) b ≤ bill a b + n
  down_le : ∀ a b n : Nat, bill a (b + n) ≤ bill a b + n

/-- What a roll-over under way has taken. -/
inductive Taken where
  | nothing
  | up (u : Nat)
  | both (u d : Nat)
  deriving DecidableEq, Repr

structure Cells where
  settled : Nat
  up : Nat
  down : Nat
  taken : Taken
  deriving DecidableEq, Repr

/-- What has been taken is billed apart from what is counted after it. -/
def Cells.ceiling (tariff : Tariff) (cells : Cells) : Nat :=
  match cells.taken with
  | .nothing => cells.settled + tariff.bill cells.up cells.down
  | .up u => cells.settled + tariff.bill u cells.down + tariff.bill cells.up 0
  | .both u d => cells.settled + tariff.bill u d + tariff.bill cells.up cells.down

inductive Move (tariff : Tariff) : Cells → Cells → Prop where
  | addUp (n s u d : Nat) (taken : Taken) : Move tariff ⟨s, u, d, taken⟩ ⟨s, u + n, d, taken⟩
  | addDown (n s u d : Nat) (taken : Taken) : Move tariff ⟨s, u, d, taken⟩ ⟨s, u, d + n, taken⟩
  | takeUp (s u d : Nat) : Move tariff ⟨s, u, d, .nothing⟩ ⟨s, 0, d, .up u⟩
  | takeDown (s u d v : Nat) : Move tariff ⟨s, u, d, .up v⟩ ⟨s, u, 0, .both v d⟩
  | settle (s u d v w : Nat) :
      Move tariff ⟨s, u, d, .both v w⟩ ⟨s + tariff.bill v w, u, d, .nothing⟩

variable {tariff : Tariff} {cells after : Cells}

theorem ceiling_addUp_le (tariff : Tariff) (n s u d : Nat) (taken : Taken) :
    (Cells.mk s (u + n) d taken).ceiling tariff ≤ (Cells.mk s u d taken).ceiling tariff + n := by
  have hboth := tariff.up_le u d n
  have hup := tariff.up_le u 0 n
  cases taken <;> simp only [Cells.ceiling] <;> omega

theorem ceiling_addDown_le (tariff : Tariff) (n s u d : Nat) (taken : Taken) :
    (Cells.mk s u (d + n) taken).ceiling tariff ≤ (Cells.mk s u d taken).ceiling tariff + n := by
  have hboth := tariff.down_le u d n
  cases taken with
  | nothing =>
    simp only [Cells.ceiling]
    omega
  | up v =>
    have hv := tariff.down_le v d n
    simp only [Cells.ceiling]
    omega
  | both v w =>
    simp only [Cells.ceiling]
    omega

theorem Move.ceiling_le (h : Move tariff cells after) :
    cells.ceiling tariff ≤ after.ceiling tariff := by
  cases h with
  | addUp n s u d taken =>
    have hboth : tariff.bill u d ≤ tariff.bill (u + n) d := tariff.mono (by omega) le_rfl
    have hup : tariff.bill u 0 ≤ tariff.bill (u + n) 0 := tariff.mono (by omega) le_rfl
    cases taken <;> simp only [Cells.ceiling] <;> omega
  | addDown n s u d taken =>
    have hboth : tariff.bill u d ≤ tariff.bill u (d + n) := tariff.mono le_rfl (by omega)
    cases taken with
    | nothing =>
      simp only [Cells.ceiling]
      omega
    | up v =>
      have hv : tariff.bill v d ≤ tariff.bill v (d + n) := tariff.mono le_rfl (by omega)
      simp only [Cells.ceiling]
      omega
    | both v w =>
      simp only [Cells.ceiling]
      omega
  | takeUp s u d =>
    simp only [Cells.ceiling]
    omega
  | takeDown s u d v => exact le_rfl
  | settle s u d v w =>
    simp only [Cells.ceiling]
    omega

/-! ## Readers -/

/-- What a reader has loaded so far. -/
inductive Seen where
  | nothing
  | settled (s : Nat)
  | up (s u : Nat)
  | all (s u d : Nat)
  deriving DecidableEq, Repr

/-- A loaded upload counter is still covered: by the counter, by what was taken from it, or by
what has been settled since the sum was loaded. -/
def Covered (tariff : Tariff) (cells : Cells) (s u : Nat) : Prop :=
  u ≤ cells.up ∨ (∃ v, cells.taken = .up v ∧ u ≤ v) ∨ (∃ v w, cells.taken = .both v w ∧ u ≤ v) ∨
    s + tariff.bill u 0 ≤ cells.settled

def Sound (tariff : Tariff) (cells : Cells) : Seen → Prop
  | .nothing => True
  | .settled s => s ≤ cells.settled
  | .up s u => s ≤ cells.settled ∧ Covered tariff cells s u
  | .all s u d => s + tariff.bill u d ≤ cells.ceiling tariff

theorem Move.settled_le (h : Move tariff cells after) : cells.settled ≤ after.settled := by
  cases h with
  | settle s u d v w => exact Nat.le_add_right _ _
  | addUp n s u d taken => exact le_rfl
  | addDown n s u d taken => exact le_rfl
  | takeUp s u d => exact le_rfl
  | takeDown s u d v => exact le_rfl

theorem Move.covered (h : Move tariff cells after) {s u : Nat} (hs : s ≤ cells.settled)
    (hcovered : Covered tariff cells s u) : Covered tariff after s u := by
  rcases hcovered with hup | ⟨v, htaken, hv⟩ | ⟨v, w, htaken, hv⟩ | hsettled
  · cases h with
    | addUp n s' u' d taken => exact Or.inl (Nat.le_add_right_of_le hup)
    | takeUp s' u' d => exact Or.inr (Or.inl ⟨u', rfl, hup⟩)
    | addDown n s' u' d taken => exact Or.inl hup
    | takeDown s' u' d v => exact Or.inl hup
    | settle s' u' d v w => exact Or.inl hup
  · cases h with
    | addUp n s' u' d taken => exact Or.inr (Or.inl ⟨v, htaken, hv⟩)
    | addDown n s' u' d taken => exact Or.inr (Or.inl ⟨v, htaken, hv⟩)
    | takeDown s' u' d v' =>
      obtain rfl : v' = v := by simpa using htaken
      exact Or.inr (Or.inr (Or.inl ⟨v', d, rfl, hv⟩))
    | takeUp s' u' d => cases htaken
    | settle s' u' d v' w => cases htaken
  · cases h with
    | addUp n s' u' d taken => exact Or.inr (Or.inr (Or.inl ⟨v, w, htaken, hv⟩))
    | addDown n s' u' d taken => exact Or.inr (Or.inr (Or.inl ⟨v, w, htaken, hv⟩))
    | settle s' u' d v' w' =>
      obtain ⟨rfl, rfl⟩ : v' = v ∧ w' = w := by simpa using htaken
      have hbill : tariff.bill u 0 ≤ tariff.bill v' w' := tariff.mono hv (Nat.zero_le w')
      exact Or.inr (Or.inr (Or.inr (Nat.add_le_add hs hbill)))
    | takeUp s' u' d => cases htaken
    | takeDown s' u' d v' => cases htaken
  · exact Or.inr (Or.inr (Or.inr (hsettled.trans h.settled_le)))

/-- What a reader holds stays sound under every move. -/
theorem Move.sound (h : Move tariff cells after) {seen : Seen}
    (hsound : Sound tariff cells seen) : Sound tariff after seen := by
  cases seen with
  | nothing => trivial
  | settled s => exact hsound.trans h.settled_le
  | up s u => exact ⟨hsound.1.trans h.settled_le, h.covered hsound.1 hsound.2⟩
  | all s u d => exact hsound.trans h.ceiling_le

theorem sound_up {s : Nat} (h : Sound tariff cells (.settled s)) :
    Sound tariff cells (.up s cells.up) :=
  ⟨h, Or.inl le_rfl⟩

/-- The last load completes a value that is at most the ceiling. -/
theorem sound_all {s u : Nat} (h : Sound tariff cells (.up s u)) :
    Sound tariff cells (.all s u cells.down) := by
  obtain ⟨hs, hcovered⟩ := h
  have hapart := tariff.apart u cells.down
  have hdown : ∀ v, tariff.bill 0 cells.down ≤ tariff.bill v cells.down :=
    fun v => tariff.mono (Nat.zero_le v) le_rfl
  have hown := hdown cells.up
  unfold Sound Cells.ceiling
  rcases hcovered with hup | ⟨v, htaken, hv⟩ | ⟨v, w, htaken, hv⟩ | hsettled
  · have hzero : tariff.bill u 0 ≤ tariff.bill cells.up 0 := tariff.mono hup le_rfl
    have hboth : tariff.bill u cells.down ≤ tariff.bill cells.up cells.down :=
      tariff.mono hup le_rfl
    cases cells.taken with
    | nothing =>
      dsimp only
      omega
    | up v =>
      have hv := hdown v
      dsimp only
      omega
    | both v w =>
      dsimp only
      omega
  · have hboth : tariff.bill u cells.down ≤ tariff.bill v cells.down := tariff.mono hv le_rfl
    rw [htaken]
    dsimp only
    omega
  · have hzero : tariff.bill u 0 ≤ tariff.bill v w := tariff.mono hv (Nat.zero_le w)
    rw [htaken]
    dsimp only
    omega
  · cases cells.taken with
    | nothing =>
      dsimp only
      omega
    | up v =>
      have hv := hdown v
      dsimp only
      omega
    | both v w =>
      dsimp only
      omega

end PortsBox.Rollover
