import Mathlib

/-!
# Overshooting a threshold

Adders raise a level by at most one stride each. An adder stays open until it has compared the
level it left with the threshold, and closes only where it found that level below it. So what
lies above the levels of the closed adders was added by the open ones, however many adders
there have been.
-/

set_option autoImplicit false

namespace PortsBox

/-- The level, a level that no closed adder went past, the open adders, and the level that each
of them left. -/
structure Climb where
  level : Nat
  floor : Nat
  opened : Finset Nat
  ends : Nat → Nat

namespace Climb
variable {stride : Nat} {c : Climb}

/-- The open adders that ended above a level. -/
def above (c : Climb) (x : Nat) : Finset Nat := c.opened.filter fun i => x < c.ends i

/-- Above the floor, every part of the level was added by an open adder. -/
def Covered (stride : Nat) (c : Climb) : Prop :=
  ∀ x, c.floor ≤ x → c.level ≤ x + stride * (c.above x).card

def raise (c : Climb) (i level : Nat) : Climb :=
  { c with
    level
    opened := insert i c.opened
    ends := Function.update c.ends i level }

def close (c : Climb) (i : Nat) : Climb :=
  { c with
    floor := max c.floor (c.ends i)
    opened := c.opened.erase i }

theorem Covered.start (stride level : Nat) (ends : Nat → Nat) :
    Covered stride ⟨level, level, ∅, ends⟩ :=
  fun x hx => hx.trans (Nat.le_add_right x _)

theorem above_raise {i level x : Nat} (hi : i ∉ c.opened) (hx : x < level) :
    (c.raise i level).above x = insert i (c.above x) := by
  have hsame : (c.opened.filter fun j => x < Function.update c.ends i level j) = c.above x := by
    apply Finset.filter_congr
    intro j hj
    have hne : j ≠ i := ne_of_mem_of_not_mem hj hi
    rw [Function.update_of_ne hne]
  change (insert i c.opened).filter (fun j => x < Function.update c.ends i level j) = _
  rw [Finset.filter_insert, Function.update_self, if_pos hx, hsame]

theorem Covered.raise (h : c.Covered stride) {i level : Nat} (hi : i ∉ c.opened)
    (hlevel : level ≤ c.level + stride) : (c.raise i level).Covered stride := by
  intro x hx
  change level ≤ _
  by_cases hbelow : level ≤ x
  · exact hbelow.trans (Nat.le_add_right x _)
  · have hfresh : i ∉ c.above x := fun hmem => hi (Finset.mem_filter.mp hmem).1
    rw [above_raise hi (not_le.mp hbelow), Finset.card_insert_of_notMem hfresh, Nat.mul_succ,
      ← Nat.add_assoc]
    exact hlevel.trans (Nat.add_le_add_right (h x hx) stride)

theorem Covered.close (h : c.Covered stride) (i : Nat) : (c.close i).Covered stride := by
  intro x hx
  obtain ⟨hfloor, hend⟩ := max_le_iff.mp hx
  -- the adder that closes did not end above `x`, so it is not missed there
  have hsame : (c.close i).above x = c.above x := by
    have hout : i ∉ c.above x := fun hmem => absurd (Finset.mem_filter.mp hmem).2 (not_lt.mpr hend)
    change (c.opened.erase i).filter (fun j => x < c.ends j) = _
    rw [Finset.filter_erase]
    exact Finset.erase_eq_of_notMem hout
  rw [hsame]
  exact h x hfloor

theorem Covered.level_le (h : c.Covered stride) :
    c.level ≤ c.floor + stride * c.opened.card := by
  have hcard : (c.above c.floor).card ≤ c.opened.card := Finset.card_filter_le _ _
  calc c.level ≤ c.floor + stride * (c.above c.floor).card := h c.floor le_rfl
    _ ≤ c.floor + stride * c.opened.card := by gcongr

end Climb

end PortsBox
