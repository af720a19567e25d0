import Mathlib

/-!
# Largest-remainder apportionment

Every weight first gets its share rounded down; the units left over go one each
to the first indices of an order of the weights. The shares add up to the amount
whichever order is used, because fewer units are left than there are weights.
-/

set_option autoImplicit false

namespace PortsBox.Apportion

/-- One more unit for each index of the order, until `left` units are gone. -/
def handOut : List Nat → Nat → List Nat → List Nat
  | [], _, shares => shares
  | i :: order, left, shares =>
    if left = 0 then shares else handOut order (left - 1) (shares.modify i (· + 1))

def floors (amount : Nat) (weights : List Nat) : List Nat :=
  weights.map fun w => amount * w / weights.sum

def leftOver (amount : Nat) (weights : List Nat) : Nat := amount - (floors amount weights).sum

def apportion (order : List Nat) (amount : Nat) (weights : List Nat) : List Nat :=
  if weights.sum = 0 then List.replicate weights.length 0
  else handOut order (leftOver amount weights) (floors amount weights)

@[simp] theorem handOut_length (order : List Nat) (left : Nat) (shares : List Nat) :
    (handOut order left shares).length = shares.length := by
  induction order generalizing left shares with
  | nil => rfl
  | cons i order ih =>
    unfold handOut
    split
    · rfl
    · rw [ih, List.length_modify]

@[simp] theorem floors_length (amount : Nat) (weights : List Nat) :
    (floors amount weights).length = weights.length := by simp [floors]

@[simp] theorem apportion_length (order : List Nat) (amount : Nat) (weights : List Nat) :
    (apportion order amount weights).length = weights.length := by
  unfold apportion
  split <;> simp

theorem sum_modify_succ {shares : List Nat} {i : Nat} (hi : i < shares.length) :
    (shares.modify i (· + 1)).sum = shares.sum + 1 := by
  induction shares generalizing i with
  | nil => simp at hi
  | cons s shares ih =>
    cases i with
    | zero =>
      simp only [List.modify_zero_cons, List.sum_cons]
      omega
    | succ i =>
      have hs := ih (Nat.lt_of_succ_lt_succ hi)
      simp only [List.modify_succ_cons, List.sum_cons, hs]
      omega

theorem handOut_sum {order : List Nat} {left : Nat} {shares : List Nat}
    (horder : ∀ i ∈ order, i < shares.length) :
    (handOut order left shares).sum = shares.sum + min left order.length := by
  induction order generalizing left shares with
  | nil => simp [handOut]
  | cons i order ih =>
    unfold handOut
    split
    · simp [*]
    · have hi := horder i List.mem_cons_self
      rw [ih (fun j hj => by
        rw [List.length_modify]
        exact horder j (List.mem_cons_of_mem i hj)), sum_modify_succ hi, List.length_cons]
      omega

/-- Division with remainder, summed over the weights. -/
theorem sum_div_add_sum_mod (amount total : Nat) (weights : List Nat) :
    total * (weights.map fun w => amount * w / total).sum +
      (weights.map fun w => amount * w % total).sum = amount * weights.sum := by
  induction weights with
  | nil => simp
  | cons w weights ih =>
    have hw := Nat.div_add_mod (amount * w) total
    simp only [List.map_cons, List.sum_cons, Nat.mul_add]
    omega

theorem floors_sum_le (amount : Nat) {weights : List Nat} (hpos : 0 < weights.sum) :
    (floors amount weights).sum ≤ amount := by
  have h := sum_div_add_sum_mod amount weights.sum weights
  have hle : weights.sum * (floors amount weights).sum ≤ weights.sum * amount := by
    rw [Nat.mul_comm weights.sum amount, ← h]
    exact Nat.le_add_right _ _
  exact Nat.le_of_mul_le_mul_left hle hpos

theorem sum_mod_le (amount total : Nat) (hpos : 0 < total) (weights : List Nat) :
    (weights.map fun w => amount * w % total).sum ≤ total * weights.length := by
  have h := List.sum_le_card_nsmul (weights.map fun w => amount * w % total) total (by
    intro r hr
    obtain ⟨w, _, rfl⟩ := List.mem_map.mp hr
    exact (Nat.mod_lt _ hpos).le)
  simpa [Nat.mul_comm] using h

/-- The remainders add up to `leftOver` times the total weight, and each is below it. -/
theorem leftOver_le_length (amount : Nat) {weights : List Nat} (hpos : 0 < weights.sum) :
    leftOver amount weights ≤ weights.length := by
  have h := sum_div_add_sum_mod amount weights.sum weights
  have hmod := sum_mod_le amount weights.sum hpos weights
  have hkey : weights.sum * leftOver amount weights =
      (weights.map fun w => amount * w % weights.sum).sum := by
    rw [leftOver, Nat.mul_sub, Nat.mul_comm weights.sum amount, ← h]
    exact Nat.add_sub_cancel_left ..
  rw [← hkey] at hmod
  exact Nat.le_of_mul_le_mul_left hmod hpos

/-- A listing of the indices of `weights`, in any order. -/
def Enumerates (order : List Nat) (weights : List Nat) : Prop :=
  order.Perm (List.range weights.length)

theorem Enumerates.lt {order weights : List Nat} (h : Enumerates order weights) :
    ∀ i ∈ order, i < weights.length := fun _ hi => List.mem_range.mp (h.mem_iff.mp hi)

theorem apportion_sum {order : List Nat} (amount : Nat) {weights : List Nat}
    (horder : Enumerates order weights) (hpos : 0 < weights.sum) :
    (apportion order amount weights).sum = amount := by
  have hle := floors_sum_le amount hpos
  have hleft := leftOver_le_length amount hpos
  have hlen : order.length = weights.length := by simpa using horder.length_eq
  rw [apportion, if_neg hpos.ne', handOut_sum (by simpa using horder.lt), hlen,
    Nat.min_eq_left hleft]
  unfold leftOver
  omega

theorem apportion_sum_zero {order : List Nat} {amount : Nat} {weights : List Nat}
    (hzero : weights.sum = 0) : (apportion order amount weights).sum = 0 := by
  simp [apportion, hzero]

theorem apportion_sum_le {order : List Nat} {amount : Nat} {weights : List Nat}
    (horder : Enumerates order weights) : (apportion order amount weights).sum ≤ amount := by
  rcases Nat.eq_zero_or_pos weights.sum with hzero | hpos
  · simp [apportion_sum_zero hzero]
  · exact (apportion_sum amount horder hpos).le

theorem apportion_le {order : List Nat} {amount : Nat} {weights : List Nat}
    (horder : Enumerates order weights) {share : Nat}
    (hshare : share ∈ apportion order amount weights) : share ≤ amount :=
  (List.le_sum_of_mem hshare).trans (apportion_sum_le horder)

/-! ## Share by share -/

theorem floors_getD (amount : Nat) (weights : List Nat) (i : Nat) :
    (floors amount weights).getD i 0 = amount * weights.getD i 0 / weights.sum := by
  simp only [floors, List.getD_eq_getElem?_getD, List.getElem?_map]
  cases weights[i]? <;> simp

/-! ## Two parts -/

theorem share_le_amount (amount : Nat) {part total : Nat} (h : part ≤ total) :
    amount * part / total ≤ amount :=
  Nat.div_le_of_le_mul ((Nat.mul_le_mul_left amount h).trans_eq (Nat.mul_comm _ _))

/-- Of an amount that two parts cover, the first gets its share rounded down and the second the
rest, and neither more than it has. -/
theorem share_le_parts {amount a b : Nat} (h : amount ≤ a + b) :
    amount * a / (a + b) ≤ a ∧ amount - amount * a / (a + b) ≤ b := by
  constructor
  · exact Nat.div_le_of_le_mul (Nat.mul_le_mul_right a h)
  · rcases Nat.eq_zero_or_pos (a + b) with hzero | hpos
    · have hnothing : amount ≤ b := by omega
      exact (Nat.sub_le _ _).trans hnothing
    · have hlt := Nat.lt_mul_div_succ (amount * a) hpos
      have hb : amount * b ≤ (a + b) * b := Nat.mul_le_mul_right b h
      have hall : amount * (a + b) < (a + b) * (amount * a / (a + b) + 1 + b) := by
        rw [Nat.mul_add, Nat.mul_add]
        exact Nat.add_lt_add_of_lt_of_le hlt hb
      rw [Nat.mul_comm] at hall
      have hamount := Nat.lt_of_mul_lt_mul_left hall
      apply Nat.sub_le_iff_le_add.mpr
      omega

end PortsBox.Apportion
