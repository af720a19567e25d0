import PortsBox.Lib.Apportion

/-!
# Fairness of the largest remainders

Where the left-over units go to the indices of the largest remainders, earlier ones first, every
share is the exact one rounded down or up. A larger weight never gets less, equal weights
differ by one unit at most, which the earlier has, and no weight of zero gets any.
-/

set_option autoImplicit false

namespace PortsBox.Apportion

variable {order weights : List Nat} {amount i j : Nat}

/-- What the rounded-down share of an index leaves. -/
def remainder (amount : Nat) (weights : List Nat) (i : Nat) : Nat :=
  amount * weights.getD i 0 % weights.sum

/-- The first index comes before the second. -/
def Outranks (amount : Nat) (weights : List Nat) (i j : Nat) : Prop :=
  remainder amount weights j < remainder amount weights i ∨
    (remainder amount weights i = remainder amount weights j ∧ i < j)

/-- The order is that of the remainders. -/
def Ranked (amount : Nat) (weights order : List Nat) : Prop :=
  order.Pairwise (Outranks amount weights)

theorem Outranks.not_symm (h : Outranks amount weights i j) : ¬ Outranks amount weights j i := by
  unfold Outranks at h ⊢
  omega

/-! ## Who gets a unit -/

/-- An index gets a unit where it is among the first of the order. -/
theorem handOut_getD (hnodup : order.Nodup) {shares : List Nat} (hi : i < shares.length)
    (left : Nat) : (handOut order left shares).getD i 0 =
      shares.getD i 0 + if i ∈ order.take left then 1 else 0 := by
  induction order generalizing left shares with
  | nil => simp [handOut]
  | cons k order ih =>
    obtain ⟨hk, hrest⟩ := List.nodup_cons.mp hnodup
    cases left with
    | zero => simp [handOut]
    | succ left =>
      have hlength : i < (shares.modify k (· + 1)).length := by rwa [List.length_modify]
      rw [handOut, if_neg (Nat.succ_ne_zero left), Nat.add_sub_cancel, ih hrest hlength,
        List.take_succ_cons]
      by_cases hki : k = i
      · subst hki
        have hnot : k ∉ order.take left := fun hmem => hk (List.mem_of_mem_take hmem)
        rw [if_neg hnot, if_pos List.mem_cons_self, List.getD_eq_getElem _ _ hlength,
          List.getD_eq_getElem _ _ hi, List.getElem_modify_eq]
      · have hother : (shares.modify k (· + 1)).getD i 0 = shares.getD i 0 := by
          simp [List.getD_eq_getElem?_getD, hki]
        have hsame : i ∈ k :: order.take left ↔ i ∈ order.take left := by
          simp [Ne.symm hki]
        rw [hother]
        simp only [hsame]

section Fair
variable (horder : Enumerates order weights) (hranked : Ranked amount weights order)
  (hpos : 0 < weights.sum)

/-- The indices that get a unit. -/
def favoured (order : List Nat) (amount : Nat) (weights : List Nat) : List Nat :=
  order.take (leftOver amount weights)

include horder in
theorem mem_order_iff : i ∈ order ↔ i < weights.length :=
  horder.mem_iff.trans List.mem_range

include horder in
theorem nodup_order : order.Nodup := horder.nodup_iff.mpr List.nodup_range

include horder hpos in
theorem apportion_getD (hi : i < weights.length) :
    (apportion order amount weights).getD i 0 = amount * weights.getD i 0 / weights.sum +
      if i ∈ favoured order amount weights then 1 else 0 := by
  rw [apportion, if_neg hpos.ne', handOut_getD (nodup_order horder) (by rwa [floors_length]),
    floors_getD]
  rfl

include horder hranked in
theorem favoured_of_outranks (hi : i < weights.length) (hj : j ∈ favoured order amount weights)
    (hij : Outranks amount weights i j) : i ∈ favoured order amount weights := by
  by_contra hnot
  have hmem := (mem_order_iff horder).mpr hi
  rw [← List.take_append_drop (leftOver amount weights) order] at hmem
  have hlater : i ∈ order.drop (leftOver amount weights) :=
    (List.mem_append.mp hmem).resolve_left hnot
  have hsplit := hranked
  unfold Ranked at hsplit
  rw [← List.take_append_drop (leftOver amount weights) order] at hsplit
  exact (List.pairwise_append.mp hsplit).2.2 j hj i hlater |>.not_symm hij

include horder in
/-- The remainders make up the units that are left. -/
theorem sum_remainder :
    (order.map (remainder amount weights)).sum = weights.sum * leftOver amount weights := by
  have hperm := (horder.map (remainder amount weights)).sum_eq
  have hrange : (List.range weights.length).map (remainder amount weights) =
      weights.map fun w => amount * w % weights.sum := by
    apply List.ext_getElem
    · simp
    · intro k hk _
      have hlt : k < weights.length := by simpa using hk
      simp [remainder, hlt]
  have h := sum_div_add_sum_mod amount weights.sum weights
  rw [hperm, hrange, leftOver, Nat.mul_sub, Nat.mul_comm weights.sum amount, ← h]
  exact (Nat.add_sub_cancel_left ..).symm

include horder hranked hpos in
/-- With a unit that goes to no remainder there would be more units than remainders make up. -/
theorem remainder_pos (hi : i ∈ favoured order amount weights) :
    0 < remainder amount weights i := by
  by_contra hzero
  have hnone : remainder amount weights i = 0 := Nat.eq_zero_of_not_pos hzero
  have hsplit := hranked
  unfold Ranked at hsplit
  rw [← List.take_append_drop (leftOver amount weights) order] at hsplit
  -- what comes after it has no remainder either
  have hdrop : ((order.drop (leftOver amount weights)).map (remainder amount weights)).sum = 0 := by
    apply List.sum_eq_zero
    intro r hr
    obtain ⟨k, hk, rfl⟩ := List.mem_map.mp hr
    have hbefore := (List.pairwise_append.mp hsplit).2.2 i hi k hk
    unfold Outranks at hbefore
    omega
  have htake : (order.map (remainder amount weights)).sum =
      ((favoured order amount weights).map (remainder amount weights)).sum := by
    conv_lhs => rw [← List.take_append_drop (leftOver amount weights) order]
    rw [List.map_append, List.sum_append, hdrop, Nat.add_zero]
    rfl
  have herase := List.sum_map_erase (remainder amount weights) hi
  have hbound := List.sum_le_card_nsmul
    (((favoured order amount weights).erase i).map (remainder amount weights)) weights.sum (by
      intro r hr
      obtain ⟨k, -, rfl⟩ := List.mem_map.mp hr
      exact (Nat.mod_lt _ hpos).le)
  have hlength : ((favoured order amount weights).erase i).length < leftOver amount weights := by
    rw [List.length_erase_of_mem hi]
    have hsome := List.length_pos_of_mem hi
    have hle : (favoured order amount weights).length ≤ leftOver amount weights :=
      List.length_take_le _ _
    omega
  rw [List.length_map, smul_eq_mul] at hbound
  have hlt := Nat.mul_lt_mul_of_pos_right hlength hpos
  rw [Nat.mul_comm (leftOver amount weights)] at hlt
  rw [sum_remainder horder] at htake
  omega

/-! ## What everybody gets -/

include horder hranked hpos

/-- The share rounded down, or up where something is left of it. -/
theorem apportion_cases (hi : i < weights.length) :
    ((apportion order amount weights).getD i 0 = amount * weights.getD i 0 / weights.sum ∧
        i ∉ favoured order amount weights) ∨
      ((apportion order amount weights).getD i 0 = amount * weights.getD i 0 / weights.sum + 1 ∧
        i ∈ favoured order amount weights ∧ 0 < remainder amount weights i) := by
  have hshare := @apportion_getD order weights amount i horder hpos hi
  by_cases hmem : i ∈ favoured order amount weights
  · rw [if_pos hmem] at hshare
    exact Or.inr ⟨hshare, hmem, remainder_pos horder hranked hpos hmem⟩
  · rw [if_neg hmem] at hshare
    exact Or.inl ⟨hshare, hmem⟩

theorem apportion_ceil (hi : i < weights.length) :
    (apportion order amount weights).getD i 0 = amount * weights.getD i 0 / weights.sum ∨
      (apportion order amount weights).getD i 0 =
        (amount * weights.getD i 0) ⌈/⌉ weights.sum := by
  rcases apportion_cases horder hranked hpos hi with ⟨hshare, -⟩ | ⟨hshare, -, hsome⟩
  · exact Or.inl hshare
  · right
    have hdiv := Nat.div_add_mod (amount * weights.getD i 0) weights.sum
    have hlt := Nat.mod_lt (amount * weights.getD i 0) hpos
    unfold remainder at hsome
    rw [hshare, Nat.ceilDiv_eq_add_pred_div]
    generalize amount * weights.getD i 0 = exact, amount * weights.getD i 0 / weights.sum = floor
      at hdiv hlt hsome ⊢
    rw [Nat.mul_comm] at hdiv
    symm
    apply Nat.div_eq_of_lt_le
    · rw [Nat.add_mul]
      omega
    · rw [Nat.add_mul, Nat.add_mul]
      omega

theorem apportion_zero (hi : i < weights.length) (hzero : weights.getD i 0 = 0) :
    (apportion order amount weights).getD i 0 = 0 := by
  rcases apportion_cases horder hranked hpos hi with ⟨hshare, -⟩ | ⟨-, -, hsome⟩
  · rw [hshare, hzero, Nat.mul_zero, Nat.zero_div]
  · rw [remainder, hzero, Nat.mul_zero, Nat.zero_mod] at hsome
    exact absurd hsome (lt_irrefl 0)

/-- Nobody gets more than its weight of an amount that the weights cover. -/
theorem apportion_le_weight (hle : amount ≤ weights.sum) (hi : i < weights.length) :
    (apportion order amount weights).getD i 0 ≤ weights.getD i 0 := by
  have hall : amount * weights.getD i 0 ≤ weights.sum * weights.getD i 0 :=
    Nat.mul_le_mul_right _ hle
  rcases apportion_cases horder hranked hpos hi with ⟨hshare, -⟩ | ⟨hshare, -, hsome⟩
  · rw [hshare]
    exact Nat.div_le_of_le_mul hall
  · have hdiv := Nat.div_add_mod (amount * weights.getD i 0) weights.sum
    unfold remainder at hsome
    rw [hshare]
    apply Nat.lt_of_mul_lt_mul_left (a := weights.sum)
    omega

theorem floor_le_apportion (hi : i < weights.length) :
    amount * weights.getD i 0 / weights.sum ≤ (apportion order amount weights).getD i 0 := by
  rcases apportion_cases horder hranked hpos hi with ⟨hshare, -⟩ | ⟨hshare, -, -⟩
  · exact hshare.ge
  · exact hshare ▸ Nat.le_succ _

/-- An index that outranks one with a unit over the same rounded-down share has that unit too. -/
theorem apportion_le_of_outranks (hi : i < weights.length) (hj : j < weights.length)
    (hfloor : amount * weights.getD i 0 / weights.sum ≤ amount * weights.getD j 0 / weights.sum)
    (hji : Outranks amount weights j i) :
    (apportion order amount weights).getD i 0 ≤ (apportion order amount weights).getD j 0 := by
  rcases apportion_cases horder hranked hpos hi with ⟨hshare, -⟩ | ⟨hshare, hmem, -⟩
  · rw [hshare]
    exact hfloor.trans (floor_le_apportion horder hranked hpos hj)
  · have hmem' := favoured_of_outranks horder hranked hj hmem hji
    rcases apportion_cases horder hranked hpos hj with ⟨-, hnot⟩ | ⟨hshare', -, -⟩
    · exact absurd hmem' hnot
    · rw [hshare, hshare']
      exact Nat.succ_le_succ hfloor

/-- A larger weight never gets less. -/
theorem apportion_mono (hi : i < weights.length) (hj : j < weights.length)
    (hlt : weights.getD i 0 < weights.getD j 0) :
    (apportion order amount weights).getD i 0 ≤ (apportion order amount weights).getD j 0 := by
  have hfloor : amount * weights.getD i 0 / weights.sum ≤
      amount * weights.getD j 0 / weights.sum :=
    Nat.div_le_div_right (Nat.mul_le_mul_left amount hlt.le)
  rcases Nat.eq_or_lt_of_le hfloor with hsame | hless
  · rcases Nat.eq_zero_or_pos amount with rfl | hamount
    · rcases apportion_cases horder hranked hpos hi with ⟨hshare, -⟩ | ⟨-, -, hsome⟩
      · rw [hshare, Nat.zero_mul, Nat.zero_div]
        exact Nat.zero_le _
      · rw [remainder, Nat.zero_mul, Nat.zero_mod] at hsome
        exact absurd hsome (lt_irrefl 0)
    · apply apportion_le_of_outranks horder hranked hpos hi hj hfloor
      left
      have hi' := Nat.div_add_mod (amount * weights.getD i 0) weights.sum
      have hj' := Nat.div_add_mod (amount * weights.getD j 0) weights.sum
      have hmore := Nat.mul_lt_mul_of_pos_left hlt hamount
      rw [hsame] at hi'
      unfold remainder
      omega
  · rcases apportion_cases horder hranked hpos hi with ⟨hshare, -⟩ | ⟨hshare, -, -⟩
    · rw [hshare]
      exact hfloor.trans (floor_le_apportion horder hranked hpos hj)
    · rw [hshare]
      exact (Nat.succ_le_of_lt hless).trans (floor_le_apportion horder hranked hpos hj)

/-- Of two equal weights the earlier has the unit they may differ by. -/
theorem apportion_equal (hij : i < j) (hj : j < weights.length)
    (hsame : weights.getD i 0 = weights.getD j 0) :
    (apportion order amount weights).getD j 0 ≤ (apportion order amount weights).getD i 0 ∧
      (apportion order amount weights).getD i 0 ≤
        (apportion order amount weights).getD j 0 + 1 := by
  have hi : i < weights.length := hij.trans hj
  have hfloor := floor_le_apportion horder hranked hpos hj
  constructor
  · have hranks : Outranks amount weights i j := by
      right
      exact ⟨by rw [remainder, remainder, hsame], hij⟩
    exact apportion_le_of_outranks horder hranked hpos hj hi (by rw [hsame]) hranks
  · rcases apportion_cases horder hranked hpos hi with ⟨hshare, -⟩ | ⟨hshare, -, -⟩
    · rw [hshare, hsame]
      exact hfloor.trans (Nat.le_succ _)
    · rw [hshare, hsame]
      exact Nat.succ_le_succ hfloor

end Fair

end PortsBox.Apportion
