import PortsBox.LedgerSplit

/-!
# What `split_by` gives to each weight

The shares of `split_by` are those of the largest-remainder method: they add up to the amount and
are fair to each other. No operation on the way to them leaves its word.
-/

set_option autoImplicit false

namespace PortsBox

open Word Apportion

/-- No operation of `split_by` leaves its word: not the `u128` sum and products, nor the `u64`
quotients, their sum, what is left of the amount, and the shares with their extra bytes. -/
structure SplitFits (amount : Nat) (weights : List Nat) : Prop where
  total : weights.sum < 2 ^ 128
  product : ∀ w ∈ weights, amount * w < 2 ^ 128
  quotient : ∀ w ∈ weights, amount * w / weights.sum < 2 ^ 64
  handedOut : 0 < weights.sum → (weights.map fun w => amount * w / weights.sum).sum ≤ amount
  share : ∀ share ∈ splitBy amount weights, share < 2 ^ 64

theorem splitFits {amount : Nat} {weights : List Nat} (hamount : amount < 2 ^ 64)
    (hweights : ∀ w ∈ weights, w < 2 ^ 64) (hlength : weights.length ≤ 2 ^ 64) :
    SplitFits amount weights := by
  have hquotient : ∀ w ∈ weights, amount * w / weights.sum ≤ amount := by
    intro w hw
    exact share_le_amount amount (List.le_sum_of_mem hw)
  refine ⟨?_, ?_, ?_, fun hpos => floors_sum_le amount hpos, ?_⟩
  · have hsum := List.sum_le_card_nsmul weights (2 ^ 64 - 1) (by
      intro w hw
      have hlt := hweights w hw
      omega)
    have hle : weights.length * (2 ^ 64 - 1) ≤ 2 ^ 64 * (2 ^ 64 - 1) :=
      Nat.mul_le_mul_right _ hlength
    rw [smul_eq_mul] at hsum
    omega
  · intro w hw
    exact lt_of_lt_of_le (Nat.mul_lt_mul'' hamount (hweights w hw)) (by norm_num)
  · intro w hw
    exact lt_of_le_of_lt (hquotient w hw) hamount
  · intro share hshare
    exact lt_of_le_of_lt (splitBy_le hamount hshare) hamount

/-- The share of every weight is the exact one rounded down or up and fair to the others'. -/
structure FairShares (amount : Nat) (weights shares : List Nat) : Prop where
  rounded : ∀ i < weights.length,
    shares.getD i 0 = amount * weights.getD i 0 / weights.sum ∨
      shares.getD i 0 = (amount * weights.getD i 0) ⌈/⌉ weights.sum
  nothing : ∀ i < weights.length, weights.getD i 0 = 0 → shares.getD i 0 = 0
  larger : ∀ i < weights.length, ∀ j < weights.length,
    weights.getD i 0 < weights.getD j 0 → shares.getD i 0 ≤ shares.getD j 0
  equal : ∀ j < weights.length, ∀ i < j, weights.getD i 0 = weights.getD j 0 →
    shares.getD j 0 ≤ shares.getD i 0 ∧ shares.getD i 0 ≤ shares.getD j 0 + 1
  covered : amount ≤ weights.sum → ∀ i < weights.length, shares.getD i 0 ≤ weights.getD i 0

/-- `split_by` gives one share to every weight, none where the weights are all zero, and else the
whole amount in fair shares. -/
theorem splitBy_fair {amount : Nat} {weights : List Nat} (hamount : amount < 2 ^ 64)
    (hweights : ∀ w ∈ weights, w < 2 ^ 64) :
    (splitBy amount weights).length = weights.length ∧
      (weights.length ≤ 2 ^ 64 → SplitFits amount weights) ∧
      (weights.sum = 0 → ∀ share ∈ splitBy amount weights, share = 0) ∧
      (0 < weights.sum → (splitBy amount weights).sum = amount ∧
        FairShares amount weights (splitBy amount weights)) := by
  have horder := extraOrder_enumerates amount weights
  have hranked := extraOrder_ranked amount weights
  refine ⟨splitBy_length amount weights, splitFits hamount hweights, ?_, ?_⟩
  · intro hzero share hshare
    rw [splitBy, if_pos hzero] at hshare
    exact List.eq_of_mem_replicate hshare
  · intro hpos
    refine ⟨splitBy_sum hamount hpos, ?_⟩
    rw [splitBy_eq_apportion weights hamount]
    constructor
    · intro i hi
      exact apportion_ceil horder hranked hpos hi
    · intro i hi hnone
      exact apportion_zero horder hranked hpos hi hnone
    · intro i hi j hj hlt
      exact apportion_mono horder hranked hpos hi hj hlt
    · intro j hj i hij hsame
      exact apportion_equal horder hranked hpos hij hj hsame
    · intro hle i hi
      exact apportion_le_weight horder hranked hpos hle hi

/-- Of 10 bytes for equal weights the first gets the extra byte. -/
theorem splitBy_fair_ten :
    splitBy 10 [1, 1, 1, 0] = [4, 3, 3, 0] ∧ FairShares 10 [1, 1, 1, 0] [4, 3, 3, 0] := by
  have hshares : splitBy 10 [1, 1, 1, 0] = [4, 3, 3, 0] := by decide +kernel
  have hfair := @splitBy_fair 10 [1, 1, 1, 0] (by decide) (by decide)
  exact ⟨hshares, hshares ▸ (hfair.2.2.2 (by decide)).2⟩

end PortsBox
