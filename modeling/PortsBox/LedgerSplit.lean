import PortsBox.LedgerCore
import PortsBox.Lib.LargestRemainder

/-!
# `split_by` is largest-remainder apportionment

For every `u64` amount none of the word operations of `splitBy` overflows, so
the shares are those of the exact algorithm in the order of the remainders.
-/

set_option autoImplicit false

namespace PortsBox

open Word Apportion

def extraOrder (amount : Nat) (weights : List Nat) : List Nat :=
  ((remainders amount weights).insertionSort extraFirst).map Prod.snd

theorem extraOrder_enumerates (amount : Nat) (weights : List Nat) :
    Enumerates (extraOrder amount weights) weights := by
  have hsnd : (remainders amount weights).map Prod.snd = List.range weights.length := by
    rw [remainders, List.map_map, List.range_eq_range', ← List.zipIdx_map_snd 0 weights]
    rfl
  have hperm := (List.perm_insertionSort extraFirst (remainders amount weights)).map Prod.snd
  rwa [hsnd] at hperm

theorem extraFirst_iff (a b : Nat × Nat) :
    extraFirst a b ↔ b.1 < a.1 ∨ (a.1 = b.1 ∧ a.2 ≤ b.2) := by
  unfold extraFirst
  rw [Ordering.isLE_then_iff_or, Nat.compare_eq_lt, Nat.compare_eq_eq, Nat.isLE_compare]
  exact or_congr_right (and_congr_left' eq_comm)

theorem mem_remainders {amount : Nat} {weights : List Nat} {row : Nat × Nat}
    (h : row ∈ remainders amount weights) : row.1 = remainder amount weights row.2 := by
  obtain ⟨⟨w, i⟩, hmem, rfl⟩ := List.mem_map.mp h
  have hw := List.mem_zipIdx_iff_getElem?.mp hmem
  simp only [remainder, List.getD_eq_getElem?_getD, hw, Option.getD_some]

/-- The sort is by the remainders, and no two of its rows have one index. -/
theorem extraOrder_ranked (amount : Nat) (weights : List Nat) :
    Ranked amount weights (extraOrder amount weights) := by
  have htotal : Std.Total extraFirst := ⟨fun a b => by
    simp only [extraFirst_iff]
    omega⟩
  have htrans : IsTrans (Nat × Nat) extraFirst := ⟨fun a b c => by
    simp only [extraFirst_iff]
    omega⟩
  have hsorted := List.pairwise_insertionSort extraFirst (remainders amount weights)
  have hnodup := nodup_order (extraOrder_enumerates amount weights)
  unfold Ranked extraOrder at *
  rw [List.pairwise_map]
  apply (hsorted.and (List.pairwise_map.mp hnodup)).imp_of_mem
  intro a b ha hb hab
  obtain ⟨hfirst, hne⟩ := hab
  have hrow : ∀ row ∈ (remainders amount weights).insertionSort extraFirst,
      row.1 = remainder amount weights row.2 := by
    intro row hrow
    exact mem_remainders ((List.mem_insertionSort extraFirst).mp hrow)
  unfold Outranks
  rw [← hrow a ha, ← hrow b hb]
  rcases (extraFirst_iff a b).mp hfirst with hless | ⟨hsame, hle⟩
  · exact Or.inl hless
  · exact Or.inr ⟨hsame, Nat.lt_of_le_of_ne hle hne⟩

theorem modify_wrap_succ {shares : List Nat} (i : Nat) (h : shares.sum + 1 < 2 ^ 64) :
    shares.modify i (fun share => wrap 64 (share + 1)) = shares.modify i (· + 1) := by
  induction shares generalizing i with
  | nil => simp
  | cons share shares ih =>
    rw [List.sum_cons] at h
    cases i with
    | zero =>
      have hshare : wrap 64 (share + 1) = share + 1 := wrap_of_lt (by omega)
      simp only [List.modify_zero_cons, hshare]
    | succ i =>
      simp only [List.modify_succ_cons, ih i (by omega)]

theorem sum_modify_succ_le (shares : List Nat) (i : Nat) :
    (shares.modify i (· + 1)).sum ≤ shares.sum + 1 := by
  by_cases hi : i < shares.length
  · exact (sum_modify_succ hi).le
  · rw [List.modify_eq_self (by omega)]
    omega

theorem giveExtra_eq_handOut (rows : List (Nat × Nat)) (left : Nat) (shares : List Nat)
    (h : shares.sum + left < 2 ^ 64) :
    giveExtra rows left shares = handOut (rows.map Prod.snd) left shares := by
  induction rows generalizing left shares with
  | nil => rfl
  | cons row rows ih =>
    rcases row with ⟨r, i⟩
    simp only [giveExtra, List.map_cons, handOut]
    split
    · rfl
    · rw [modify_wrap_succ i (by omega)]
      apply ih
      have hsum := sum_modify_succ_le shares i
      omega

theorem map_wrap_floors {amount : Nat} (weights : List Nat) (h : amount < 2 ^ 64) :
    (weights.map fun weight => wrap 64 (amount * weight / weights.sum)) =
      floors amount weights := by
  apply List.map_congr_left
  intro weight hweight
  apply wrap_of_lt
  have hle : weight ≤ weights.sum := List.le_sum_of_mem hweight
  have hdiv : amount * weight / weights.sum ≤ amount := by
    apply Nat.div_le_of_le_mul
    rw [Nat.mul_comm weights.sum]
    exact Nat.mul_le_mul_left amount hle
  omega

theorem splitBy_eq_apportion {amount : Nat} (weights : List Nat) (h : amount < 2 ^ 64) :
    splitBy amount weights = apportion (extraOrder amount weights) amount weights := by
  unfold splitBy apportion
  rcases Nat.eq_zero_or_pos weights.sum with hzero | hpos
  · simp [hzero]
  · have hsum := floors_sum_le amount hpos
    simp only [if_neg hpos.ne', map_wrap_floors weights h]
    rw [sum_of_lt (by omega), sub_of_le h hsum]
    apply giveExtra_eq_handOut
    omega

@[simp] theorem giveExtra_length (rows : List (Nat × Nat)) (left : Nat) (shares : List Nat) :
    (giveExtra rows left shares).length = shares.length := by
  induction rows generalizing left shares with
  | nil => rfl
  | cons row rows ih =>
    unfold giveExtra
    split
    · rfl
    · rw [ih, List.length_modify]

@[simp] theorem splitBy_length (amount : Nat) (weights : List Nat) :
    (splitBy amount weights).length = weights.length := by
  unfold splitBy
  dsimp only
  split <;> simp

theorem splitBy_sum {amount : Nat} {weights : List Nat} (h : amount < 2 ^ 64)
    (hpos : 0 < weights.sum) : (splitBy amount weights).sum = amount := by
  rw [splitBy_eq_apportion weights h]
  exact apportion_sum amount (extraOrder_enumerates amount weights) hpos

theorem splitBy_le {amount share : Nat} {weights : List Nat} (h : amount < 2 ^ 64)
    (hshare : share ∈ splitBy amount weights) : share ≤ amount := by
  rw [splitBy_eq_apportion weights h] at hshare
  exact apportion_le (extraOrder_enumerates amount weights) hshare

@[simp] theorem splitEvenly_length (amount count : Nat) :
    (splitEvenly amount count).length = count := by simp [splitEvenly]

theorem splitEvenly_sum {amount count : Nat} (h : amount < 2 ^ 64) (hpos : 0 < count) :
    (splitEvenly amount count).sum = amount :=
  splitBy_sum h (by simpa using hpos)

theorem splitBy_getD_le {amount : Nat} {weights : List Nat} (h : amount < 2 ^ 64)
    (hle : amount ≤ weights.sum) (i : Nat) :
    (splitBy amount weights).getD i 0 ≤ weights.getD i 0 := by
  rw [splitBy_eq_apportion weights h]
  by_cases hi : i < weights.length
  · rcases Nat.eq_zero_or_pos weights.sum with hzero | hpos
    · rw [apportion, if_pos hzero, List.getD_eq_getElem _ _ (by rwa [List.length_replicate]),
        List.getElem_replicate]
      exact Nat.zero_le _
    · exact apportion_le_weight (extraOrder_enumerates amount weights)
        (extraOrder_ranked amount weights) hpos hle hi
  · rw [List.getD_eq_default _ _ (by simpa using hi)]
    exact Nat.zero_le _

/-- Even shares are the quotient or one more. -/
theorem splitEvenly_getD {amount count : Nat} (h : amount < 2 ^ 64) {i : Nat} (hi : i < count) :
    amount / count ≤ (splitEvenly amount count).getD i 0 ∧
      (splitEvenly amount count).getD i 0 ≤ amount / count + 1 := by
  have hsum : (List.replicate count 1).sum = count := by simp
  have hweight : (List.replicate count 1).getD i 0 = 1 := by
    simp [List.getD_eq_getElem?_getD, hi]
  have hcases := apportion_cases (extraOrder_enumerates amount (List.replicate count 1))
    (extraOrder_ranked amount (List.replicate count 1)) (by omega)
    (show i < (List.replicate count 1).length by rwa [List.length_replicate])
  rw [hsum, hweight, Nat.mul_one] at hcases
  rw [splitEvenly, splitBy_eq_apportion _ h]
  rcases hcases with ⟨hshare, -⟩ | ⟨hshare, -, -⟩
  · omega
  · omega

end PortsBox
