import Mathlib

/-!
# Sums over the entries of an ordered map

`sumBy f m` adds `f k v` over the entries of `m`. Inserting a key replaces one
summand, inserting what is there changes nothing, and two maps with the same lookups
have the same sums.
-/

set_option autoImplicit false

namespace PortsBox.MapSum

open Std (ExtTreeMap TransOrd LawfulEqOrd)

universe u v w

variable {K : Type u} {V : Type v} {M : Type w}
variable [Ord K] [TransOrd K]

def sumBy [AddCommMonoid M] (f : K → V → M) (m : ExtTreeMap K V) : M :=
  (m.toList.map fun p => f p.1 p.2).sum

/-- The summand of a key, zero when the key is absent. -/
def summand [AddCommMonoid M] (f : K → V → M) (m : ExtTreeMap K V) (k : K) : M :=
  (m[k]?).elim 0 (f k)

@[simp] theorem toList_empty : (∅ : ExtTreeMap K V).toList = [] :=
  ExtTreeMap.toList_eq_nil_iff.mpr rfl

theorem mem_toList [LawfulEqOrd K] {m : ExtTreeMap K V} {p : K × V} : p ∈ m.toList ↔ m[p.1]? = some p.2 :=
  ExtTreeMap.mem_toList_iff_getElem?_eq_some

theorem insertIfNew_of_mem [LawfulEqOrd K] {m : ExtTreeMap K V} {k : K} (h : k ∈ m) (v : V) :
    m.insertIfNew k v = m := by
  apply ExtTreeMap.ext_getElem?
  intro a
  rw [ExtTreeMap.getElem?_insertIfNew, if_neg fun hnew => hnew.2 h]

theorem insert_of_getElem? [LawfulEqOrd K] {m : ExtTreeMap K V} {k : K} {v : V}
    (h : m[k]? = some v) : m.insert k v = m := by
  apply ExtTreeMap.ext_getElem?
  intro a
  rw [ExtTreeMap.getElem?_insert]
  split
  · rename_i heq
    rw [← Std.compare_eq_iff_eq.mp heq, h]
  · rfl

section Monoid
variable [AddCommMonoid M] (f : K → V → M)

@[simp] theorem sumBy_empty : sumBy f (∅ : ExtTreeMap K V) = 0 := by
  simp [sumBy]

theorem summand_of_notMem {m : ExtTreeMap K V} {k : K} (hk : k ∉ m) : summand f m k = 0 := by
  simp [summand, ExtTreeMap.getElem?_eq_none hk]

variable [LawfulEqOrd K]

theorem sumBy_congr {f g : K → V → M} (m : ExtTreeMap K V)
    (h : ∀ k v, m[k]? = some v → f k v = g k v) : sumBy f m = sumBy g m := by
  unfold sumBy
  congr 1
  apply List.map_congr_left
  intro p hp
  exact h p.1 p.2 (mem_toList.mp hp)

theorem sumBy_eq_keys (m : ExtTreeMap K V) :
    sumBy f m = (m.keys.map (summand f m)).sum := by
  rw [← ExtTreeMap.map_fst_toList_eq_keys, List.map_map, sumBy]
  congr 1
  apply List.map_congr_left
  intro p hp
  simp [summand, mem_toList.mp hp]

variable [DecidableEq K]

theorem sumBy_eq_finset (m : ExtTreeMap K V) :
    sumBy f m = ∑ k ∈ m.keys.toFinset, summand f m k := by
  rw [sumBy_eq_keys, List.sum_toFinset _ ExtTreeMap.nodup_keys]

theorem mem_keys_toFinset {m : ExtTreeMap K V} {k : K} : k ∈ m.keys.toFinset ↔ k ∈ m := by
  simp [ExtTreeMap.mem_keys]

/-- One key's summand taken out of the sum, present or not. -/
theorem sumBy_split (m : ExtTreeMap K V) (k : K) :
    sumBy f m = summand f m k + ∑ a ∈ m.keys.toFinset.erase k, summand f m a := by
  rw [sumBy_eq_finset]
  by_cases hk : k ∈ m
  · exact (Finset.add_sum_erase _ _ (mem_keys_toFinset.mpr hk)).symm
  · rw [Finset.erase_eq_of_notMem (fun h => hk (mem_keys_toFinset.mp h)),
      summand_of_notMem f hk, zero_add]

theorem sumBy_insert (m : ExtTreeMap K V) (k : K) (v : V) :
    sumBy f (m.insert k v) + summand f m k = sumBy f m + f k v := by
  have hkeys : (m.insert k v).keys.toFinset.erase k = m.keys.toFinset.erase k := by
    ext a
    simp only [Finset.mem_erase, mem_keys_toFinset, ExtTreeMap.mem_insert, Std.compare_eq_iff_eq]
    exact and_congr_right fun hne => or_iff_right fun h => hne h.symm
  have hother : ∀ a ∈ m.keys.toFinset.erase k,
      summand f (m.insert k v) a = summand f m a := by
    intro a ha
    have hne : k ≠ a := fun h => (Finset.mem_erase.mp ha).1 h.symm
    simp [summand, ExtTreeMap.getElem?_insert, hne]
  have hself : summand f (m.insert k v) k = f k v := by
    simp [summand]
  rw [sumBy_split f (m.insert k v) k, sumBy_split f m k, hkeys,
    Finset.sum_congr rfl hother, hself]
  abel

end Monoid

end PortsBox.MapSum
