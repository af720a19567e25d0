import Mathlib

/-!
# Writing back only what changed

A table and a cache of what was last written to it. Rows that equal the cached value
are skipped. As long as the cache only holds what the table holds, and the rows
written at once give each key one value, the table ends as if every row was written.
-/

set_option autoImplicit false

namespace PortsBox.WriteBack

open Std (ExtTreeMap TransOrd LawfulEqOrd)

universe u v

variable {K : Type u} {V : Type v} [Ord K] [TransOrd K] [LawfulEqOrd K]

/-- Every row, in order. -/
def putAll (table : ExtTreeMap K V) (rows : List (K × V)) : ExtTreeMap K V :=
  rows.foldl (fun table row => table.insert row.1 row.2) table

/-- What the cache holds, the table holds. -/
def Coherent (cache table : ExtTreeMap K V) : Prop :=
  ∀ (k : K) (v : V), cache[k]? = some v → table[k]? = some v

/-- No key comes with two values. -/
def OneEach (rows : List (K × V)) : Prop :=
  ∀ a ∈ rows, ∀ b ∈ rows, a.1 = b.1 → a.2 = b.2

variable {cache table : ExtTreeMap K V} {rows : List (K × V)}

theorem getElem?_insert_ne (table : ExtTreeMap K V) {k other : K} (v : V) (h : k ≠ other) :
    (table.insert k v)[other]? = table[other]? := by
  have hcompare : compare k other ≠ .eq := fun heq => h (LawfulEqOrd.eq_of_compare heq)
  rw [ExtTreeMap.getElem?_insert, if_neg hcompare]

theorem getElem?_putAll_of_notMem (table : ExtTreeMap K V) {rows : List (K × V)} {k : K}
    (h : ∀ row ∈ rows, row.1 ≠ k) : (putAll table rows)[k]? = table[k]? := by
  induction rows generalizing table with
  | nil => rfl
  | cons row rows ih =>
    change (putAll (table.insert row.1 row.2) rows)[k]? = _
    rw [ih _ fun other hother => h other (List.mem_cons_of_mem row hother),
      getElem?_insert_ne table row.2 (h row List.mem_cons_self)]

omit [TransOrd K] [LawfulEqOrd K] [Ord K] in
theorem OneEach.tail {row : K × V} (h : OneEach (row :: rows)) : OneEach rows :=
  fun a ha b hb => h a (List.mem_cons_of_mem row ha) b (List.mem_cons_of_mem row hb)

omit [TransOrd K] [LawfulEqOrd K] [Ord K] in
theorem OneEach.filter (h : OneEach rows) (p : K × V → Bool) : OneEach (rows.filter p) :=
  fun a ha b hb => h a (List.mem_of_mem_filter ha) b (List.mem_of_mem_filter hb)

omit [TransOrd K] [LawfulEqOrd K] [Ord K] in
theorem oneEach_of_nodup (h : (rows.map Prod.fst).Nodup) : OneEach rows :=
  fun _ ha _ hb hkey => congrArg Prod.snd (List.inj_on_of_nodup_map h ha hb hkey)

/-- After the write the table holds every row. -/
theorem getElem?_putAll_of_mem (table : ExtTreeMap K V) (h : OneEach rows) {row : K × V}
    (hrow : row ∈ rows) : (putAll table rows)[row.1]? = some row.2 := by
  induction rows generalizing table row with
  | nil => cases hrow
  | cons first rows ih =>
    change (putAll (table.insert first.1 first.2) rows)[row.1]? = _
    by_cases hlater : ∃ other ∈ rows, other.1 = row.1
    · obtain ⟨other, hother, hkey⟩ := hlater
      have hsame := h other (List.mem_cons_of_mem first hother) row hrow hkey
      have hput := ih (table.insert first.1 first.2) h.tail hother
      rwa [hkey, hsame] at hput
    · have hnone : ∀ other ∈ rows, other.1 ≠ row.1 :=
        fun other hother heq => hlater ⟨other, hother, heq⟩
      have hfirst : row = first := by
        rcases List.mem_cons.mp hrow with hfirst | htail
        · exact hfirst
        · exact absurd rfl (hnone row htail)
      rw [getElem?_putAll_of_notMem _ hnone, hfirst]
      exact ExtTreeMap.getElem?_insert_self

/-- Writing the same rows to both keeps them coherent. -/
theorem Coherent.putAll (h : Coherent cache table) (rows : List (K × V)) :
    Coherent (putAll cache rows) (putAll table rows) := by
  induction rows generalizing cache table with
  | nil => exact h
  | cons row rows ih =>
    apply ih
    intro k v hv
    by_cases hkey : row.1 = k
    · subst hkey
      rw [ExtTreeMap.getElem?_insert_self] at hv ⊢
      exact hv
    · rw [getElem?_insert_ne _ row.2 hkey] at hv ⊢
      exact h k v hv

variable [DecidableEq V]

/-- The rows that are not what was last written. -/
def dirty (cache : ExtTreeMap K V) (rows : List (K × V)) : List (K × V) :=
  rows.filter fun row => cache[row.1]? ≠ some row.2

/-- Skipping the others cannot be seen in the table. -/
theorem putAll_dirty (h : Coherent cache table) (hrows : OneEach rows) :
    putAll table (dirty cache rows) = putAll table rows := by
  apply ExtTreeMap.ext_getElem?
  intro k
  by_cases hmem : ∃ row ∈ rows, row.1 = k
  · obtain ⟨row, hrow, rfl⟩ := hmem
    rw [getElem?_putAll_of_mem table hrows hrow]
    by_cases hclean : cache[row.1]? = some row.2
    · have hnone : ∀ other ∈ dirty cache rows, other.1 ≠ row.1 := by
        intro other hother hkey
        obtain ⟨hold, hdirty⟩ := List.mem_filter.mp hother
        have hsame := hrows other hold row hrow hkey
        rw [hkey, hsame, hclean] at hdirty
        simp at hdirty
      rw [getElem?_putAll_of_notMem table hnone]
      exact h row.1 row.2 hclean
    · have hdirty : row ∈ dirty cache rows := List.mem_filter.mpr ⟨hrow, by simpa using hclean⟩
      exact getElem?_putAll_of_mem table (hrows.filter _) hdirty
  · have hnone : ∀ row ∈ rows, row.1 ≠ k := fun row hrow hkey => hmem ⟨row, hrow, hkey⟩
    rw [getElem?_putAll_of_notMem table hnone, getElem?_putAll_of_notMem table]
    exact fun row hrow => hnone row (List.mem_of_mem_filter hrow)

end PortsBox.WriteBack
