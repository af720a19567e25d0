import Mathlib.Data.List.AList

/-!
# Lookups and counts in an association list

What a lookup finds after an insertion or an erasure, and how many entries have a
property before and after. An insertion replaces at most one entry, an erasure
removes at most one.
-/

set_option autoImplicit false

namespace PortsBox.Table

universe u v

variable {K : Type u} {V : Type v} [DecidableEq K]

theorem lookup_insert_of (s : AList fun _ : K => V) (k other : K) (v : V) :
    (s.insert k v).lookup other = if other = k then some v else s.lookup other := by
  by_cases h : other = k
  · subst h
    rw [AList.lookup_insert, if_pos rfl]
  · rw [AList.lookup_insert_ne h, if_neg h]

theorem lookup_erase_of (s : AList fun _ : K => V) (k other : K) :
    (s.erase k).lookup other = if other = k then none else s.lookup other := by
  by_cases h : other = k
  · subst h
    rw [AList.lookup_erase, if_pos rfl]
  · rw [AList.lookup_erase_ne h, if_neg h]

/-- The entries whose value has a property. -/
def countBy (f : V → Bool) (s : AList fun _ : K => V) : Nat :=
  s.entries.countP fun entry => f entry.2

/-- What a key adds to the count, nothing when it is absent. -/
def share (f : V → Bool) (s : AList fun _ : K => V) (k : K) : Nat :=
  (s.lookup k).elim 0 fun v => (f v).toNat

theorem share_of_some {f : V → Bool} {s : AList fun _ : K => V} {k : K} {v : V}
    (h : s.lookup k = some v) : share f s k = (f v).toNat := by
  simp [share, h]

theorem share_of_none {f : V → Bool} {s : AList fun _ : K => V} {k : K}
    (h : s.lookup k = none) : share f s k = 0 := by
  simp [share, h]

omit [DecidableEq K] in
@[simp] theorem countBy_empty (f : V → Bool) : countBy f (∅ : AList fun _ : K => V) = 0 := rfl

omit [DecidableEq K] in
theorem countBy_true (s : AList fun _ : K => V) : countBy (fun _ => true) s = s.entries.length :=
  congrFun List.countP_true _

theorem countP_kerase (f : V → Bool) (l : List (Sigma fun _ : K => V)) (k : K) :
    (l.kerase k).countP (fun entry => f entry.2) + (l.dlookup k).elim 0 (fun v => (f v).toNat) =
      l.countP fun entry => f entry.2 := by
  induction l with
  | nil => simp
  | cons entry l ih =>
    rcases entry with ⟨key, v⟩
    by_cases h : k = key
    · subst h
      have hcut : List.kerase k (⟨k, v⟩ :: l) = l := List.kerase_cons_eq rfl
      rw [hcut, List.dlookup_cons_eq, List.countP_cons]
      cases hv : f v <;> simp [hv]
    · rw [List.kerase_cons_ne h, List.dlookup_cons_ne _ _ h, List.countP_cons, List.countP_cons]
      omega

theorem countBy_erase (f : V → Bool) (s : AList fun _ : K => V) (k : K) :
    countBy f (s.erase k) + share f s k = countBy f s :=
  countP_kerase f s.entries k

theorem countBy_insert (f : V → Bool) (s : AList fun _ : K => V) (k : K) (v : V) :
    countBy f (s.insert k v) + share f s k = countBy f s + (f v).toNat := by
  have herase := countP_kerase f s.entries k
  unfold countBy share
  rw [AList.entries_insert, List.countP_cons]
  change _ + (s.entries.dlookup k).elim 0 _ = _
  cases hv : f v
  · simp only [Bool.false_eq_true, if_false, Bool.toNat_false]
    omega
  · simp only [if_true, Bool.toNat_true]
    omega

theorem length_insert_of_none {s : AList fun _ : K => V} {k : K} (h : s.lookup k = none) (v : V) :
    (s.insert k v).entries.length = s.entries.length + 1 := by
  have := countBy_insert (fun _ => true) s k v
  rw [share_of_none h, countBy_true, countBy_true] at this
  exact this

theorem length_insert_of_some {s : AList fun _ : K => V} {k : K} {old : V}
    (h : s.lookup k = some old) (v : V) :
    (s.insert k v).entries.length = s.entries.length := by
  have := countBy_insert (fun _ => true) s k v
  rw [share_of_some h, countBy_true, countBy_true] at this
  simpa using this

theorem length_erase_le (s : AList fun _ : K => V) (k : K) :
    (s.erase k).entries.length ≤ s.entries.length := by
  have := countBy_erase (fun _ => true) s k
  rw [countBy_true, countBy_true] at this
  omega

/-- `HashMap::retain` by value. -/
def retain (f : V → Bool) (s : AList fun _ : K => V) : AList fun _ : K => V :=
  ⟨s.entries.filter fun entry => f entry.2, s.nodupKeys.sublist List.filter_sublist⟩

theorem dlookup_filter (f : V → Bool) {l : List (Sigma fun _ : K => V)} (h : l.NodupKeys) (k : K) :
    (l.filter fun entry => f entry.2).dlookup k = (l.dlookup k).filter f := by
  induction l with
  | nil => rfl
  | cons entry l ih =>
    rcases entry with ⟨key, v⟩
    obtain ⟨hnew, hrest⟩ := List.nodupKeys_cons.mp h
    by_cases hk : k = key
    · subst hk
      rw [List.dlookup_cons_eq, List.filter_cons]
      cases hv : f v
      · have hgone : l.dlookup k = none := List.dlookup_eq_none.mpr hnew
        simp only [Bool.false_eq_true, if_false, ih hrest, hgone, Option.filter, hv]
      · simp only [if_true, List.dlookup_cons_eq, Option.filter, hv]
    · rw [List.dlookup_cons_ne _ _ hk, ← ih hrest, List.filter_cons]
      cases hv : f v
      · rfl
      · exact List.dlookup_cons_ne _ (⟨key, v⟩ : Sigma fun _ : K => V) hk

theorem lookup_retain (f : V → Bool) (s : AList fun _ : K => V) (k : K) :
    (retain f s).lookup k = (s.lookup k).filter f :=
  dlookup_filter f s.nodupKeys k

end PortsBox.Table
