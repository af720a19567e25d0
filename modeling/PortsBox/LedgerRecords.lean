import PortsBox.LedgerPosting

/-!
# The package records across a sync

What the records say after the departures, the arrivals and the crediting loop,
and what the transitions add to and take from the provider's total. Lookups hold
for every fetched list; the sums need its ids to be distinct.
-/

set_option autoImplicit false

namespace PortsBox

open Word Accounts MapSum
open Std (ExtTreeMap)

/-! ## Fetched rows -/

theorem fetchedPackage_append (packages : List Package) (package : Package) (id : String) :
    fetchedPackage (packages ++ [package]) id =
      if package.id = id then some package else fetchedPackage packages id := by
  by_cases h : package.id = id <;> simp [fetchedPackage, h]

theorem fetchedPackage_some {packages : List Package} {id : String} {package : Package}
    (h : fetchedPackage packages id = some package) : package ∈ packages ∧ package.id = id := by
  constructor
  · exact List.mem_reverse.mp (List.mem_of_find?_eq_some h)
  · simpa using List.find?_some h

theorem fetchedPackage_eq_none_iff {packages : List Package} {id : String} :
    fetchedPackage packages id = none ↔ ∀ package ∈ packages, package.id ≠ id := by
  simp [fetchedPackage]

def DistinctIds (packages : List Package) : Prop := (packages.map Package.id).Nodup

instance (packages : List Package) : Decidable (DistinctIds packages) :=
  inferInstanceAs (Decidable (List.Nodup _))

theorem DistinctIds.eq_of_id {packages : List Package} (hids : DistinctIds packages)
    {p q : Package} (hp : p ∈ packages) (hq : q ∈ packages) (h : p.id = q.id) : p = q :=
  List.inj_on_of_nodup_map hids hp hq h

theorem fetchedPackage_of_mem {packages : List Package} (hids : DistinctIds packages)
    {package : Package} (h : package ∈ packages) :
    fetchedPackage packages package.id = some package := by
  cases hf : fetchedPackage packages package.id with
  | none => exact absurd rfl (fetchedPackage_eq_none_iff.mp hf package h)
  | some other =>
    obtain ⟨hmem, hid⟩ := fetchedPackage_some hf
    rw [hids.eq_of_id hmem h hid]

/-- What `migrate` records. -/
theorem foldl_migrated_lookup (packages : List Package) (records : BTreeMap PackageRecord)
    (id : String) :
    (packages.foldl (fun records package =>
      records.insert package.id ⟨package, some .migration⟩) records)[id]? =
      match fetchedPackage packages id with
      | some package => some ⟨package, some .migration⟩
      | none => records[id]? := by
  induction packages using List.reverseRecOn with
  | nil => rfl
  | append_singleton packages package ih =>
    rw [List.foldl_append, List.foldl_cons, List.foldl_nil, ExtTreeMap.getElem?_insert,
      fetchedPackage_append]
    simp only [Std.compare_eq_iff_eq]
    split
    · rfl
    · exact ih

/-! ## Departures -/

theorem markMissing_lookup (packages : List Package) (records : BTreeMap PackageRecord)
    (id : String) :
    (markMissing packages records)[id]? =
      records[id]?.map fun record => record.markMissing (fetchedPackage packages id) := by
  simp [markMissing]

@[simp] theorem PackageRecord.markMissing_credit (record : PackageRecord)
    (current : Option Package) : (record.markMissing current).credit = record.credit := by
  unfold PackageRecord.markMissing
  split <;> rfl

@[simp] theorem PackageRecord.markMissing_some (record : PackageRecord) (package : Package) :
    record.markMissing (some package) = record := by
  simp [PackageRecord.markMissing]

/-- A record that was not fetched is not Effective after the departures. -/
theorem PackageRecord.markMissing_none_effective (record : PackageRecord) :
    (record.markMissing none).package.effective = false := by
  cases heff : record.package.effective with
  | true =>
    have hleaves : record.leaves none = true := by simp [PackageRecord.leaves, heff]
    rw [PackageRecord.markMissing, hleaves]
    simp [Package.effective, effectiveStatus]
  | false => simp [PackageRecord.markMissing, PackageRecord.leaves, heff]

/-! ## Arrivals -/

theorem arrive_snd (acc : Nat × BTreeMap PackageRecord) (package : Package) :
    (arrive acc package).2 =
      acc.2.insert package.id ⟨package, acc.2[package.id]?.bind PackageRecord.credit⟩ := by
  unfold arrive
  cases acc.2[package.id]? <;> rfl

/-- The last fetched row of an id is recorded, with the credit the id already had. -/
theorem foldl_arrive_lookup (packages : List Package) (acc : Nat × BTreeMap PackageRecord)
    (id : String) :
    (packages.foldl arrive acc).2[id]? =
      match fetchedPackage packages id with
      | some package => some ⟨package, acc.2[id]?.bind PackageRecord.credit⟩
      | none => acc.2[id]? := by
  induction packages using List.reverseRecOn with
  | nil => rfl
  | append_singleton packages package ih =>
    rw [List.foldl_append, List.foldl_cons, List.foldl_nil, arrive_snd,
      ExtTreeMap.getElem?_insert, fetchedPackage_append]
    simp only [Std.compare_eq_iff_eq]
    by_cases hid : package.id = id
    · subst hid
      rw [if_pos rfl, if_pos rfl, ih]
      cases fetchedPackage packages package.id <;> rfl
    · rw [if_neg hid, if_neg hid, ih]

theorem arrivals_lookup (packages : List Package) (records : BTreeMap PackageRecord)
    (id : String) :
    (arrivals packages records).2[id]? =
      match fetchedPackage packages id with
      | some package => some ⟨package, records[id]?.bind PackageRecord.credit⟩
      | none => records[id]?.map fun record => record.markMissing none := by
  rw [arrivals, foldl_arrive_lookup]
  cases hf : fetchedPackage packages id <;> cases hr : records[id]? <;>
    simp [markMissing_lookup, hf, hr]

/-- An Effective row whose id has no Effective record yet. -/
def entering (records : BTreeMap PackageRecord) (package : Package) : Bool :=
  package.effective && !records[package.id]?.any fun record => record.package.effective

theorem arrive_fst (acc : Nat × BTreeMap PackageRecord) (package : Package) :
    (arrive acc package).1 =
      if entering acc.2 package then wrap 64 (acc.1 + package.total) else acc.1 := by
  unfold arrive entering
  cases acc.2[package.id]? <;> simp

def enteringTotal (records : BTreeMap PackageRecord) (packages : List Package) : Nat :=
  ((packages.filter (entering records)).map Package.total).sum

theorem enteringTotal_le (records : BTreeMap PackageRecord) (packages : List Package) :
    enteringTotal records packages ≤ (packages.map Package.total).sum :=
  (List.Sublist.map _ List.filter_sublist).sum_le_sum (fun _ _ => Nat.zero_le _)

theorem DistinctIds.prefix {packages rest : List Package} (h : DistinctIds (packages ++ rest)) :
    DistinctIds packages := by
  rw [DistinctIds, List.map_append] at h
  exact h.of_append_left

theorem foldl_arrive_fst {packages : List Package} {acc : Nat × BTreeMap PackageRecord}
    (hids : DistinctIds packages)
    (h : acc.1 + (packages.map Package.total).sum < 2 ^ 64) :
    (packages.foldl arrive acc).1 = acc.1 + enteringTotal acc.2 packages := by
  induction packages using List.reverseRecOn with
  | nil => rfl
  | append_singleton packages package ih =>
    rw [List.map_append, List.sum_append, List.map_singleton, List.sum_singleton] at h
    have hprev := ih hids.prefix (by omega)
    have hfresh : fetchedPackage packages package.id = none := by
      apply fetchedPackage_eq_none_iff.mpr
      intro p hp heq
      rw [DistinctIds, List.map_append, List.nodup_append] at hids
      exact hids.2.2 p.id (List.mem_map_of_mem hp) package.id (by simp) heq
    have hsame : entering (packages.foldl arrive acc).2 package = entering acc.2 package := by
      unfold entering
      rw [foldl_arrive_lookup, hfresh]
    have hle := enteringTotal_le acc.2 packages
    rw [List.foldl_append, List.foldl_cons, List.foldl_nil, arrive_fst, hsame, hprev,
      enteringTotal, enteringTotal, List.filter_append, List.map_append, List.sum_append]
    unfold enteringTotal at hle
    cases hent : entering acc.2 package with
    | true =>
      rw [if_pos rfl, wrap_of_lt (by omega)]
      simp [hent, Nat.add_assoc]
    | false => simp [hent]

/-- `added`: what the packages that become Effective bring in. -/
theorem arrivals_fst {packages : List Package} (records : BTreeMap PackageRecord)
    (hids : DistinctIds packages) (h : (packages.map Package.total).sum < 2 ^ 64) :
    (arrivals packages records).1 = enteringTotal records packages := by
  rw [arrivals, foldl_arrive_fst hids (by simpa using h), Nat.zero_add, enteringTotal,
    enteringTotal]
  congr 2
  apply List.filter_congr
  intro package hmem
  have hf := fetchedPackage_of_mem hids hmem
  cases hr : records[package.id]? <;> simp [entering, markMissing_lookup, hf, hr]

/-! ## Crediting -/

@[simp] theorem PackageRecord.credited_package (assignments : Assignments) (names : List String)
    (id : String) (record : PackageRecord) :
    (record.credited assignments names id).package = record.package := by
  unfold PackageRecord.credited
  split <;> rfl

theorem PackageRecord.credited_credit (assignments : Assignments) (names : List String)
    (id : String) (record : PackageRecord) :
    (record.credited assignments names id).credit =
      (creditDue assignments names id record).or record.credit := by
  unfold PackageRecord.credited creditDue
  cases creditNow assignments names id record <;> rfl

theorem creditRecords_lookup (assignments : Assignments) (names : List String)
    (records : BTreeMap PackageRecord) (id : String) :
    (creditRecords assignments names records)[id]? =
      records[id]?.map fun record => record.credited assignments names id := by
  simp [creditRecords]

/-! ## Sums over the records -/

/-- What a row contributes to the provider's remaining traffic. -/
def Package.effectiveAvailable (package : Package) : Nat :=
  if package.effective then package.available else 0

def effectiveAvailable (records : BTreeMap PackageRecord) : Nat :=
  sumBy (fun _ record => record.package.effectiveAvailable) records

theorem remainingOf_eq_wrap (packages : List Package) :
    remainingOf packages = wrap 64 (packages.map Package.effectiveAvailable).sum := by
  rw [remainingOf, sum_eq_wrap]
  congr 1
  induction packages with
  | nil => rfl
  | cons package packages ih =>
    by_cases heff : package.effective = true <;>
      simp [Package.effectiveAvailable, heff, ih]

theorem remainingOf_of_lt {packages : List Package}
    (h : (packages.map Package.available).sum < 2 ^ 64) :
    remainingOf packages = (packages.map Package.effectiveAvailable).sum := by
  have hle : (packages.map Package.effectiveAvailable).sum ≤
      (packages.map Package.available).sum := by
    apply List.sum_le_sum
    intro package _
    unfold Package.effectiveAvailable
    split <;> omega
  rw [remainingOf_eq_wrap, wrap_of_lt (by omega)]

/-- A sum over a list of fetched rows, taken id by id. -/
theorem sum_fetched {packages : List Package} (hids : DistinctIds packages)
    (f : Package → Nat) :
    (packages.map f).sum =
      ∑ id ∈ (packages.map Package.id).toFinset, (fetchedPackage packages id).elim 0 f := by
  rw [List.sum_toFinset _ hids, List.map_map]
  congr 1
  apply List.map_congr_left
  intro package hmem
  simp [fetchedPackage_of_mem hids hmem]

theorem sumBy_map {V W : Type} (f : String → W → Nat) (g : String → V → W) (m : BTreeMap V) :
    sumBy f (m.map g) = sumBy (fun k v => f k (g k v)) m := by
  simp [sumBy, Function.comp_def]

/-- A sum over the records whose summands come from the fetched rows is a sum over the rows. -/
theorem sumBy_eq_sum_fetched {packages : List Package} (hids : DistinctIds packages)
    {records : BTreeMap PackageRecord} {f : String → PackageRecord → Nat} {g : Package → Nat}
    (h : ∀ id, summand f records id = (fetchedPackage packages id).elim 0 g) :
    sumBy f records = (packages.map g).sum := by
  rw [sum_fetched hids, Finset.sum_congr rfl fun id _ => (h id).symm, sumBy_eq_finset]
  apply Finset.sum_congr_of_eq_on_inter
  · intro id _ hnot
    rw [h, fetchedPackage_eq_none_iff.mpr]
    · rfl
    · intro package hmem heq
      exact hnot (List.mem_toFinset.mpr (heq ▸ List.mem_map_of_mem hmem))
  · intro id _ hnot
    exact summand_of_notMem _ fun hmem => hnot (mem_keys_toFinset.mpr hmem)
  · intro id _ _
    rfl

/-- After the arrivals exactly the fetched Effective rows are Effective records: a sum that
ignores the other records can be taken over the fetched rows. -/
theorem sumBy_arrivals {packages : List Package} (hids : DistinctIds packages)
    (records : BTreeMap PackageRecord) (f : String → PackageRecord → Nat)
    (hf : ∀ id record, record.package.effective = false → f id record = 0) :
    sumBy f (arrivals packages records).2 =
      (packages.map fun package =>
        f package.id ⟨package, records[package.id]?.bind PackageRecord.credit⟩).sum := by
  apply sumBy_eq_sum_fetched hids
  intro id
  rw [summand, arrivals_lookup]
  cases hfetched : fetchedPackage packages id with
  | some package =>
    obtain ⟨_, rfl⟩ := fetchedPackage_some hfetched
    rfl
  | none =>
    cases records[id]? with
    | none => rfl
    | some record => exact hf id _ record.markMissing_none_effective

theorem effectiveAvailable_arrivals {packages : List Package} (hids : DistinctIds packages)
    (records : BTreeMap PackageRecord) :
    effectiveAvailable (arrivals packages records).2 =
      (packages.map Package.effectiveAvailable).sum := by
  apply sumBy_arrivals hids
  intro id record hoff
  simp [Package.effectiveAvailable, hoff]

/-- A record keeps the credit its id had before the sync until the crediting loop. -/
theorem arrivals_credit {packages : List Package} {records : BTreeMap PackageRecord}
    {id : String} {record : PackageRecord}
    (h : (arrivals packages records).2[id]? = some record) :
    record.credit = records[id]?.bind PackageRecord.credit := by
  rw [arrivals_lookup] at h
  cases hfetched : fetchedPackage packages id with
  | some package =>
    rw [hfetched] at h
    obtain rfl := Option.some.inj h
    rfl
  | none =>
    rw [hfetched] at h
    obtain ⟨old, hold, rfl⟩ := Option.map_eq_some_iff.mp h
    simp [hold]

theorem effectiveAvailable_creditRecords (assignments : Assignments) (names : List String)
    (records : BTreeMap PackageRecord) :
    effectiveAvailable (creditRecords assignments names records) = effectiveAvailable records := by
  rw [effectiveAvailable, creditRecords, sumBy_map]
  simp [effectiveAvailable]

theorem leftover_le_effectiveAvailable {record : PackageRecord} {current : Option Package}
    (h : record.leaves current = true) :
    record.leftover current ≤ record.package.effectiveAvailable := by
  have heff : record.package.effective = true := (Bool.and_eq_true_iff.mp h).1
  unfold PackageRecord.leftover Package.effectiveAvailable
  rw [if_pos heff]
  split <;> omega

theorem gone_sum_le (packages : List Package) (records : BTreeMap PackageRecord) :
    ((leaving packages records).map fun row =>
      row.2.leftover (fetchedPackage packages row.1)).sum ≤ effectiveAvailable records := by
  rw [effectiveAvailable, sumBy, leaving]
  generalize records.toList = rows
  induction rows with
  | nil => exact le_rfl
  | cons row rows ih =>
    rw [List.filter_cons]
    split
    · rename_i hleaves
      have hrow := leftover_le_effectiveAvailable hleaves
      simp only [List.map_cons, List.sum_cons]
      omega
    · simp only [List.map_cons, List.sum_cons]
      omega

theorem gone_of_lt {packages : List Package} {records : BTreeMap PackageRecord}
    (h : effectiveAvailable records < 2 ^ 64) :
    gone packages records = ((leaving packages records).map fun row =>
      row.2.leftover (fetchedPackage packages row.1)).sum := by
  have hle := gone_sum_le packages records
  exact sum_of_lt (by omega)

theorem gone_le (packages : List Package) {records : BTreeMap PackageRecord}
    (h : effectiveAvailable records < 2 ^ 64) :
    gone packages records ≤ effectiveAvailable records := by
  rw [gone_of_lt h]
  exact gone_sum_le packages records

theorem forfeitedRow_eq_some_iff {packages : List Package} {row : String × PackageRecord}
    {forfeit : String × Nat} :
    forfeitedRow packages row = some forfeit ↔
      row.2.credit.isSome = true ∧ 0 < row.2.leftover (fetchedPackage packages row.1) ∧
        forfeit = (row.1, row.2.leftover (fetchedPackage packages row.1)) := by
  simp only [forfeitedRow, Option.ite_none_right_eq_some, Bool.and_eq_true, decide_eq_true_eq,
    Option.some.injEq, and_assoc]
  exact and_congr_right fun _ => and_congr_right fun _ => eq_comm

theorem forfeited_sum_le (packages : List Package) {records : BTreeMap PackageRecord}
    (h : effectiveAvailable records < 2 ^ 64) :
    ((forfeited packages records).map Prod.snd).sum ≤ gone packages records := by
  rw [gone_of_lt h, forfeited]
  generalize leaving packages records = rows
  induction rows with
  | nil => exact le_rfl
  | cons row rows ih =>
    rw [List.filterMap_cons, List.map_cons, List.sum_cons]
    cases hrow : forfeitedRow packages row with
    | none => exact ih.trans (Nat.le_add_left _ _)
    | some forfeit =>
      obtain ⟨_, _, rfl⟩ := forfeitedRow_eq_some_iff.mp hrow
      simp only [List.map_cons, List.sum_cons]
      omega

end PortsBox
