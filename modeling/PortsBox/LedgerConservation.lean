import PortsBox.LedgerStages

/-!
# Ledger conservation

A sync changes the sum of the balances by what it credits, less what it charges
and forfeits, plus the sweep; and `remaining` is again what the Effective records
have available. Amounts are bounded so that no word operation wraps or saturates.
-/

set_option autoImplicit false

namespace PortsBox

open Word Accounts MapSum
open Std (ExtTreeMap)

/-! ## The terms of the balance -/

/-- The total of the packages whose credit was none, or that were unknown, and now is some. -/
def newlyCredited (before after : BTreeMap PackageRecord) : Nat :=
  sumBy (fun id record =>
    if (before[id]?.bind PackageRecord.credit).isNone && record.credit.isSome then
      record.package.total
    else 0) after

/-- The last `available` of a credited package that stopped being Effective without being
used up. -/
def expiredRow (after : BTreeMap PackageRecord) (row : String × PackageRecord) : Option Nat :=
  if row.2.credit.isSome && row.2.package.effective &&
      !after[row.1]?.any (fun record => record.package.effective || record.package.usedUp) then
    some row.2.package.available
  else none

def expiredLeftovers (before after : BTreeMap PackageRecord) : List Nat :=
  before.toList.filterMap (expiredRow after)

namespace Book

/-- Some member's usage is above the baseline the book has for it. -/
def metersTraffic (book : Book) (members : List Member) : Bool :=
  members.any fun member => book.baselines[member.name]?.any (· < member.used)

/-- What one sync adds to the sum of the balances: credits, charges, forfeits, sweep. -/
def flow (book : Book) (s : Sync) : Int :=
  let after := (book.sync s).1
  newlyCredited book.packages after.packages
    - (if book.metersTraffic s.members then after.consumed else 0 : Nat)
    - covered (book.afterCharges s) (expiredLeftovers book.packages after.packages)
    + book.sweepOf s

/-- `remaining` is what the Effective records have available. -/
def Reconciled (book : Book) : Prop := book.remaining = effectiveAvailable book.packages

/-- Amounts so small that no operation of the next sync leaves 64 bits. -/
def InRange (book : Book) (packages : List Package) : Prop :=
  norm book.balances + book.remaining + 2 * (packages.map Package.total).sum +
    effectiveAvailable book.packages + (packages.map Package.available).sum < 2 ^ 63

instance (book : Book) : Decidable book.Reconciled := inferInstanceAs (Decidable (_ = _))

instance (book : Book) (packages : List Package) : Decidable (book.InRange packages) :=
  inferInstanceAs (Decidable (_ < _))

end Book

theorem creditDue_isSome {assignments : Assignments} {names : List String} {id : String}
    {record : PackageRecord} (h : (creditDue assignments names id record).isSome = true) :
    record.credit = none ∧ record.package.effective = true := by
  unfold creditDue at h
  rcases creditNow_cases assignments names id record with hnone | ⟨hcredit, heff, _⟩
  · simp [hnone] at h
  · exact ⟨hcredit, heff⟩

theorem expireOne_zero (balances : BTreeMap Int) : expireOne balances 0 = balances := by
  have hnil : lossPostings 0 balances = [] := by
    rw [lossPostings, debits, List.map_eq_nil_iff, List.filter_eq_nil_iff]
    intro loss hloss
    have hle : loss.2 ≤ 0 := splitBy_le (by decide) (List.of_mem_zip hloss).2
    simpa using hle
  rw [expireOne, hnil]
  rfl

/-- A leftover of nothing takes nothing. -/
theorem covered_filter_pos (balances : BTreeMap Int) (leftovers : List Nat) :
    covered balances (leftovers.filter (0 < ·)) = covered balances leftovers := by
  induction leftovers generalizing balances with
  | nil => rfl
  | cons leftover leftovers ih =>
    rcases Nat.eq_zero_or_pos leftover with hzero | hpos
    · subst hzero
      rw [List.filter_cons_of_neg (by simp), covered, expireOne_zero, ih]
      simp
    · rw [List.filter_cons_of_pos (by simpa using hpos), covered, covered, ih]

namespace Book

variable {book : Book} {s : Sync}

/-! ## The packages -/

theorem sync_packages_lookup (hmigrated : book.migrated = true) (id : String) :
    (book.sync s).1.packages[id]? =
      (book.arrived s)[id]?.map fun record => record.credited s.assignments (names s) id := by
  rw [sync_packages s hmigrated, creditRecords_lookup]

theorem newlyCredited_sync (hmigrated : book.migrated = true) :
    newlyCredited book.packages (book.sync s).1.packages =
      creditedNow s.assignments (names s) (book.arrived s).toList := by
  rw [sync_packages s hmigrated, newlyCredited, creditRecords, sumBy_map]
  change _ = sumBy (fun id record => creditedFor s.assignments (names s) id record) _
  apply sumBy_congr
  intro id record hrecord
  have hcredit := arrivals_credit hrecord
  rw [PackageRecord.credited_package, PackageRecord.credited_credit, ← hcredit, creditedFor]
  cases hdue : creditDue s.assignments (names s) id record with
  | some credit =>
    have hnone := (creditDue_isSome (by rw [hdue]; rfl)).1
    simp [hnone]
  | none => cases record.credit <;> simp

theorem creditedFor_of_not_effective {assignments : Assignments} {names : List String}
    {id : String} {record : PackageRecord} (h : record.package.effective = false) :
    creditedFor assignments names id record = 0 := by
  unfold creditedFor
  split_ifs with hdue
  · simp [(creditDue_isSome hdue).2] at h
  · rfl

theorem creditedNow_eq_sum (hids : DistinctIds s.packages) :
    creditedNow s.assignments (names s) (book.arrived s).toList =
      (s.packages.map fun package => creditedFor s.assignments (names s) package.id
        ⟨package, book.packages[package.id]?.bind PackageRecord.credit⟩).sum :=
  sumBy_arrivals hids book.packages (creditedFor s.assignments (names s))
    fun _ _ => creditedFor_of_not_effective

theorem creditedNow_le (book : Book) (hids : DistinctIds s.packages) :
    creditedNow s.assignments (names s) (book.arrived s).toList ≤
      (s.packages.map Package.total).sum := by
  rw [creditedNow_eq_sum hids]
  apply List.sum_le_sum
  intro package _
  unfold creditedFor
  split <;> simp

theorem arrived_lookup (id : String) :
    (book.arrived s)[id]? =
      match fetchedPackage s.packages id with
      | some package => some ⟨package, book.packages[id]?.bind PackageRecord.credit⟩
      | none => book.packages[id]?.map fun record => record.markMissing none :=
  arrivals_lookup s.packages book.packages id

/-- The forfeiting loop's row for a record, from what the record was and became. -/
theorem forfeitedRow_eq_expiredRow (hmigrated : book.migrated = true)
    {row : String × PackageRecord} (hmem : row ∈ book.packages.toList) :
    (if row.2.leaves (fetchedPackage s.packages row.1) then
        (forfeitedRow s.packages row).map Prod.snd else none) =
      (expiredRow (book.sync s).1.packages row).filter (0 < ·) := by
  rw [expiredRow, sync_packages_lookup hmigrated, arrived_lookup, mem_toList.mp hmem]
  cases heff : row.2.package.effective with
  | false => simp [PackageRecord.leaves, heff]
  | true =>
    have hpos : (0 < row.2.package.available) = ¬row.2.package.available = 0 := by
      simp [Nat.pos_iff_ne_zero]
    cases hf : fetchedPackage s.packages row.1 with
    | none =>
      have hoff := row.2.markMissing_none_effective
      have hused : (row.2.markMissing none).package.usedUp = false := by
        simp [PackageRecord.markMissing, PackageRecord.leaves, heff, Package.usedUp,
          usedUpStatus]
      cases hcredit : row.2.credit <;>
        simp [PackageRecord.leaves, PackageRecord.leftover, forfeitedRow, heff, hf, hcredit,
          hoff, hused, Option.filter, apply_ite, hpos]
    | some package =>
      cases hp : package.effective <;> cases hu : package.usedUp <;>
        cases hcredit : row.2.credit <;>
          simp [PackageRecord.leaves, PackageRecord.leftover, forfeitedRow, heff, hf, hp, hu,
            hcredit, Option.filter, apply_ite, hpos]

/-- The rows the forfeiting loop runs over are the expired leftovers that are not nothing. -/
theorem forfeited_eq_expired (hmigrated : book.migrated = true) :
    (forfeited s.packages book.packages).map Prod.snd =
      (expiredLeftovers book.packages (book.sync s).1.packages).filter (0 < ·) := by
  rw [forfeited, leaving, expiredLeftovers, List.map_filterMap, List.filterMap_filter,
    List.filter_filterMap]
  apply List.filterMap_congr
  intro row hmem
  exact forfeitedRow_eq_expiredRow hmigrated hmem

theorem covered_expired (hmigrated : book.migrated = true) (balances : BTreeMap Int) :
    covered balances ((forfeited s.packages book.packages).map Prod.snd) =
      covered balances (expiredLeftovers book.packages (book.sync s).1.packages) := by
  rw [forfeited_eq_expired hmigrated, covered_filter_pos]

/-! ## The traffic metered -/

theorem usageIn_pos (hnames : (s.members.map Member.name).Nodup) :
    0 < (book.usageIn s).sum ↔ book.metersTraffic s.members = true := by
  have hmember : ∀ member ∈ s.members,
      0 < member.used - (book.join s.members).baselines.getD member.name 0 ↔
        book.baselines[member.name]?.any (· < member.used) = true := by
    intro member hmem
    rw [ExtTreeMap.getD_eq_getD_getElem?]
    cases hbase : book.baselines[member.name]? with
    | some baseline =>
      rw [book.join_baselines_of_some s.members hbase]
      simp
    | none =>
      rw [book.join_baselines_of_none s.members hnames hmem hbase]
      simp
  rw [List.sum_pos_iff_exists_pos_nat, metersTraffic, List.any_eq_true, usageIn, usageOf]
  constructor
  · rintro ⟨used, hused, hpos⟩
    obtain ⟨member, hmem, rfl⟩ := List.mem_map.mp hused
    exact ⟨member, hmem, (hmember member hmem).mp hpos⟩
  · rintro ⟨member, hmem, hany⟩
    exact ⟨_, List.mem_map_of_mem hmem, (hmember member hmem).mpr hany⟩

theorem chargedOf_eq (hnames : (s.members.map Member.name).Nodup) :
    chargedOf (book.consumedIn s) (book.usageIn s) =
      if book.metersTraffic s.members then book.consumedIn s else 0 := by
  simp only [chargedOf, usageIn_pos hnames]

/-! ## The balances -/

theorem consumedIn_le (book : Book) (hids : DistinctIds s.packages)
    (h : (s.packages.map Package.total).sum < 2 ^ 64) :
    book.consumedIn s ≤ book.remaining + (s.packages.map Package.total).sum := by
  have hadded := arrivals_fst book.packages hids h
  have hle := enteringTotal_le book.packages s.packages
  unfold consumedIn consumedOf drop clamp
  omega

/-- In range the words of both posting stages are the integers, and room for the forfeits
is left. -/
theorem stages_exact (hids : DistinctIds s.packages) (hrange : book.InRange s.packages) :
    book.afterCredits s = postAll (book.join s.members).balances
        (creditPostings s.assignments (names s) (book.arrived s).toList) ∧
      book.afterCharges s = postAll (book.afterCredits s)
        (chargePostings s.members (book.consumedIn s) (book.usageIn s)) ∧
      norm (book.afterCharges s) + ((forfeited s.packages book.packages).map Prod.snd).sum ≤
        norm book.balances + book.remaining + 2 * (s.packages.map Package.total).sum +
          effectiveAvailable book.packages := by
  unfold InRange at hrange
  have hcreditedLe := book.creditedNow_le hids
  have hconsumedLe := book.consumedIn_le hids (by omega)
  have hchargedLe := chargedOf_le (book.consumedIn s) (book.usageIn s)
  have hgone := gone_le s.packages (show effectiveAvailable book.packages < 2 ^ 64 by omega)
  have hforfeited := forfeited_sum_le s.packages
    (show effectiveAvailable book.packages < 2 ^ 64 by omega)
  have hcreditVolume := (creditPostings_amounts
    s.assignments (names s) (book.arrived s).toList (by omega)).2
  have hchargeVolume := (chargePostings_amounts s.members (book.consumedIn s) (book.usageIn s)
    (by simp [usageIn, usageOf]) (by omega)).2
  have hjoinNorm := book.norm_join_balances s.members
  have hcredits : book.afterCredits s = postAll (book.join s.members).balances
      (creditPostings s.assignments (names s) (book.arrived s).toList) :=
    postWordAll_eq_postAll (by decide) (by omega)
  have hcreditsNorm := norm_postAll_le (book.join s.members).balances
    (creditPostings s.assignments (names s) (book.arrived s).toList)
  rw [← hcredits] at hcreditsNorm
  have hcharges : book.afterCharges s = postAll (book.afterCredits s)
      (chargePostings s.members (book.consumedIn s) (book.usageIn s)) :=
    postWordAll_eq_postAll (by decide) (by omega)
  have hchargesNorm := norm_postAll_le (book.afterCredits s)
    (chargePostings s.members (book.consumedIn s) (book.usageIn s))
  rw [← hcharges] at hchargesNorm
  exact ⟨hcredits, hcharges, by omega⟩

/-- The sum of the balances before the sweep. -/
theorem total_afterForfeits (hids : DistinctIds s.packages)
    (hrange : book.InRange s.packages) :
    total (book.afterForfeits s) =
        total book.balances + creditedNow s.assignments (names s) (book.arrived s).toList
          - chargedOf (book.consumedIn s) (book.usageIn s)
          - covered (book.afterCharges s) ((forfeited s.packages book.packages).map Prod.snd) ∧
      norm (book.afterForfeits s) ≤
        norm book.balances + book.remaining + 2 * (s.packages.map Package.total).sum +
          effectiveAvailable book.packages := by
  obtain ⟨hcredits, hcharges, hroom⟩ := stages_exact hids hrange
  unfold InRange at hrange
  have hcreditedLe := book.creditedNow_le hids
  have hconsumedLe := book.consumedIn_le hids (by omega)
  have hcreditAmount := (creditPostings_amounts
    s.assignments (names s) (book.arrived s).toList (by omega)).1
  have hchargeAmount := (chargePostings_amounts s.members (book.consumedIn s) (book.usageIn s)
    (by simp [usageIn, usageOf]) (by omega)).1
  obtain ⟨hforfeitTotal, hforfeitNorm⟩ := total_expire (book.afterCharges s)
    ((forfeited s.packages book.packages).map Prod.snd) (by omega)
  have hchargesTotal : total (book.afterCharges s) = total book.balances +
      creditedNow s.assignments (names s) (book.arrived s).toList -
        chargedOf (book.consumedIn s) (book.usageIn s) := by
    rw [hcharges, total_postAll, hcredits, total_postAll, total_join_balances, hcreditAmount,
      hchargeAmount]
    omega
  rw [afterForfeits, hforfeitTotal, hchargesTotal]
  exact ⟨rfl, by omega⟩

/-! ## The sweep -/

theorem unallocated_eq {book : Book} (h : book.remaining + norm book.balances < 2 ^ 63) :
    book.unallocated = book.remaining - total book.balances := by
  have hle := natAbs_total_le_norm book.balances
  have hsum : ssum 64 (book.balances.toList.map Prod.snd) = total book.balances :=
    ssum_toList (by decide) (by omega)
  rw [unallocated, hsum, signed_of_lt (by omega), sclamp_of_bounds] <;> omega

/-- The sweep never leaves 64 bits: the account ends at `remaining` less the other balances. -/
theorem adjust_unallocated {book : Book} (name : String)
    (h : book.remaining + norm book.balances < 2 ^ 63) :
    adjust book.balances name book.unallocated =
      post book.balances (name, book.remaining - total book.balances) := by
  have hothers := natAbs_others_le book.balances name
  rw [adjust_eq_postWord, unallocated_eq h]
  apply postWord_eq_post_of_natAbs (by decide)
  change (book.balances.getD name 0 + (book.remaining - total book.balances)).natAbs < 2 ^ 63
  omega

theorem remainingOf_le (packages : List Package)
    (h : (packages.map Package.available).sum < 2 ^ 64) :
    remainingOf packages ≤ (packages.map Package.available).sum := by
  rw [remainingOf_of_lt h]
  apply List.sum_le_sum
  intro package _
  unfold Package.effectiveAvailable
  split <;> omega

theorem calibrate_inRange (hids : DistinctIds s.packages)
    (hrange : book.InRange s.packages) :
    (book.calibrateSync s).1.remaining + norm (book.calibrateSync s).1.balances < 2 ^ 63 := by
  have hnorm := (total_afterForfeits hids hrange).2
  unfold InRange at hrange
  have hremaining := remainingOf_le s.packages (by omega)
  rw [calibrateSync_fst]
  change remainingOf s.packages + norm (book.afterForfeits s) < 2 ^ 63
  omega

/-- The sweep adds exactly `sweepOf` to the sum of the balances. -/
theorem total_sync (hmigrated : book.migrated = true) (hids : DistinctIds s.packages)
    (hrange : book.InRange s.packages) :
    total (book.sync s).1.balances = total (book.afterForfeits s) + book.sweepOf s := by
  have hin := calibrate_inRange hids hrange
  have hbalances : (book.calibrateSync s).1.balances = book.afterForfeits s := by
    rw [calibrateSync_fst]
  rw [book.sync_fst s hmigrated]
  by_cases hsingle : s.assignments.exclusive = true ∧ ∃ member, s.members = [member]
  · rcases hsingle with ⟨hexclusive, member, hmember⟩
    rw [sweepExclusive_of_single _ s.now hexclusive hmember,
      book.sweepOf_of_single hexclusive hmember]
    change total (adjust _ _ _) = _
    rw [adjust_unallocated _ hin, unallocated_eq hin, total_post, hbalances]
  · rw [sweepExclusive_of_not_single _ s.now hsingle, book.sweepOf_of_not_single hsingle,
      hbalances, Int.add_zero]

/-! ## One sync -/

/-- `remaining` is reconciled again after every sync. -/
theorem reconciled_sync (hmigrated : book.migrated = true) (hids : DistinctIds s.packages)
    (h : (s.packages.map Package.available).sum < 2 ^ 64) : (book.sync s).1.Reconciled := by
  rw [Reconciled, sync_remaining s hmigrated, sync_packages s hmigrated,
    effectiveAvailable_creditRecords, arrived, effectiveAvailable_arrivals hids,
    remainingOf_of_lt h]

/-- The conservation law for one sync. -/
theorem total_sync_eq_flow (hmigrated : book.migrated = true) (hids : DistinctIds s.packages)
    (hnames : (s.members.map Member.name).Nodup) (hrange : book.InRange s.packages) :
    total (book.sync s).1.balances = total book.balances + book.flow s := by
  have hforfeits := (total_afterForfeits hids hrange).1
  have hsync := total_sync hmigrated hids hrange
  rw [hforfeits, covered_expired hmigrated, ← newlyCredited_sync hmigrated,
    chargedOf_eq hnames, ← sync_consumed s hmigrated] at hsync
  rw [hsync, flow]
  omega

/-! ## The drop of the provider's total -/

/-- Every Effective record is credited. -/
def EffectiveCredited (book : Book) : Prop :=
  ∀ (id : String) (record : PackageRecord), book.packages[id]? = some record →
    record.package.effective = true → record.credit.isSome = true

/-- No recorded package that was not Effective is Effective afterwards. -/
def NoneReturned (before after : Book) : Prop :=
  ∀ (id : String) (record : PackageRecord), before.packages[id]? = some record →
    record.package.effective = false →
      ¬ ∃ now : PackageRecord, after.packages[id]? = some now ∧ now.package.effective = true

/-- What the packages that left take with them is what the credited ones leave behind. -/
theorem gone_eq_expired (book : Book) (s : Sync) (hmigrated : book.migrated = true) (hbefore : book.EffectiveCredited)
    (h : effectiveAvailable book.packages < 2 ^ 64) :
    gone s.packages book.packages =
      (expiredLeftovers book.packages (book.sync s).1.packages).sum := by
  have hfilter : ∀ rows : List (String × PackageRecord), (∀ row ∈ rows, row.2.credit.isSome) →
      ((rows.filterMap (forfeitedRow s.packages)).map Prod.snd).sum =
        (rows.map fun row => row.2.leftover (fetchedPackage s.packages row.1)).sum := by
    intro rows hrows
    induction rows with
    | nil => rfl
    | cons row rows ih =>
      have htail := ih fun r hr => hrows r (List.mem_cons_of_mem row hr)
      rw [List.filterMap_cons, List.map_cons, List.sum_cons, ← htail]
      rcases Nat.eq_zero_or_pos (row.2.leftover (fetchedPackage s.packages row.1)) with hz | hpos
      · simp [forfeitedRow, hz]
      · simp [forfeitedRow, hpos, hrows row List.mem_cons_self]
  have hpos : ∀ ns : List Nat, (ns.filter (0 < ·)).sum = ns.sum := by
    intro ns
    induction ns with
    | nil => rfl
    | cons n ns ih =>
      rcases Nat.eq_zero_or_pos n with rfl | hn
      · simpa using ih
      · simpa [List.filter_cons, hn] using ih
  rw [gone_of_lt h, ← hfilter, ← hpos (expiredLeftovers _ _), ← forfeited_eq_expired hmigrated]
  · rfl
  · intro row hrow
    obtain ⟨hmem, hleaves⟩ := List.mem_filter.mp hrow
    exact hbefore row.1 row.2 (mem_toList.mp hmem) (Bool.and_eq_true_iff.mp hleaves).1

/-- A package that enters is new, and so credited in the same sync. -/
theorem creditedNow_eq_entering (hmigrated : book.migrated = true)
    (hids : DistinctIds s.packages) (hbefore : book.EffectiveCredited)
    (hafter : (book.sync s).1.EffectiveCredited) (hnone : NoneReturned book (book.sync s).1) :
    creditedNow s.assignments (names s) (book.arrived s).toList =
      enteringTotal book.packages s.packages := by
  have hsum : ∀ packages : List Package, (packages.map fun package =>
      if entering book.packages package then package.total else 0).sum =
        enteringTotal book.packages packages := by
    intro packages
    induction packages with
    | nil => rfl
    | cons package packages ih =>
      by_cases hent : entering book.packages package = true <;>
        simp [enteringTotal, hent, ih]
  rw [creditedNow_eq_sum hids, ← hsum]
  congr 1
  apply List.map_congr_left
  intro package hmem
  have hfetched := fetchedPackage_of_mem hids hmem
  have hnow : (book.sync s).1.packages[package.id]? = some (PackageRecord.credited s.assignments
      (names s) package.id ⟨package, book.packages[package.id]?.bind PackageRecord.credit⟩) := by
    rw [sync_packages_lookup hmigrated, arrived_lookup, hfetched]
    rfl
  cases heff : package.effective with
  | false =>
    rw [creditedFor_of_not_effective heff]
    simp [entering, heff]
  | true =>
    cases hold : book.packages[package.id]? with
    | some record =>
      have hwas : record.package.effective = true := by
        by_contra hoff
        exact hnone package.id record hold (by simpa using hoff) ⟨_, hnow, by simpa using heff⟩
      have hcredit := hbefore package.id record hold hwas
      have hnot : creditDue s.assignments (names s) package.id ⟨package, record.credit⟩ = none := by
        rw [← Option.not_isSome_iff_eq_none]
        intro hdue
        have hnil : record.credit = none := (creditDue_isSome hdue).1
        simp [hnil] at hcredit
      simp [entering, heff, hold, hwas, creditedFor, hnot]
    | none =>
      have hcredit := hafter package.id _ hnow (by simpa using heff)
      rw [PackageRecord.credited_credit, hold] at hcredit
      have hdue : (creditDue s.assignments (names s) package.id ⟨package, none⟩).isSome := by
        simpa using hcredit
      simp [entering, heff, hold, creditedFor, hdue]

/-- The unallocated traffic moves by the drop that is not charged and the leftovers that are
not forfeited. -/
theorem unallocated_sync (hmigrated : book.migrated = true) (hids : DistinctIds s.packages)
    (hnames : (s.members.map Member.name).Nodup) (hrange : book.InRange s.packages)
    (hexclusive : s.assignments.exclusive = false)
    (hbefore : book.EffectiveCredited) (hafter : (book.sync s).1.EffectiveCredited)
    (hnone : NoneReturned book (book.sync s).1) :
    (book.sync s).1.unallocated = book.unallocated - (drop book.remaining
        (newlyCredited book.packages (book.sync s).1.packages)
        (expiredLeftovers book.packages (book.sync s).1.packages).sum (book.sync s).1.remaining -
      (if book.metersTraffic s.members then (book.sync s).1.consumed else 0 : Nat)) -
      ((expiredLeftovers book.packages (book.sync s).1.packages).sum -
        covered (book.afterCharges s)
          (expiredLeftovers book.packages (book.sync s).1.packages) : Int) ∧
      ((book.sync s).1.consumed : Int) = max 0 (drop book.remaining
        (newlyCredited book.packages (book.sync s).1.packages)
        (expiredLeftovers book.packages (book.sync s).1.packages).sum
        (book.sync s).1.remaining) := by
  have hflow := total_sync_eq_flow hmigrated hids hnames hrange
  have hnot : ¬ (s.assignments.exclusive = true ∧ ∃ member, s.members = [member]) := by
    simp [hexclusive]
  have hsweep := book.sweepOf_of_not_single hnot
  have hsame : (book.sync s).1 = (book.calibrateSync s).1 := by
    rw [book.sync_fst s hmigrated, sweepExclusive_of_not_single _ s.now hnot]
  have hin := calibrate_inRange hids hrange
  have hrange' := hrange
  unfold InRange at hrange'
  have hbound : effectiveAvailable book.packages < 2 ^ 64 := by
    omega
  have hgone := book.gone_eq_expired s hmigrated hbefore hbound
  have hadded : (arrivals s.packages book.packages).1 =
      newlyCredited book.packages (book.sync s).1.packages := by
    rw [newlyCredited_sync hmigrated, creditedNow_eq_entering hmigrated hids hbefore hafter hnone,
      arrivals_fst book.packages hids (by omega)]
  have hconsumed : (book.sync s).1.consumed = consumedOf book.remaining
      (newlyCredited book.packages (book.sync s).1.packages)
      (expiredLeftovers book.packages (book.sync s).1.packages).sum
      (book.sync s).1.remaining := by
    rw [sync_consumed s hmigrated, consumedIn, hadded, hgone, sync_remaining s hmigrated]
  have hle := book.consumedIn_le hids (by omega)
  rw [← hsame] at hin
  rw [unallocated_eq hin, unallocated_eq (show book.remaining + norm book.balances < 2 ^ 63 by omega), hflow, flow, hsweep]
  constructor
  · unfold drop
    omega
  · rw [← sync_consumed s hmigrated, hconsumed] at hle
    rw [hconsumed]
    unfold consumedOf clamp at *
    omega

/-! ## Runs -/

/-- A run of syncs with distinct ids and names whose amounts stay small. -/
def RunsInRange (book : Book) (run : List Sync) : Prop :=
  ∀ before s after, run = before ++ s :: after →
    DistinctIds s.packages ∧ (s.members.map Member.name).Nodup ∧
      (book.syncs before).InRange s.packages

theorem runsInRange_nil (book : Book) : book.RunsInRange [] := by
  intro before s after heq
  simp at heq

theorem RunsInRange.cons {s : Sync} {run : List Sync} (hids : DistinctIds s.packages)
    (hnames : (s.members.map Member.name).Nodup) (hrange : book.InRange s.packages)
    (hrun : (book.sync s).1.RunsInRange run) : book.RunsInRange (s :: run) := by
  intro before t after heq
  cases before with
  | nil =>
    obtain ⟨rfl, _⟩ := List.cons.inj heq
    exact ⟨hids, hnames, hrange⟩
  | cons _ before =>
    obtain ⟨rfl, hrest⟩ := List.cons.inj heq
    exact hrun before t after hrest

/-- At every point of a run the next sync leaves `remaining` reconciled (whether or not it was
before), changes the sum of the balances by credits, charges, forfeits and sweep, and moves
the unallocated traffic only by what is neither charged nor forfeited. -/
theorem syncs_conserve {book : Book} {run : List Sync} (hmigrated : book.migrated = true)
    (hrun : book.RunsInRange run) {pre post : List Sync} {s : Sync}
    (hsplit : run = pre ++ s :: post) :
    let before := book.syncs pre
    let after := (before.sync s).1
    let expired := expiredLeftovers before.packages after.packages
    let charged := if before.metersTraffic s.members then after.consumed else 0
    let dropped := drop before.remaining (newlyCredited before.packages after.packages)
      expired.sum after.remaining
    after.Reconciled ∧
      total after.balances = total before.balances
        + newlyCredited before.packages after.packages - charged
        - covered (before.afterCharges s) expired + before.sweepOf s ∧
      (s.assignments.exclusive = false → before.EffectiveCredited → after.EffectiveCredited →
        NoneReturned before after →
        after.consumed = max 0 dropped ∧
        after.unallocated = before.unallocated - (dropped - charged)
          - (expired.sum - covered (before.afterCharges s) expired)) := by
  subst hsplit
  have hmigratedPre := migrated_syncs pre hmigrated
  obtain ⟨hids, hnames, hrange⟩ := hrun pre s post rfl
  have hsmall : (s.packages.map Package.available).sum < 2 ^ 64 := by
    unfold InRange at hrange
    omega
  refine ⟨reconciled_sync hmigratedPre hids hsmall, ?_, ?_⟩
  · have h := total_sync_eq_flow hmigratedPre hids hnames hrange
    dsimp only [flow] at h
    rw [h]
    omega
  · intro hexclusive hbefore hafter hnone
    have h := unallocated_sync hmigratedPre hids hnames hrange hexclusive hbefore hafter hnone
    exact ⟨h.2, h.1⟩

/-- A book with one package of which its user has 600 of 1000 left. -/
def sampleBook : Book where
  migrated := true
  remaining := 600
  balances := (∅ : BTreeMap Int).insert "a" 600
  baselines := (∅ : BTreeMap Nat).insert "a" 0
  packages := (∅ : BTreeMap PackageRecord).insert "p"
    ⟨⟨"p", "", "", 1000, 600, "Effective", ""⟩, some .migration⟩

/-- 100 more is used, and a listed package arrives. -/
def sampleSync : Sync where
  packages := [⟨"p", "", "", 1000, 500, "Effective", ""⟩, ⟨"q", "", "", 200, 200, "Effective", ""⟩]
  members := [⟨"a", 100, none⟩]
  assignments := { split := {"q"} }
  now := 1

/-- Then the first package expires. -/
def sampleExpiry : Sync where
  packages := [⟨"p", "", "", 1000, 500, "Expired", ""⟩, ⟨"q", "", "", 200, 200, "Effective", ""⟩]
  members := [⟨"a", 100, none⟩]
  assignments := { split := {"q"} }
  now := 2

theorem syncs_conserve_sample :
    (sampleBook.syncs [sampleSync, sampleExpiry]).Reconciled ∧
      total (sampleBook.syncs [sampleSync, sampleExpiry]).balances =
        total (sampleBook.syncs [sampleSync]).balances - 500 := by
  have hrun : sampleBook.RunsInRange [sampleSync, sampleExpiry] :=
    .cons (by decide) (by decide) (by decide +kernel) (.cons (by decide) (by decide)
      (by decide +kernel) (runsInRange_nil _))
  have hsplit : [sampleSync, sampleExpiry] = [sampleSync] ++ sampleExpiry :: [] := rfl
  obtain ⟨hbook, htotal, _⟩ := syncs_conserve (by decide) hrun hsplit
  exact ⟨hbook, htotal.trans (by decide +kernel)⟩

end Book

end PortsBox
