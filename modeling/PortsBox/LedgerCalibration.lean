import PortsBox.LedgerConservation
import PortsBox.LedgerCredit

/-!
# When a sync counts nothing as consumed

If every Effective record is fetched as Effective again nothing is gone, and the
drop is what the book had left, plus the totals of the packages that enter, less
what is left now. A package that comes back enters with its whole total, however
much of it had been used before it left.
-/

set_option autoImplicit false

namespace PortsBox

open Word Accounts MapSum
open Std (ExtTreeMap)

/-! ## What enters -/

/-- The totals of the Effective rows that find no Effective record, row after row. -/
def enteringInOrder (records : BTreeMap PackageRecord) : List Package → Nat
  | [] => 0
  | package :: packages =>
    (if entering records package then package.total else 0) +
      enteringInOrder (records.insert package.id
        ⟨package, records[package.id]?.bind PackageRecord.credit⟩) packages

theorem foldl_arrive_fst_wrap (packages : List Package) (acc : Nat × BTreeMap PackageRecord)
    (h : acc.1 < 2 ^ 64) :
    (packages.foldl arrive acc).1 = wrap 64 (acc.1 + enteringInOrder acc.2 packages) := by
  induction packages generalizing acc with
  | nil => exact (wrap_of_lt h).symm
  | cons package packages ih =>
    have hlt : (arrive acc package).1 < 2 ^ 64 := by
      rw [arrive_fst]
      split
      · exact wrap_lt 64 _
      · exact h
    rw [List.foldl_cons, ih _ hlt, arrive_fst, arrive_snd, enteringInOrder]
    split
    · rw [← Nat.add_assoc]
      simp [wrap]
    · rw [Nat.zero_add]

/-- Every Effective record is fetched as Effective. -/
def AllKept (records : BTreeMap PackageRecord) (packages : List Package) : Prop :=
  ∀ (id : String) (record : PackageRecord), records[id]? = some record →
    record.package.effective = true →
      ∃ package, fetchedPackage packages id = some package ∧ package.effective = true

section Kept
variable {records : BTreeMap PackageRecord} {packages : List Package}
  (hkept : AllKept records packages)
include hkept

theorem AllKept.not_leaves {id : String} {record : PackageRecord}
    (h : records[id]? = some record) : record.leaves (fetchedPackage packages id) = false := by
  cases heff : record.package.effective with
  | false => simp [PackageRecord.leaves, heff]
  | true =>
    obtain ⟨package, hfetched, hpackage⟩ := hkept id record h heff
    simp [PackageRecord.leaves, hfetched, hpackage]

theorem AllKept.gone : gone packages records = 0 := by
  have hnil : leaving packages records = [] := by
    rw [leaving, List.filter_eq_nil_iff]
    intro row hrow
    simp [hkept.not_leaves (mem_toList.mp hrow)]
  rw [PortsBox.gone, hnil]
  rfl

theorem AllKept.markMissing : markMissing packages records = records := by
  apply ExtTreeMap.ext_getElem?
  intro id
  rw [markMissing_lookup]
  cases hrecord : records[id]? with
  | none => rfl
  | some record => simp [PackageRecord.markMissing, hkept.not_leaves hrecord]

theorem AllKept.added :
    (arrivals packages records).1 = wrap 64 (enteringInOrder records packages) := by
  rw [arrivals, hkept.markMissing, foldl_arrive_fst_wrap packages _ (Nat.two_pow_pos 64),
    Nat.zero_add]

end Kept

/-! ## Row by row -/

/-- How much a package that stayed Effective has gained since it was recorded. -/
def keptGain (records : BTreeMap PackageRecord) (package : Package) : Int :=
  match records[package.id]? with
  | some record =>
    if package.effective && record.package.effective then
      package.available - record.package.available
    else 0
  | none => 0

/-- How much of a package that is Effective again, and was not, has been used. -/
def returningUsed (records : BTreeMap PackageRecord) (package : Package) : Int :=
  match records[package.id]? with
  | some record =>
    if package.effective && !record.package.effective then
      package.total - package.available
    else 0
  | none => 0

def lastAvailable (records : BTreeMap PackageRecord) (package : Package) : Nat :=
  (records[package.id]?).elim 0 fun record => record.package.effectiveAvailable

/-- What the book had left is what the fetched packages last had. -/
theorem effectiveAvailable_eq_lastAvailable {records : BTreeMap PackageRecord}
    {packages : List Package} (hids : DistinctIds packages) (hkept : AllKept records packages) :
    effectiveAvailable records = (packages.map (lastAvailable records)).sum := by
  apply sumBy_eq_sum_fetched hids
  intro id
  cases hfetched : fetchedPackage packages id with
  | some package =>
    obtain ⟨_, rfl⟩ := fetchedPackage_some hfetched
    rfl
  | none =>
    unfold summand
    cases hrecord : records[id]? with
    | none => rfl
    | some record =>
      have hoff : record.package.effective = false := by
        by_contra hon
        obtain ⟨package, hsome, _⟩ := hkept id record hrecord (by simpa using hon)
        simp [hfetched] at hsome
      simp [Package.effectiveAvailable, hoff]

/-- One row's part of the drop. -/
theorem row_drop {records : BTreeMap PackageRecord} {packages : List Package}
    {package : Package} (hids : DistinctIds packages) (hkept : AllKept records packages)
    (hmem : package ∈ packages)
    (hfull : records[package.id]? = none → package.available = package.total) :
    (lastAvailable records package : Int) +
        (if entering records package then package.total else 0 : Nat) -
          package.effectiveAvailable =
      returningUsed records package - keptGain records package := by
  unfold lastAvailable entering returningUsed keptGain Package.effectiveAvailable
  cases hrecord : records[package.id]? with
  | none =>
    have hnew := hfull hrecord
    cases heff : package.effective <;> simp [hnew]
  | some record =>
    cases heff : package.effective with
    | true => cases hold : record.package.effective <;> simp [hold]
    | false =>
      have hoff : record.package.effective = false := by
        by_contra hon
        obtain ⟨other, hfetched, hother⟩ :=
          hkept package.id record hrecord (by simpa using hon)
        rw [fetchedPackage_of_mem hids hmem, Option.some.injEq] at hfetched
        simp [hfetched, hother] at heff
      simp [hoff]

/-- The drop, row by row: used parts of what comes back, less gains of what stayed. -/
theorem sum_row_drop {records : BTreeMap PackageRecord} {packages : List Package}
    (hids : DistinctIds packages) (hkept : AllKept records packages)
    (hfull : ∀ package ∈ packages, records[package.id]? = none →
      package.available = package.total) :
    ((effectiveAvailable records + enteringTotal records packages : Nat) : Int) -
        (packages.map Package.effectiveAvailable).sum =
      (packages.map (returningUsed records)).sum - (packages.map (keptGain records)).sum := by
  have hsum : ∀ rows : List Package, (∀ row ∈ rows, row ∈ packages) →
      (((rows.map (lastAvailable records)).sum + enteringTotal records rows : Nat) : Int) -
          (rows.map Package.effectiveAvailable).sum =
        (rows.map (returningUsed records)).sum - (rows.map (keptGain records)).sum := by
    intro rows hrows
    induction rows with
    | nil => rfl
    | cons row rows ih =>
      have htail := ih fun r hr => hrows r (List.mem_cons_of_mem row hr)
      have hrow := row_drop hids hkept (hrows row List.mem_cons_self)
        (hfull row (hrows row List.mem_cons_self))
      have hentering : enteringTotal records (row :: rows) =
          (if entering records row then row.total else 0) + enteringTotal records rows := by
        unfold enteringTotal
        rw [List.filter_cons]
        split <;> simp
      simp only [List.map_cons, List.sum_cons, hentering]
      push_cast at htail hrow ⊢
      omega
  rw [effectiveAvailable_eq_lastAvailable hids hkept]
  exact hsum packages fun _ h => h

namespace Book

/-! ## Reachable books are reconciled -/

theorem foldl_openMember_fields (openings : List (Member × Nat)) (book : Book) :
    (openings.foldl openMember book).remaining = book.remaining ∧
      (openings.foldl openMember book).packages = book.packages := by
  induction openings generalizing book with
  | nil => exact ⟨rfl, rfl⟩
  | cons opening openings ih => exact ih (book.openMember opening)

/-- The first sync, too, records what it counts as remaining. -/
theorem reconciled_migration {book : Book} {s : Sync} (h : book.migrated = false)
    (hempty : book.packages = ∅) (hids : DistinctIds s.packages)
    (hsmall : (s.packages.map Package.available).sum < 2 ^ 64) :
    (book.sync s).1.Reconciled := by
  have hfields := foldl_openMember_fields
  rw [Reconciled, sync, reconcile, if_neg (by simp [h]), migrate]
  simp only [hfields, hempty]
  rw [remainingOf_of_lt hsmall]
  symm
  apply sumBy_eq_sum_fetched hids
  intro id
  rw [summand, foldl_migrated_lookup]
  cases fetchedPackage s.packages id <;> rfl

theorem reconciled_run {run : List Sync} (hne : run ≠ [])
    (hrun : ∀ t ∈ run, DistinctIds t.packages ∧
      (t.packages.map Package.available).sum < 2 ^ 64) :
    (({} : Book).syncs run).Reconciled := by
  obtain rfl | ⟨init, last, rfl⟩ := List.eq_nil_or_concat' run
  · exact absurd rfl hne
  obtain ⟨hids, hsmall⟩ := hrun last (by simp)
  rw [syncs_append]
  change ((({} : Book).syncs init).sync last).1.Reconciled
  cases init with
  | nil => exact reconciled_migration rfl rfl hids hsmall
  | cons t init =>
    exact reconciled_sync (syncs_migrated_of_ne_nil _ (List.cons_ne_nil t init)) hids hsmall

/-! ## Charging nobody -/

/-- A fetch after which nothing has been used: every recorded package that is Effective has at
least what it last had, every new one is full, and no Effective record is missing. -/
structure NothingUsed (records : BTreeMap PackageRecord) (packages : List Package) : Prop where
  grown : ∀ package ∈ packages, package.effective = true →
    ∀ record, records[package.id]? = some record →
      record.package.available ≤ package.available
  full : ∀ package ∈ packages, records[package.id]? = none → package.available = package.total
  kept : AllKept records packages

/-- Nothing is consumed, and the charging loop leaves every balance as it is. -/
def ChargesNobody (book : Book) (s : Sync) : Prop :=
  (book.sync s).1.consumed = 0 ∧
    chargeAll s.members (book.sync s).1.consumed
      (usageOf (book.join s.members).baselines s.members) (book.afterCredits s) =
        book.afterCredits s

theorem chargesNobody_iff_drop {book : Book} {s : Sync} (hmigrated : book.migrated = true) :
    book.ChargesNobody s ↔ drop book.remaining (arrivals s.packages book.packages).1
      (gone s.packages book.packages) (remainingOf s.packages) ≤ 0 := by
  have hconsumed := sync_consumed s hmigrated
  have hiff : (book.sync s).1.consumed = 0 ↔ drop book.remaining
      (arrivals s.packages book.packages).1 (gone s.packages book.packages)
        (remainingOf s.packages) ≤ 0 := by
    rw [hconsumed, consumedIn, consumedOf, clamp]
    omega
  rw [← hiff, ChargesNobody]
  exact and_iff_left_of_imp fun h => by simp [chargeAll, h]

/-- In every book a run of syncs leaves, a fetch after which nothing has been used charges
nobody exactly when what the book had left and the totals of what enters do not exceed what
is left now. Where ids are distinct: exactly when the parts of the returning packages that were
used before do not exceed what the others have gained. -/
theorem charges_nobody_iff (run : List Sync) (s : Sync) (hrun : run ≠ [])
    (hused : NothingUsed (({} : Book).syncs run).packages s.packages) :
    let book := ({} : Book).syncs run
    (book.ChargesNobody s ↔
      book.remaining + wrap 64 (enteringInOrder book.packages s.packages) ≤
        wrap 64 (s.packages.map Package.effectiveAvailable).sum) ∧
    ((∀ t ∈ run, DistinctIds t.packages ∧
        (t.packages.map Package.available).sum < 2 ^ 64) →
      DistinctIds s.packages → (s.packages.map Package.total).sum < 2 ^ 64 →
      (s.packages.map Package.available).sum < 2 ^ 64 →
      (book.ChargesNobody s ↔
        (s.packages.map (returningUsed book.packages)).sum ≤
          (s.packages.map (keptGain book.packages)).sum)) := by
  intro book
  change NothingUsed book.packages s.packages at hused
  have hmigrated : book.migrated = true := syncs_migrated_of_ne_nil _ hrun
  have hadded := hused.kept.added
  have hgone := hused.kept.gone
  have hiff := chargesNobody_iff_drop (s := s) hmigrated
  constructor
  · rw [hiff, hgone, hadded, remainingOf_eq_wrap, drop]
    omega
  · intro hrunSmall hids htotals havailable
    have hbook : book.Reconciled := reconciled_run hrun hrunSmall
    have hrows := sum_row_drop hids hused.kept hused.full
    rw [hiff, hgone, arrivals_fst book.packages hids htotals, remainingOf_of_lt havailable, drop,
      hbook]
    rw [Nat.cast_add] at hrows
    omega

/-! ## A package that vanishes and comes back -/

theorem nothingUsed_of_single {records : BTreeMap PackageRecord} {package : Package}
    {record : PackageRecord} (hrecords : records.toList = [(package.id, record)])
    (hgrown : record.package.available ≤ package.available)
    (heff : package.effective = true) : NothingUsed records [package] := by
  have hlookup : records[package.id]? = some record := by
    have hmem : (package.id, record) ∈ records.toList := by simp [hrecords]
    exact mem_toList.mp hmem
  refine ⟨?_, ?_, ?_⟩
  · intro other hmem _ last hlast
    obtain rfl := List.mem_singleton.mp hmem
    rw [hlookup, Option.some.injEq] at hlast
    rwa [← hlast]
  · intro other hmem hnone
    obtain rfl := List.mem_singleton.mp hmem
    simp [hlookup] at hnone
  · intro id last hlast _
    have hmem : (id, last) ∈ records.toList := mem_toList.mpr hlast
    rw [hrecords, List.mem_singleton, Prod.mk.injEq] at hmem
    exact ⟨package, by simp [fetchedPackage, hmem.1], heff⟩

/-- A package with 1000, of which `used` are gone. -/
def packageUsed (used : Nat) : Package := ⟨"p", "", "", 1000, 1000 - used, "Effective", ""⟩

def fetchUsed (used metered : Nat) (now : Int) : Sync :=
  ⟨[packageUsed used], [⟨"a", metered, none⟩], {}, now⟩

/-- The package is missing from the fetch. -/
def fetchNothing (metered : Nat) (now : Int) : Sync := ⟨[], [⟨"a", metered, none⟩], {}, now⟩

/-- A package that was full when it vanished may come back. -/
theorem charges_nobody_iff_full :
    (({} : Book).syncs [fetchUsed 0 0 0, fetchNothing 0 1]).ChargesNobody (fetchUsed 0 1 2) :=
  (charges_nobody_iff [fetchUsed 0 0 0, fetchNothing 0 1] (fetchUsed 0 1 2) (by simp)
    (nothingUsed_of_single (show _ = [("p", ⟨{ packageUsed 0 with status := "Missing" },
      some .migration⟩)] by decide +kernel) (by decide) (by decide))).1.mpr (by decide +kernel)

/-- One that was partly used is charged again: 600 of it, for a single metered byte. -/
theorem not_chargesNobody_returning :
    ¬ ∀ (run : List Sync) (s : Sync), run ≠ [] →
      NothingUsed (({} : Book).syncs run).packages s.packages →
      (({} : Book).syncs run).ChargesNobody s := by
  intro hclaim
  have hrecords : (({} : Book).syncs
      [fetchUsed 0 0 0, fetchUsed 600 600 1, fetchNothing 600 2]).packages.toList =
        [("p", ⟨{ packageUsed 600 with status := "Missing" }, some .migration⟩)] := by
    decide +kernel
  have hused : NothingUsed (({} : Book).syncs
      [fetchUsed 0 0 0, fetchUsed 600 600 1, fetchNothing 600 2]).packages [packageUsed 600] :=
    nothingUsed_of_single hrecords (by decide) (by decide)
  have hnobody := (hclaim _ (fetchUsed 600 601 3) (by simp) hused).1
  have hconsumed : ((({} : Book).syncs
      [fetchUsed 0 0 0, fetchUsed 600 600 1, fetchNothing 600 2]).sync
        (fetchUsed 600 601 3)).1.consumed = 600 := by decide +kernel
  rw [hconsumed] at hnobody
  simp at hnobody

end Book

end PortsBox
