import PortsBox.LedgerCalibration

/-!
# Order and repetition of the fetched rows

Two fetches with the same rows leave the same records, and bring in and lose the same
traffic, in whatever order the rows come and however often one is repeated. Only what
is counted as remaining is a sum over the rows as they come.
-/

set_option autoImplicit false

namespace PortsBox

open Word Accounts MapSum
open Std (ExtTreeMap)

/-! ## Repeated rows -/

/-- The rows that come again later in the list. -/
def repeated : List Package → List Package
  | [] => []
  | package :: packages =>
    if package ∈ packages then package :: repeated packages else repeated packages

/-- A sum over the rows counts every row once, and the repeated ones again. -/
theorem sum_rows (f : Package → Nat) (packages : List Package) :
    (packages.map f).sum = ∑ package ∈ packages.toFinset, f package +
      ((repeated packages).map f).sum := by
  induction packages with
  | nil => rfl
  | cons package packages ih =>
    rw [List.map_cons, List.sum_cons, ih, List.toFinset_cons, repeated]
    by_cases hmem : package ∈ packages
    · rw [if_pos hmem, Finset.insert_eq_of_mem (List.mem_toFinset.mpr hmem), List.map_cons,
        List.sum_cons]
      omega
    · rw [if_neg hmem, Finset.sum_insert fun h => hmem (List.mem_toFinset.mp h)]
      omega

/-- Each id has one content. -/
def OneContent (packages : List Package) : Prop :=
  ∀ p ∈ packages, ∀ q ∈ packages, p.id = q.id → p = q

instance (packages : List Package) : Decidable (OneContent packages) :=
  inferInstanceAs (Decidable (∀ p ∈ packages, ∀ q ∈ packages, p.id = q.id → p = q))

theorem OneContent.tail {package : Package} {packages : List Package}
    (h : OneContent (package :: packages)) : OneContent packages :=
  fun p hp q hq => h p (List.mem_cons_of_mem package hp) q (List.mem_cons_of_mem package hq)

/-! ## What comes in -/

/-- What one row brings in. -/
def bringsIn (records : BTreeMap PackageRecord) (package : Package) : Nat :=
  if entering records package then package.total else 0

/-- A row that is recorded brings in nothing more, and the others what they did before. -/
theorem bringsIn_insert (records : BTreeMap PackageRecord) (package : Package)
    (credit : Option Credit) (other : Package) :
    bringsIn (records.insert package.id ⟨package, credit⟩) other =
      if other.id = package.id then if other.effective && !package.effective then other.total else 0
      else bringsIn records other := by
  unfold bringsIn entering
  rw [ExtTreeMap.getElem?_insert]
  by_cases hid : package.id = other.id
  · simp [hid]
  · simp [hid, Ne.symm hid]

/-- Row after row, each content is counted once. -/
theorem enteringInOrder_eq {packages : List Package} (hcontent : OneContent packages)
    (records : BTreeMap PackageRecord) :
    enteringInOrder records packages = ∑ package ∈ packages.toFinset, bringsIn records package := by
  induction packages generalizing records with
  | nil => rfl
  | cons package packages ih =>
    have hrest : ∑ other ∈ packages.toFinset,
        bringsIn (records.insert package.id
          ⟨package, records[package.id]?.bind PackageRecord.credit⟩) other =
          ∑ other ∈ packages.toFinset.erase package, bringsIn records other := by
      have hself : bringsIn (records.insert package.id
          ⟨package, records[package.id]?.bind PackageRecord.credit⟩) package = 0 := by
        rw [bringsIn_insert, if_pos rfl]
        cases package.effective <;> rfl
      rw [← Finset.sum_erase _ hself]
      apply Finset.sum_congr rfl
      intro other hother
      obtain ⟨hne, hmem⟩ := Finset.mem_erase.mp hother
      have hid : other.id ≠ package.id := fun heq => hne (hcontent other
        (List.mem_cons_of_mem package (List.mem_toFinset.mp hmem)) package List.mem_cons_self heq)
      rw [bringsIn_insert, if_neg hid]
    rw [enteringInOrder, ih hcontent.tail, hrest, List.toFinset_cons,
      ← Finset.add_sum_erase _ _ (Finset.mem_insert_self package packages.toFinset),
      Finset.erase_insert_eq_erase]
    rfl

/-! ## Two fetches with the same rows -/

section Same
variable {these those : List Package} (hsame : ∀ package, package ∈ these ↔ package ∈ those)
  (hcontent : OneContent these)
include hsame

theorem toFinset_of_same : these.toFinset = those.toFinset := by
  ext package
  rw [List.mem_toFinset, List.mem_toFinset, hsame]

include hcontent

theorem OneContent.of_same : OneContent those :=
  fun p hp q hq => hcontent p ((hsame p).mpr hp) q ((hsame q).mpr hq)

theorem fetchedPackage_of_same : fetchedPackage these = fetchedPackage those := by
  funext id
  cases hthis : fetchedPackage these id with
  | some package =>
    obtain ⟨hmem, rfl⟩ := fetchedPackage_some hthis
    cases hthat : fetchedPackage those package.id with
    | some other =>
      obtain ⟨hother, hid⟩ := fetchedPackage_some hthat
      rw [hcontent package hmem other ((hsame other).mpr hother) hid.symm]
    | none => exact absurd rfl (fetchedPackage_eq_none_iff.mp hthat package ((hsame package).mp hmem))
  | none =>
    symm
    apply fetchedPackage_eq_none_iff.mpr
    intro package hmem
    exact fetchedPackage_eq_none_iff.mp hthis package ((hsame package).mpr hmem)

theorem arrivals_of_same (records : BTreeMap PackageRecord) :
    arrivals these records = arrivals those records := by
  have hfetched := fetchedPackage_of_same hsame hcontent
  have hmissing : markMissing these records = markMissing those records := by
    unfold markMissing
    rw [hfetched]
  apply Prod.ext
  · rw [arrivals, arrivals, foldl_arrive_fst_wrap _ _ (Nat.two_pow_pos 64),
      foldl_arrive_fst_wrap _ _ (Nat.two_pow_pos 64), hmissing, enteringInOrder_eq hcontent,
      enteringInOrder_eq (hcontent.of_same hsame), toFinset_of_same hsame]
  · apply ExtTreeMap.ext_getElem?
    intro id
    rw [arrivals_lookup, arrivals_lookup, hfetched]

theorem gone_of_same (records : BTreeMap PackageRecord) : gone these records = gone those records := by
  unfold gone leaving
  rw [fetchedPackage_of_same hsame hcontent]

theorem forfeited_of_same (records : BTreeMap PackageRecord) :
    forfeited these records = forfeited those records := by
  have hrow : forfeitedRow these = forfeitedRow those := by
    funext row
    unfold forfeitedRow
    rw [fetchedPackage_of_same hsame hcontent]
  unfold forfeited leaving
  rw [hrow, fetchedPackage_of_same hsame hcontent]

theorem foldl_migrated_of_same (records : BTreeMap PackageRecord) :
    these.foldl (fun records package =>
        records.insert package.id (PackageRecord.mk package (some .migration))) records =
      those.foldl (fun records package =>
        records.insert package.id (PackageRecord.mk package (some .migration))) records := by
  apply ExtTreeMap.ext_getElem?
  intro id
  rw [foldl_migrated_lookup, foldl_migrated_lookup, fetchedPackage_of_same hsame hcontent]

end Same

namespace Book

/-- Every sync takes over what the rows have left. -/
theorem remaining_sync (book : Book) (s : Sync) :
    (book.sync s).1.remaining = remainingOf s.packages := by
  cases hmigrated : book.migrated with
  | true => exact sync_remaining s hmigrated
  | false =>
    rw [sync, reconcile, if_neg (by simp [hmigrated]), migrate]
    exact (foldl_openMember_fields _ _).1

/-- Two fetches with the same rows are synced alike exactly when their repeated rows have as much
left, in 64 bits. -/
theorem reconcile_rows_iff (book : Book) (members : List Member) (assignments : Assignments)
    (now : Int) {these those : List Package}
    (hsame : ∀ package, package ∈ these ↔ package ∈ those) (hcontent : OneContent these) :
    book.reconcile these members assignments now = book.reconcile those members assignments now ↔
      ((repeated these).map Package.effectiveAvailable).sum ≡
        ((repeated those).map Package.effectiveAvailable).sum [MOD 2 ^ 64] := by
  have hremaining : remainingOf these = remainingOf those ↔
      ((repeated these).map Package.effectiveAvailable).sum ≡
        ((repeated those).map Package.effectiveAvailable).sum [MOD 2 ^ 64] := by
    rw [remainingOf_eq_wrap, remainingOf_eq_wrap, sum_rows, sum_rows _ those,
      toFinset_of_same hsame]
    exact ⟨Nat.ModEq.add_left_cancel' _, Nat.ModEq.add_left _⟩
  rw [← hremaining]
  constructor
  · intro heq
    have hthese := remaining_sync book ⟨these, members, assignments, now⟩
    have hthose := remaining_sync book ⟨those, members, assignments, now⟩
    rw [sync, heq] at hthese
    exact hthese.symm.trans hthose
  · intro heq
    have harrivals := arrivals_of_same hsame hcontent
    have hgone := gone_of_same hsame hcontent
    have hforfeited := forfeited_of_same hsame hcontent
    have hmigrated := foldl_migrated_of_same hsame hcontent
    unfold reconcile
    simp only [calibrate, migrate, heq, harrivals, hgone, hforfeited, hmigrated]

/-! ## A listing whose pages overlap -/

def listedRow : Package := ⟨"p", "", "", 100, 100, "Effective", ""⟩

def usedUpRow : Package := ⟨"u", "", "", 100, 0, "UsedUp", ""⟩

/-- A repeated row that has nothing left does no harm. -/
theorem reconcile_rows_iff_usedUp :
    ({} : Book).reconcile [listedRow, usedUpRow] [⟨"a", 0, none⟩] {} 0 =
      ({} : Book).reconcile [usedUpRow, listedRow, usedUpRow] [⟨"a", 0, none⟩] {} 0 :=
  (reconcile_rows_iff {} [⟨"a", 0, none⟩] {} 0
    (by
      intro package
      simp only [List.mem_cons, List.not_mem_nil, or_false]
      tauto)
    (by decide)).mpr (by decide)

/-- A package that two pages list counts twice, and the user opens with 200 of 100. -/
theorem reconcile_rows_repeated :
    ¬ ∀ (book : Book) (members : List Member) (assignments : Assignments) (now : Int)
      (these those : List Package), (∀ package, package ∈ these ↔ package ∈ those) →
      OneContent these → book.reconcile these members assignments now =
        book.reconcile those members assignments now := by
  intro hclaim
  have heq := hclaim {} [⟨"a", 0, none⟩] {} 0 [listedRow] [listedRow, listedRow] (by simp)
    (by decide)
  have honce : (({} : Book).reconcile [listedRow] [⟨"a", 0, none⟩] {} 0).1.balances.getD "a" 0 =
      100 := by decide +kernel
  have htwice : (({} : Book).reconcile [listedRow, listedRow] [⟨"a", 0, none⟩] {}
      0).1.balances.getD "a" 0 = 200 := by decide +kernel
  rw [heq, htwice] at honce
  exact absurd honce (by decide)

end Book

end PortsBox
