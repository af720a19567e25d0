import PortsBox.LedgerCalibration
import PortsBox.LedgerExclusive
import PortsBox.LedgerManual

/-!
# A sync that is repeated

After a sync every effect has switched off its own trigger: the book has what the
fetch has left, knows the members at their usage and the fetched rows as recorded,
owes no credit and has nothing to sweep. Such a book is settled, and another sync
with the same rows, members and assignments only resets its counters.
-/

set_option autoImplicit false

namespace PortsBox

open Word Accounts MapSum
open Std (ExtTreeMap)

namespace Book

/-- Another sync with the same input has nothing to do. -/
structure Settled (book : Book) (s : Sync) : Prop where
  migrated : book.migrated = true
  remaining : book.remaining = remainingOf s.packages
  joined : ∀ member ∈ s.members, member.name ∈ book.balances
  based : ∀ member ∈ s.members, book.baselines[member.name]? = some member.used
  recorded : ∀ package ∈ s.packages, ∃ credit, book.packages[package.id]? = some ⟨package, credit⟩
  kept : AllKept book.packages s.packages
  credited : ∀ (id : String) (record : PackageRecord), book.packages[id]? = some record →
    creditNow s.assignments (names s) id record = none
  swept : s.assignments.exclusive = true → ∀ member, s.members = [member] →
    book.unallocated = 0 ∧
      swrap 64 (book.balances.getD member.name 0) = book.balances.getD member.name 0

/-! ## What a settled book does -/

/-- Sweeping nothing into an open account. -/
theorem sweepTo_of_zero {book : Book} {member : Member} (hzero : book.unallocated = 0)
    (hmem : member.name ∈ book.balances)
    (hword : swrap 64 (book.balances.getD member.name 0) = book.balances.getD member.name 0)
    (now : Int) : book.sweepTo member now = (book, []) := by
  have hsame : adjust book.balances member.name 0 = book.balances := by
    rw [adjust, Int.add_zero, hword]
    apply insert_of_getElem?
    rw [ExtTreeMap.getD_eq_getD_getElem?, ExtTreeMap.getElem?_eq_some_getElem hmem]
    rfl
  simp only [sweepTo, hzero, hsame, lt_irrefl, if_false]

section Settled
variable {book : Book} {s : Sync} (h : book.Settled s)
include h

theorem Settled.join : book.join s.members = book := by
  have hloop : ∀ members : List Member, (∀ member ∈ members, member ∈ s.members) →
      book.join members = book := by
    intro members
    induction members with
    | nil => exact fun _ => rfl
    | cons member members ih =>
      intro hsub
      have hmem := hsub member List.mem_cons_self
      have hbase : member.name ∈ book.baselines := by
        rw [ExtTreeMap.mem_iff_isSome_getElem?, h.based member hmem]
        rfl
      have hone : book.joinMember member = book := by
        rw [joinMember, insertIfNew_of_mem hbase, insertIfNew_of_mem (h.joined member hmem)]
      change (book.joinMember member).join members = book
      rw [hone]
      exact ih fun other hother => hsub other (List.mem_cons_of_mem member hother)
  exact hloop s.members fun _ h => h

theorem Settled.arrivals : arrivals s.packages book.packages = (0, book.packages) := by
  have hloop : ∀ packages : List Package, (∀ package ∈ packages, package ∈ s.packages) →
      packages.foldl arrive (0, book.packages) = (0, book.packages) := by
    intro packages
    induction packages with
    | nil => exact fun _ => rfl
    | cons package packages ih =>
      intro hsub
      obtain ⟨credit, hrecord⟩ := h.recorded package (hsub package List.mem_cons_self)
      have hone : arrive (0, book.packages) package = (0, book.packages) := by
        have hsame : book.packages.insert package.id ⟨package, credit⟩ = book.packages :=
          insert_of_getElem? hrecord
        simp only [arrive, hrecord, hsame]
        cases package.effective <;> rfl
      rw [List.foldl_cons, hone]
      exact ih fun other hother => hsub other (List.mem_cons_of_mem package hother)
  rw [PortsBox.arrivals, h.kept.markMissing]
  exact hloop s.packages fun _ h => h

theorem Settled.creditPostings :
    creditPostings s.assignments (names s) book.packages.toList = [] := by
  unfold PortsBox.creditPostings
  apply List.flatMap_eq_nil_iff.mpr
  intro row hrow
  have hnone := h.credited row.1 row.2 (mem_toList.mp hrow)
  simp [payeesOf, hnone, gains]

theorem Settled.creditEntries :
    creditEntries s.assignments (names s) s.now book.packages.toList = [] := by
  unfold PortsBox.creditEntries
  apply List.flatMap_eq_nil_iff.mpr
  intro row hrow
  have hnone := h.credited row.1 row.2 (mem_toList.mp hrow)
  simp [payeesOf, hnone]

theorem Settled.creditRecords :
    creditRecords s.assignments (names s) book.packages = book.packages := by
  apply ExtTreeMap.ext_getElem?
  intro id
  rw [creditRecords_lookup]
  cases hrecord : book.packages[id]? with
  | none => rfl
  | some record =>
    have hnone := h.credited id record hrecord
    simp [PackageRecord.credited, hnone]

theorem Settled.consumedIn : book.consumedIn s = 0 := by
  rw [Book.consumedIn, h.arrivals, h.kept.gone, h.remaining, consumedOf, drop]
  simp [clamp]

theorem Settled.usageIn : ∀ used ∈ book.usageIn s, used = 0 := by
  intro used hused
  rw [Book.usageIn, h.join] at hused
  obtain ⟨member, hmem, rfl⟩ := List.mem_map.mp hused
  rw [ExtTreeMap.getD_eq_getD_getElem?, h.based member hmem]
  exact Nat.sub_self _

theorem Settled.metered : meteredOf (book.usageIn s) = 0 := by
  by_contra hpos
  have hsum := (meteredOf_pos (book.usageIn s)).mp (Nat.pos_of_ne_zero hpos)
  rw [List.sum_eq_zero h.usageIn] at hsum
  exact absurd hsum (lt_irrefl 0)

theorem Settled.rebase : rebase s.members book.baselines = book.baselines := by
  have hloop : ∀ members : List Member, (∀ member ∈ members, member ∈ s.members) →
      PortsBox.rebase members book.baselines = book.baselines := by
    intro members
    induction members with
    | nil => exact fun _ => rfl
    | cons member members ih =>
      intro hsub
      have hone := insert_of_getElem? (h.based member (hsub member List.mem_cons_self))
      change PortsBox.rebase members (book.baselines.insert member.name member.used) = _
      rw [hone]
      exact ih fun other hother => hsub other (List.mem_cons_of_mem member hother)
  exact hloop s.members fun _ h => h

theorem Settled.forfeited : forfeited s.packages book.packages = [] := by
  have hnil : leaving s.packages book.packages = [] := by
    rw [leaving, List.filter_eq_nil_iff]
    intro row hrow
    simp [h.kept.not_leaves (mem_toList.mp hrow)]
  rw [PortsBox.forfeited, hnil]
  rfl

theorem Settled.afterCharges : book.afterCharges s = book.balances := by
  have harrived : book.arrived s = book.packages := by rw [arrived, h.arrivals]
  rw [Book.afterCharges, afterCredits, h.join, harrived, h.creditPostings, h.consumedIn]
  simp [chargePostings, postWordAll]

/-- The sweep finds nothing, so only the counters and the time change. -/
theorem Settled.calibrateSync :
    book.calibrateSync s = ({ book with syncedAt := s.now, consumed := 0, metered := 0 }, []) := by
  have harrived : book.arrived s = book.packages := by rw [arrived, h.arrivals]
  apply Prod.ext
  · rw [calibrateSync_fst, afterForfeits, h.afterCharges, h.forfeited, h.join, h.rebase, harrived,
      h.creditRecords, h.consumedIn, h.metered, ← h.remaining]
    rfl
  · rw [calibrateSync_snd, harrived, h.creditEntries, h.forfeited]
    rfl

theorem Settled.sync :
    book.sync s = ({ book with syncedAt := s.now, consumed := 0, metered := 0 }, []) := by
  have hcalibrate := h.calibrateSync
  have hsweep : (book.calibrateSync s).1.sweepExclusive s.members s.assignments s.now =
      ((book.calibrateSync s).1, []) := by
    by_cases hsingle : s.assignments.exclusive = true ∧ ∃ member, s.members = [member]
    · obtain ⟨hexclusive, member, hmember⟩ := hsingle
      obtain ⟨hzero, hword⟩ := h.swept hexclusive member hmember
      have hmem := h.joined member (hmember ▸ List.mem_singleton.mpr rfl)
      rw [sweepExclusive_of_single _ s.now hexclusive hmember, hcalibrate]
      exact @sweepTo_of_zero { book with syncedAt := s.now, consumed := 0, metered := 0 } member
        hzero hmem hword s.now
    · exact sweepExclusive_of_not_single _ s.now hsingle
  apply Prod.ext
  · rw [sync_fst book s h.migrated, hsweep, hcalibrate]
  · rw [sync_snd book s h.migrated, hsweep, hcalibrate]
    rfl

end Settled

/-! ## A sync settles the book -/

theorem getElem?_rebase {members : List Member} (hnames : (members.map Member.name).Nodup)
    (baselines : BTreeMap Nat) {member : Member} (hmem : member ∈ members) :
    (rebase members baselines)[member.name]? = some member.used := by
  have hother : ∀ (members : List Member) (baselines : BTreeMap Nat) (name : String),
      name ∉ members.map Member.name → (rebase members baselines)[name]? = baselines[name]? := by
    intro members
    induction members with
    | nil => exact fun _ _ _ => rfl
    | cons head members ih =>
      intro baselines name hnot
      rw [List.map_cons, List.mem_cons, not_or] at hnot
      change (rebase members (baselines.insert head.name head.used))[name]? = _
      rw [ih _ name hnot.2, ExtTreeMap.getElem?_insert,
        if_neg fun heq => hnot.1 (Std.compare_eq_iff_eq.mp heq).symm]
  induction members generalizing baselines with
  | nil => exact absurd hmem List.not_mem_nil
  | cons head members ih =>
    obtain ⟨hhead, hrest⟩ := List.nodup_cons.mp hnames
    change (rebase members (baselines.insert head.name head.used))[member.name]? = _
    rcases List.mem_cons.mp hmem with rfl | htail
    · rw [hother members _ member.name hhead, ExtTreeMap.getElem?_insert_self]
    · exact ih hrest _ htail

theorem mem_join {book : Book} {members : List Member} {member : Member}
    (hmem : member ∈ members) : member.name ∈ (book.join members).balances := by
  induction members generalizing book with
  | nil => exact absurd hmem List.not_mem_nil
  | cons head members ih =>
    rcases List.mem_cons.mp hmem with rfl | htail
    · apply (book.joinMember member).join_induction members
        (P := fun b => member.name ∈ b.balances)
      · intro b other hb
        exact ExtTreeMap.mem_insertIfNew.mpr (Or.inr hb)
      · exact ExtTreeMap.mem_insertIfNew.mpr (Or.inl Std.ReflCmp.compare_self)
    · exact ih htail

theorem mem_expire {balances : BTreeMap Int} {name : String} (h : name ∈ balances)
    (leftovers : List Nat) : name ∈ expire balances leftovers := by
  unfold expire
  induction leftovers generalizing balances with
  | nil => exact h
  | cons leftover leftovers ih => exact ih (mem_postWordAll h _)

/-- A record that was credited, or could not be, is not credited again. -/
theorem creditNow_credited (assignments : Assignments) (names : List String) (id : String)
    (record : PackageRecord) :
    creditNow assignments names id (record.credited assignments names id) = none := by
  unfold PackageRecord.credited
  cases hnow : creditNow assignments names id record with
  | none => exact hnow
  | some credit => simp [creditNow]

/-- The subtraction of the closing sweep does not saturate. -/
def SweepFits (book : Book) : Prop :=
  book.unallocated = signed book.remaining - ssum 64 (book.balances.toList.map Prod.snd)

theorem swrap_signed (n : Nat) : swrap 64 (signed n) = signed n := by
  have hnonneg := signed_nonneg n
  have hlt := signed_lt n
  apply swrap_of_bounds (by decide) <;> omega

/-- A book whose balances add up to `remaining`, in words, has nothing unallocated. -/
theorem unallocated_of_swrap {book : Book}
    (h : swrap 64 (total book.balances) = signed book.remaining) : book.unallocated = 0 := by
  rw [unallocated_of_total, h, Int.sub_self]
  rfl

/-- Sweeping everything leaves nothing unallocated. -/
theorem unallocated_sweepTo {book : Book} (hfits : book.SweepFits) (member : Member) (now : Int) :
    (book.sweepTo member now).1.unallocated = 0 := by
  have hsum : ssum 64 (book.balances.toList.map Prod.snd) = swrap 64 (total book.balances) := by
    rw [ssum_eq_swrap]
    rfl
  have hinsert := sumBy_insert (fun _ (x : Int) => x) book.balances member.name
    (swrap 64 (book.balances.getD member.name 0 + book.unallocated))
  rw [summand_eq_getD] at hinsert
  rw [SweepFits, hsum] at hfits
  apply unallocated_of_swrap
  have htotal : total (book.sweepTo member now).1.balances =
      swrap 64 (book.balances.getD member.name 0 + book.unallocated) +
        (total book.balances - book.balances.getD member.name 0) := by
    change sumBy (fun _ (x : Int) => x) (book.balances.insert member.name _) = _
    rw [total]
    omega
  have hregroup : book.balances.getD member.name 0 + book.unallocated +
      (total book.balances - book.balances.getD member.name 0) =
        total book.balances + book.unallocated := by omega
  have hleft : swrap 64 (total book.balances) + book.unallocated = signed book.remaining := by
    omega
  rw [htotal, swrap_add_swrap_left, hregroup, ← swrap_add_swrap_left, hleft]
  exact swrap_signed book.remaining

section Sync
variable {book : Book} {s : Sync}

theorem settled_of_migrated (hmigrated : book.migrated = true) (hids : DistinctIds s.packages)
    (hnames : (s.members.map Member.name).Nodup)
    (hfits : s.assignments.exclusive = true → (book.calibrateSync s).1.SweepFits) : (book.sync s).1.Settled s where
  migrated := sync_migrated s hmigrated
  remaining := sync_remaining s hmigrated
  joined := by
    intro member hmem
    have hcalibrated : member.name ∈ (book.calibrateSync s).1.balances := by
      rw [calibrateSync_fst]
      exact mem_expire (mem_postWordAll (mem_postWordAll (mem_join hmem) _) _) _
    rw [sync_fst book s hmigrated]
    unfold sweepExclusive
    split
    · exact ExtTreeMap.mem_insert.mpr (Or.inr hcalibrated)
    · exact hcalibrated
  based := by
    intro member hmem
    rw [sync_baselines s hmigrated]
    exact getElem?_rebase hnames _ hmem
  recorded := by
    intro package hmem
    rw [sync_packages_lookup hmigrated, arrived, arrivals_lookup, fetchedPackage_of_mem hids hmem,
      Option.map_some]
    have hpackage := PackageRecord.credited_package s.assignments (names s) package.id
      ⟨package, book.packages[package.id]?.bind PackageRecord.credit⟩
    rcases hcredited : PackageRecord.credited s.assignments (names s) package.id
      ⟨package, book.packages[package.id]?.bind PackageRecord.credit⟩ with ⟨recorded, credit⟩
    rw [hcredited] at hpackage
    dsimp only at hpackage
    exact ⟨credit, by rw [hpackage]⟩
  kept := by
    intro id record hrecord heff
    rw [sync_packages_lookup hmigrated, arrived, arrivals_lookup] at hrecord
    cases hfetched : fetchedPackage s.packages id with
    | some package =>
      rw [hfetched] at hrecord
      obtain ⟨old, hold, rfl⟩ := Option.map_eq_some_iff.mp hrecord
      obtain rfl := Option.some.inj hold
      rw [PackageRecord.credited_package] at heff
      exact ⟨package, rfl, heff⟩
    | none =>
      rw [hfetched] at hrecord
      obtain ⟨old, hold, rfl⟩ := Option.map_eq_some_iff.mp hrecord
      obtain ⟨missing, -, rfl⟩ := Option.map_eq_some_iff.mp hold
      rw [PackageRecord.credited_package, missing.markMissing_none_effective] at heff
      cases heff
  credited := by
    intro id record hrecord
    rw [sync_packages_lookup hmigrated] at hrecord
    obtain ⟨old, -, rfl⟩ := Option.map_eq_some_iff.mp hrecord
    exact creditNow_credited s.assignments (names s) id old
  swept := by
    intro hexclusive member hmember
    rw [sync_fst book s hmigrated, sweepExclusive_of_single _ s.now hexclusive hmember]
    refine ⟨unallocated_sweepTo (hfits hexclusive) member s.now, ?_⟩
    change swrap 64 ((adjust _ member.name _).getD member.name 0) = (adjust _ member.name _).getD _ 0
    rw [adjust, ExtTreeMap.getD_insert_self]
    exact Int.bmod_bmod ..

/-! ### The first sync -/

/-- The book as the migration finds it. -/
def reset (book : Book) (s : Sync) : Book :=
  { book with remaining := remainingOf s.packages, syncedAt := s.now, consumed := 0, metered := 0 }

/-- The members with their opening balances. -/
def openings (book : Book) (s : Sync) : List (Member × Nat) :=
  s.members.zip ((book.reset s).migrationShares s.members)

theorem sync_migration (hmigrated : book.migrated = false) :
    book.sync s =
      ({ (book.openings s).foldl openMember (book.reset s) with
          packages := s.packages.foldl
            (fun records package => records.insert package.id ⟨package, some .migration⟩)
            ((book.openings s).foldl openMember (book.reset s)).packages
          migrated := true },
        (book.openings s).map (migrationEntry s.now)) := by
  rw [sync, reconcile, if_neg (by simp [hmigrated])]
  rfl

theorem migrationShares_length (book : Book) (members : List Member) :
    (book.migrationShares members).length = members.length := by
  unfold migrationShares
  dsimp only
  split
  · simp
  · simp

theorem openings_members (book : Book) (s : Sync) : (book.openings s).map Prod.fst = s.members :=
  List.map_fst_zip (migrationShares_length (book.reset s) s.members).ge

theorem foldl_openMember_baselines (openings : List (Member × Nat)) (book : Book) :
    (openings.foldl openMember book).baselines =
      rebase (openings.map Prod.fst) book.baselines := by
  induction openings generalizing book with
  | nil => rfl
  | cons opening openings ih => exact ih (book.openMember opening)

theorem mem_foldl_openMember {openings : List (Member × Nat)} {member : Member} {book : Book}
    (h : member ∈ openings.map Prod.fst ∨ member.name ∈ book.balances) :
    member.name ∈ (openings.foldl openMember book).balances := by
  induction openings generalizing book with
  | nil => simpa using h
  | cons opening openings ih =>
    apply ih
    rcases h with hopening | hbook
    · rcases List.mem_cons.mp hopening with rfl | hrest
      · exact .inr (ExtTreeMap.mem_insert.mpr (Or.inl Std.ReflCmp.compare_self))
      · exact .inl hrest
    · exact .inr (ExtTreeMap.mem_insert.mpr (Or.inr hbook))

/-- The first sync settles the book as well. -/
theorem settled_of_migration (hmigrated : book.migrated = false) (hfresh : book.Fresh)
    (hids : DistinctIds s.packages) (hnames : (s.members.map Member.name).Nodup) :
    (book.sync s).1.Settled s := by
  obtain ⟨hbalances, -, hpackages⟩ := hfresh hmigrated
  have hsync := sync_migration (s := s) hmigrated
  have hfields := foldl_openMember_fields (book.openings s) (book.reset s)
  have hlookup : ∀ id, (book.sync s).1.packages[id]? =
      (fetchedPackage s.packages id).map fun package => ⟨package, some .migration⟩ := by
    intro id
    rw [hsync]
    dsimp only
    rw [hfields.2, foldl_migrated_lookup, reset, hpackages]
    cases fetchedPackage s.packages id <;> rfl
  refine ⟨?_, ?_, ?_, ?_, ?_, ?_, ?_, ?_⟩
  · rw [hsync]
  · rw [hsync]
    exact hfields.1
  · intro member hmem
    rw [hsync]
    apply mem_foldl_openMember
    rw [openings_members]
    exact .inl hmem
  · intro member hmem
    rw [hsync]
    dsimp only
    rw [foldl_openMember_baselines, openings_members]
    exact getElem?_rebase hnames _ hmem
  · intro package hmem
    exact ⟨_, by rw [hlookup, fetchedPackage_of_mem hids hmem]; rfl⟩
  · intro id record hrecord heff
    rw [hlookup] at hrecord
    obtain ⟨package, hfetched, rfl⟩ := Option.map_eq_some_iff.mp hrecord
    exact ⟨package, hfetched, heff⟩
  · intro id record hrecord
    rw [hlookup] at hrecord
    obtain ⟨package, hfetched, rfl⟩ := Option.map_eq_some_iff.mp hrecord
    simp [creditNow]
  · intro _ member hmember
    have hlt : remainingOf s.packages < 2 ^ 64 := by
      rw [remainingOf_eq_wrap]
      exact wrap_lt 64 _
    obtain ⟨hafter, -, hremaining⟩ := sync_migration_single hmigrated hlt hmember
    rw [hbalances] at hafter
    have htotal : total (book.sync s).1.balances = signed (book.sync s).1.remaining := by
      have hinsert := sumBy_insert (fun _ (x : Int) => x) (∅ : BTreeMap Int) member.name
        (signed (remainingOf s.packages))
      rw [summand_eq_getD, sumBy_empty] at hinsert
      rw [hafter, hremaining, total]
      simpa using hinsert
    constructor
    · apply unallocated_of_swrap
      rw [htotal, swrap_signed]
    · rw [hafter, ExtTreeMap.getD_insert_self, swrap_signed]

end Sync

/-- Syncing is idempotent: in every book a run leaves, a second sync with the same packages,
members and assignments, at whatever time, writes nothing and changes only its own time and
counters. -/
theorem sync_again (run : List LedgerCall) (s : Sync) (later : Int)
    (hids : DistinctIds s.packages) (hnames : (s.members.map Member.name).Nodup)
    (hfits : s.assignments.exclusive = true →
      ((({} : Book).calls run).calibrateSync s).1.SweepFits) :
    let book := (({} : Book).calls run).sync s
    book.1.sync { s with now := later } =
      ({ book.1 with syncedAt := later, consumed := 0, metered := 0 }, []) := by
  intro book
  have hsettled : book.1.Settled s := by
    cases hmigrated : (({} : Book).calls run).migrated with
    | true => exact settled_of_migrated hmigrated hids hnames hfits
    | false => exact settled_of_migration hmigrated (calls_fresh run) hids hnames
  have hlater : book.1.Settled { s with now := later } :=
    ⟨hsettled.migrated, hsettled.remaining, hsettled.joined, hsettled.based, hsettled.recorded,
      hsettled.kept, hsettled.credited, hsettled.swept⟩
  exact hlater.sync

instance (book : Book) : Decidable book.SweepFits := inferInstanceAs (Decidable (_ = _))

/-- One member, with a new package to credit, a lost one to forfeit and the rest to sweep. -/
def busySync : Sync where
  packages := [⟨"n", "", "", 50, 40, "Effective", ""⟩]
  members := [⟨"a", 25, none⟩]
  assignments := { exclusive := true }
  now := 1

def busyRun : List LedgerCall :=
  [.reconcile ⟨[⟨"p", "", "", 100, 100, "Effective", ""⟩], [⟨"a", 0, none⟩], {}, 0⟩]

theorem sync_again_busy :
    let book := (({} : Book).calls busyRun).sync busySync
    book.2 ≠ [] ∧ (book.1.sync { busySync with now := 9 }).2 = [] := by
  constructor
  · decide +kernel
  · rw [sync_again busyRun busySync 9 (by decide) (by decide) (fun _ => by decide +kernel)]

end Book

end PortsBox
