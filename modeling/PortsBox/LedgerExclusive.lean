import PortsBox.LedgerCalls
import PortsBox.LedgerConservation

/-!
# The single user's balance

With exclusive assignments and one member every posting before the forfeits goes
to that member, and the sweep settles the difference between `remaining` and the
sum of all balances into it. The member's balance is therefore `remaining` less
what the other users still hold.
-/

set_option autoImplicit false

namespace PortsBox

open Word Accounts MapSum
open Std (ExtTreeMap)

/-! ## What expiry takes from the others -/

/-- What leftovers that expire one after the other take from all users but one. -/
def takenFromOthers (name : String) (balances : BTreeMap Int) : List Nat → Nat
  | [] => 0
  | leftover :: leftovers =>
    (((losses leftover balances).filter fun loss => loss.1 ≠ name).map Prod.snd).sum +
      takenFromOthers name (expireOne balances leftover) leftovers

theorem sum_filter_others (rows : List (String × Nat)) (name : String)
    (h : (rows.map Prod.snd).sum < 2 ^ 63) :
    amount (debits rows) - amountFor name (debits rows) =
      -(((rows.filter fun row => row.1 ≠ name).map Prod.snd).sum : Nat) := by
  induction rows with
  | nil => rfl
  | cons row rows ih =>
    simp only [List.map_cons, List.sum_cons] at h
    have htail := ih (by omega)
    have hhead : signed row.2 = row.2 := signed_of_lt (by omega)
    have hdebits : debits (row :: rows) = (row.1, -signed row.2) :: debits rows := rfl
    rw [hdebits, amount_cons, amountFor_cons, hhead]
    by_cases hname : row.1 = name
    · rw [List.filter_cons_of_neg (by simpa using hname), if_pos hname]
      omega
    · rw [List.filter_cons_of_pos (by simpa using hname), if_neg hname, List.map_cons,
        List.sum_cons, Nat.cast_add]
      omega

theorem others_expireOne {balances : BTreeMap Int} {leftover : Nat} (name : String)
    (h : norm balances + leftover < 2 ^ 63) :
    others (expireOne balances leftover) name = others balances name -
      (((losses leftover balances).filter fun loss => loss.1 ≠ name).map Prod.snd).sum := by
  have hlt := nonzero_losses_lt balances (show leftover < 2 ^ 63 by omega)
  have hzero : ((((losses leftover balances).filter fun loss => loss.2 ≠ 0).filter
      fun loss => loss.1 ≠ name).map Prod.snd).sum =
        (((losses leftover balances).filter fun loss => loss.1 ≠ name).map Prod.snd).sum := by
    rw [List.filter_comm, sum_filter_ne_zero]
  have hothers := sum_filter_others _ name hlt
  rw [hzero] at hothers
  rw [(expireOne_of_norm h).2, others_postAll, lossPostings, hothers]
  omega

theorem others_expire (balances : BTreeMap Int) (leftovers : List Nat) (name : String)
    (h : norm balances + leftovers.sum < 2 ^ 63) :
    others (expire balances leftovers) name =
      others balances name - takenFromOthers name balances leftovers := by
  induction leftovers generalizing balances with
  | nil => exact (Int.sub_zero _).symm
  | cons leftover leftovers ih =>
    rw [List.sum_cons] at h
    have hone : norm balances + leftover < 2 ^ 63 := by omega
    have hnorm := (total_expireOne hone).2
    have hrest := ih (expireOne balances leftover) (by omega)
    change others (expire (expireOne balances leftover) leftovers) name = _
    rw [hrest, others_expireOne name hone, takenFromOthers]
    push_cast
    omega

namespace Book

variable {book : Book} {s : Sync} {member : Member}

/-! ## The stages with one exclusive member -/

theorem payeesOf_single {assignments : Assignments} {name : String}
    {row : String × PackageRecord} {payee : String × Nat}
    (h : payee ∈ payeesOf assignments [name] row) : payee.1 = name :=
  List.mem_singleton.mp (payeesOf_mem h)

theorem creditPostings_single {assignments : Assignments} {name : String}
    {rows : List (String × PackageRecord)} :
    ∀ p ∈ creditPostings assignments [name] rows, p.1 = name := by
  intro p hp
  obtain ⟨row, _, hrow⟩ := List.mem_flatMap.mp hp
  obtain ⟨payee, hpayee, rfl⟩ := List.mem_map.mp hrow
  exact payeesOf_single hpayee

theorem chargePostings_single {consumed : Nat} {usage : List Nat} :
    ∀ p ∈ chargePostings [member] consumed usage, p.1 = member.name := by
  intro p hp
  unfold chargePostings at hp
  split at hp
  · obtain ⟨charge, hcharge, rfl⟩ := List.mem_map.mp hp
    exact List.mem_singleton.mp (List.of_mem_zip hcharge).1
  · simp at hp

theorem others_join (name : String) (members : List Member) :
    others (book.join members).balances name = others book.balances name := by
  have hbefore := others_add_getD book.balances name
  have hafter := others_add_getD (book.join members).balances name
  rw [total_join_balances, getD_join_balances] at hafter
  omega

/-- Credits and charges leave the other users alone. -/
theorem others_afterCharges (hids : DistinctIds s.packages) (hrange : book.InRange s.packages)
    (hmember : s.members = [member]) :
    others (book.afterCharges s) member.name = others book.balances member.name := by
  obtain ⟨hcredits, hcharges, _⟩ := stages_exact hids hrange
  have hnames : names s = [member.name] := by simp [names, hmember]
  rw [hcharges, others_postAll, hcredits, others_postAll, others_join, hmember, hnames,
    amountFor_eq_amount creditPostings_single, amountFor_eq_amount chargePostings_single]
  omega

/-- The totals of the fetched Effective packages that no credit is recorded for. -/
def uncredited (book : Book) (packages : List Package) : Nat :=
  ((packages.filter fun package =>
    package.effective && (book.packages[package.id]?.bind PackageRecord.credit).isNone).map
      Package.total).sum

/-- How much of what the book had left and of what enters is neither gone nor left now. -/
def spent (book : Book) (packages : List Package) : Nat :=
  (drop book.remaining (enteringTotal book.packages packages) (gone packages book.packages)
    (packages.map Package.effectiveAvailable).sum).toNat

/-- The balances a sync with one exclusive member forfeits from: those of the book, with all that
is uncredited for the member, and if it metered traffic, less all that was spent. -/
def dueBalances (book : Book) (packages : List Package) (member : Member) : BTreeMap Int :=
  book.balances.insert member.name (book.balances.getD member.name 0 + book.uncredited packages -
    if book.metersTraffic [member] then book.spent packages else 0)

theorem creditedFor_single (hexclusive : s.assignments.exclusive = true)
    (hmember : s.members = [member]) (id : String) (record : PackageRecord) :
    creditedFor s.assignments (names s) id record =
      if record.package.effective && record.credit.isNone then record.package.total else 0 := by
  have hdue : (creditDue s.assignments (names s) id record).isSome =
      (record.package.effective && record.credit.isNone) := by
    have hnames : names s = [member.name] := by simp [names, hmember]
    unfold creditDue creditNow
    rw [hnames, hexclusive]
    cases record.credit with
    | some credit => simp
    | none =>
      cases record.package.effective with
      | false => simp
      | true => cases s.assignments.owners[id]?.filter [member.name].contains <;> simp
  rw [creditedFor, hdue]

theorem creditedNow_single (hids : DistinctIds s.packages)
    (hexclusive : s.assignments.exclusive = true) (hmember : s.members = [member]) :
    creditedNow s.assignments (names s) (book.arrived s).toList = book.uncredited s.packages := by
  rw [creditedNow_eq_sum hids, uncredited]
  induction s.packages with
  | nil => rfl
  | cons package packages ih =>
    rw [List.map_cons, List.sum_cons, ih, creditedFor_single hexclusive hmember, List.filter_cons]
    split
    · rfl
    · exact Nat.zero_add _

theorem consumedIn_eq_spent (hids : DistinctIds s.packages) (hrange : book.InRange s.packages) :
    book.consumedIn s = book.spent s.packages := by
  unfold InRange at hrange
  have hadded := arrivals_fst book.packages hids (by omega)
  have hle := book.consumedIn_le hids (by omega)
  have hremaining := remainingOf_of_lt
    (show (s.packages.map Package.available).sum < 2 ^ 64 by omega)
  rw [consumedIn, hadded, hremaining] at hle ⊢
  rw [consumedOf, spent]
  unfold consumedOf clamp at *
  omega

/-- Credits and charges go to the member. -/
theorem afterCharges_single (hids : DistinctIds s.packages) (hrange : book.InRange s.packages)
    (hexclusive : s.assignments.exclusive = true) (hmember : s.members = [member]) :
    book.afterCharges s = book.dueBalances s.packages member := by
  obtain ⟨hcredits, hcharges, _⟩ := stages_exact hids hrange
  have hnames : names s = [member.name] := by simp [names, hmember]
  have hcredited : creditedNow s.assignments (names s) (book.arrived s).toList =
      book.uncredited s.packages :=
    creditedNow_single hids hexclusive hmember
  have hcreditedLe := book.creditedNow_le hids
  have hconsumed := consumedIn_eq_spent hids hrange
  have hconsumedLe := book.consumedIn_le hids
  have hmetered := @chargedOf_eq book s (by simp [hmember])
  unfold InRange at hrange
  have hcreditAmount := (creditPostings_amounts s.assignments (names s) (book.arrived s).toList
    (by omega)).1
  have hchargeAmount := (chargePostings_amounts s.members (book.consumedIn s) (book.usageIn s)
    (by simp [usageIn, usageOf]) (by have := hconsumedLe (by omega); omega)).1
  rw [hnames] at hcreditAmount hcredited hcredits
  rw [hmember] at hchargeAmount hmetered hcharges hcredits
  have hjoined : (book.join [member]).balances = book.balances.insertIfNew member.name 0 := rfl
  have hopen : member.name ∈ (book.join [member]).balances := by
    rw [hjoined, ExtTreeMap.mem_insertIfNew]
    exact Or.inl Std.ReflCmp.compare_self
  have hbalance : (book.join [member]).balances.getD member.name 0 =
      book.balances.getD member.name 0 := book.getD_join_balances [member] member.name
  rw [postAll_of_single creditPostings_single hopen, hcreditAmount, hcredited, hbalance] at hcredits
  have hpaid : member.name ∈ book.afterCredits s := by
    rw [hcredits]
    exact ExtTreeMap.mem_insert_self
  have hheld : (book.afterCredits s).getD member.name 0 =
      book.balances.getD member.name 0 + book.uncredited s.packages := by
    rw [hcredits, ExtTreeMap.getD_insert_self]
  rw [hcharges, postAll_of_single chargePostings_single hpaid, hchargeAmount, hmetered, hconsumed,
    hheld, hcredits, hjoined, dueBalances]
  apply ExtTreeMap.ext_getElem?
  intro name
  simp only [ExtTreeMap.getElem?_insert, ExtTreeMap.getElem?_insertIfNew, Std.compare_eq_iff_eq]
  split
  · rfl
  · rename_i hne
    rw [if_neg (fun h => hne h.1)]

/-- The member ends with `remaining` less what the others still hold. -/
theorem getD_sync_single (hmigrated : book.migrated = true) (hids : DistinctIds s.packages)
    (hrange : book.InRange s.packages) (hexclusive : s.assignments.exclusive = true)
    (hmember : s.members = [member]) :
    (book.sync s).1.balances.getD member.name 0 =
      (book.sync s).1.remaining - (others book.balances member.name -
        takenFromOthers member.name (book.dueBalances s.packages member)
          ((forfeited s.packages book.packages).map Prod.snd)) := by
  have hin := calibrate_inRange hids hrange
  have hroom := (stages_exact hids hrange).2.2
  have hbalances : (book.calibrateSync s).1.balances = book.afterForfeits s := by
    rw [calibrateSync_fst]
  have hremaining : (book.calibrateSync s).1.remaining = remainingOf s.packages := by
    rw [calibrateSync_fst]
  have hothers := others_add_getD (book.afterForfeits s) member.name
  have hdue := afterCharges_single hids hrange hexclusive hmember
  have hexpire : others (book.afterForfeits s) member.name = others book.balances member.name -
      takenFromOthers member.name (book.dueBalances s.packages member)
        ((forfeited s.packages book.packages).map Prod.snd) := by
    unfold InRange at hrange
    rw [afterForfeits, others_expire _ _ _ (by omega), others_afterCharges hids hrange hmember,
      hdue]
  rw [sync_remaining s hmigrated, book.sync_fst s hmigrated,
    sweepExclusive_of_single _ s.now hexclusive hmember]
  change (adjust _ _ _).getD _ 0 = _
  rw [adjust_unallocated _ hin, getD_post, if_pos rfl, hbalances, hremaining]
  omega

/-! ## Migration with one member -/

/-- Before its migration a book holds nothing. -/
def Fresh (book : Book) : Prop :=
  book.migrated = false → book.balances = ∅ ∧ book.baselines = ∅ ∧ book.packages = ∅

theorem fresh_of_migrated (h : book.migrated = true) : book.Fresh := by
  intro hnot
  simp [h] at hnot

theorem call_fresh (h : book.Fresh) (c : LedgerCall) : (book.call c).Fresh := by
  cases c with
  | reconcile s => exact fresh_of_migrated (sync_migrated_true book s)
  | transfer members sender receiver amount now =>
    have hjoined := book.join_migrated members
    rcases book.transfer_cases members sender receiver amount now with
      ⟨e, -, hcall⟩ | ⟨source, hcheck, ⟨e, -, hcall⟩ | ⟨-, hcall⟩⟩
    · simpa only [call, hcall] using h
    · simp only [call, hcall]
      exact fresh_of_migrated (hjoined.trans (checkTransfer_ok_iff.mp hcheck).1)
    · simp only [call, hcall]
      exact fresh_of_migrated (hjoined.trans (checkTransfer_ok_iff.mp hcheck).1)
  | allocate members receiver amount now =>
    rcases book.allocate_cases members receiver amount now with
      ⟨e, -, hcall⟩ | ⟨names, total, hcheck, hcall⟩
    · simpa only [call, hcall] using h
    · simp only [call, hcall]
      have hjoined := book.join_migrated members
      exact fresh_of_migrated (hjoined.trans (checkAllocate_ok_iff.mp hcheck).1)

theorem calls_fresh (run : List LedgerCall) : (({} : Book).calls run).Fresh := by
  have hgo : ∀ (run : List LedgerCall) (book : Book), book.Fresh → (book.calls run).Fresh := by
    intro run
    induction run with
    | nil => exact fun _ h => h
    | cons c run ih => exact fun book h => ih (book.call c) (call_fresh h c)
  exact hgo run {} fun _ => ⟨rfl, rfl, rfl⟩

theorem eq_singleton_of_sum {shares : List Nat} {amount : Nat} (hlen : shares.length = 1)
    (hsum : shares.sum = amount) : shares = [amount] := by
  obtain ⟨share, rfl⟩ := List.length_eq_one_iff.mp hlen
  rw [← hsum, List.sum_singleton]

/-- A single member opens with everything. -/
theorem migrationShares_single (h : book.remaining < 2 ^ 64) (member : Member) :
    book.migrationShares [member] = [book.remaining] := by
  unfold migrationShares
  dsimp only
  split
  · rename_i hany
    have hpos : 0 < ([member].map fun m => m.offlineRemaining.getD 0).sum := by
      simpa using hany
    exact eq_singleton_of_sum (splitBy_length book.remaining _) (splitBy_sum h hpos)
  · exact eq_singleton_of_sum (splitEvenly_length book.remaining 1)
      (splitEvenly_sum h Nat.one_pos)

theorem sync_migration_single (hmigrated : book.migrated = false)
    (h : remainingOf s.packages < 2 ^ 64) (hmember : s.members = [member]) :
    (book.sync s).1.balances =
        book.balances.insert member.name (signed (remainingOf s.packages)) ∧
      (book.sync s).1.baselines = book.baselines.insert member.name member.used ∧
      (book.sync s).1.remaining = remainingOf s.packages := by
  have hshares : migrationShares { book with
      remaining := remainingOf s.packages, syncedAt := s.now, consumed := 0, metered := 0 }
        [member] = [remainingOf s.packages] := migrationShares_single h member
  rw [sync, reconcile, if_neg (by simp [hmigrated]), migrate, hmember, hshares]
  exact ⟨rfl, rfl, rfl⟩

/-! ## The limit -/

/-- The member's balance is the provider's remaining traffic, and its limit goes that far. -/
def TracksProvider (book : Book) (member : Member) : Prop :=
  book.balances.getD member.name 0 = book.remaining ∧
    book.limit member.name = some (member.used + book.remaining)

theorem sync_baseline_single (book : Book) (hmember : s.members = [member])
    (h : remainingOf s.packages < 2 ^ 64) :
    (book.sync s).1.baselines[member.name]? = some member.used := by
  cases hmigrated : book.migrated with
  | true => simp [sync_baselines s hmigrated, hmember, rebase]
  | false => simp [(sync_migration_single hmigrated h hmember).2.1]

theorem limit_of_balance (hbaseline : book.baselines[member.name]? = some member.used)
    (hbalance : book.balances.getD member.name 0 = book.remaining)
    (h : member.used + book.remaining < 2 ^ 64) :
    book.limit member.name = some (member.used + book.remaining) := by
  rw [limit, hbaseline, hbalance, Option.map_some]
  congr 1
  rw [clamp_of_lt] <;> omega

/-- After a sync with one exclusive member, the balance is the provider's remaining traffic
exactly when what the book has for the other users adds up to what the expiring leftovers take
from them; where nothing expires, when it adds up to nothing. -/
theorem single_user_tracks_provider_iff (run : List LedgerCall) {s : Sync} {member : Member}
    (hids : DistinctIds s.packages) (hrange : (({} : Book).calls run).InRange s.packages)
    (hused : member.used + (s.packages.map Package.available).sum < 2 ^ 64)
    (hexclusive : s.assignments.exclusive = true) (hmember : s.members = [member]) :
    let book := ({} : Book).calls run
    let leftovers := (forfeited s.packages book.packages).map Prod.snd
    ((book.sync s).1.TracksProvider member ↔ others book.balances member.name =
      takenFromOthers member.name (book.dueBalances s.packages member) leftovers) ∧
    (leftovers = [] →
      ((book.sync s).1.TracksProvider member ↔ others book.balances member.name = 0)) := by
  intro book leftovers
  have hfresh : book.Fresh := calls_fresh run
  have hremaining := remainingOf_le s.packages (by omega)
  have hbaseline := book.sync_baseline_single hmember (by omega)
  have hiff : (book.sync s).1.TracksProvider member ↔ others book.balances member.name =
      takenFromOthers member.name (book.dueBalances s.packages member) leftovers := by
    cases hmigrated : book.migrated with
    | true =>
      have hbalance := getD_sync_single hmigrated hids hrange hexclusive hmember
      have hsynced := sync_remaining s hmigrated
      change _ = _ - (_ - (takenFromOthers _ _ leftovers : Int)) at hbalance
      constructor
      · rintro ⟨htracks, _⟩
        omega
      · intro hothers
        have htracks : (book.sync s).1.balances.getD member.name 0 =
            (book.sync s).1.remaining := by
          omega
        exact ⟨htracks, limit_of_balance hbaseline htracks (by omega)⟩
    | false =>
      obtain ⟨hbalances, _, hpackages⟩ := hfresh hmigrated
      obtain ⟨hafter, _, hsynced⟩ := sync_migration_single hmigrated (by omega) hmember
      have hnone : leftovers = [] := by
        simp [leftovers, hpackages, forfeited, leaving]
      have hempty : others book.balances member.name =
          takenFromOthers member.name (book.dueBalances s.packages member) leftovers := by
        rw [hnone, hbalances]
        simp [others, takenFromOthers]
      have htracks : (book.sync s).1.balances.getD member.name 0 = (book.sync s).1.remaining := by
        unfold InRange at hrange
        rw [hafter, hsynced, ExtTreeMap.getD_insert_self, signed_of_lt (by omega)]
      exact iff_of_true ⟨htracks, limit_of_balance hbaseline htracks (by omega)⟩ hempty
  refine ⟨hiff, ?_⟩
  intro hnone
  rw [hiff, hnone]
  rfl

/-! ## A user who was removed -/

def twoPackages : List Package :=
  [⟨"e", "", "", 200, 200, "Effective", ""⟩, ⟨"u", "", "", 200, 200, "Effective", ""⟩]

/-- The migration of two users with 300 and 100 left. -/
def migrateTwo : LedgerCall :=
  .reconcile ⟨twoPackages, [⟨"a", 0, some 300⟩, ⟨"b", 0, some 100⟩], {}, 0⟩

def userA : Member := ⟨"a", 0, some 300⟩

/-- Before it goes, the second user gives its 100 away. -/
def giveAway : LedgerCall := .transfer [userA, ⟨"b", 0, some 100⟩] "b" "a" 100 1

/-- A sync with one user, who owns everything. -/
def syncOne : Sync := ⟨twoPackages, [userA], { exclusive := true }, 2⟩

theorem single_user_tracks_provider_iff_giveAway :
    ((({} : Book).calls [migrateTwo, giveAway]).sync syncOne).1.TracksProvider userA :=
  (single_user_tracks_provider_iff [migrateTwo, giveAway] (by decide) (by decide +kernel)
    (by decide) rfl rfl).1.mpr (by decide +kernel)

/-- The removed user's 100 stay in the book, and the only user gets 300 of 400. -/
theorem not_tracksProvider_after_removal :
    ¬ ∀ (run : List LedgerCall) (s : Sync) (member : Member), DistinctIds s.packages →
      (({} : Book).calls run).InRange s.packages →
      member.used + (s.packages.map Package.available).sum < 2 ^ 64 →
      s.assignments.exclusive = true → s.members = [member] →
      ((({} : Book).calls run).sync s).1.TracksProvider member := by
  intro hclaim
  have htracks := hclaim [migrateTwo] syncOne userA (by decide) (by decide +kernel) (by decide)
    rfl rfl
  have hbalance : ((({} : Book).calls [migrateTwo]).sync syncOne).1.balances.getD "a" 0 = 300 := by
    decide +kernel
  have hremaining : ((({} : Book).calls [migrateTwo]).sync syncOne).1.remaining = 400 := by
    decide +kernel
  rw [TracksProvider, hremaining] at htracks
  have hwrong := hbalance.symm.trans htracks.1
  simp at hwrong

end Book

end PortsBox
