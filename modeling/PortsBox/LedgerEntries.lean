import PortsBox.LedgerForfeits
import PortsBox.LedgerResync

/-!
# The ledger explains the balances

Every call posts to the balances what its entries say, and a sync two things more: each
member's share of what was consumed, and a sweep that takes instead of giving. A balance
is therefore the sum of its user's entries over the whole run, less those two.
-/

set_option autoImplicit false

namespace PortsBox

open Word Accounts MapSum
open Std (ExtTreeMap)

/-! ## What a sync posts -/

/-- The postings of all forfeits, each for the balances as they are at that point. -/
def expiryPostings : BTreeMap Int → List Nat → List (String × Int)
  | _, [] => []
  | balances, leftover :: leftovers =>
    lossPostings leftover balances ++ expiryPostings (expireOne balances leftover) leftovers

theorem expire_eq (balances : BTreeMap Int) (leftovers : List Nat) :
    expire balances leftovers = postWordAll 64 balances (expiryPostings balances leftovers) := by
  induction leftovers generalizing balances with
  | nil => rfl
  | cons leftover leftovers ih =>
    change expire (expireOne balances leftover) leftovers = _
    rw [ih, expiryPostings, postWordAll_append]
    rfl

theorem posted_append (these those : List Entry) :
    Book.posted (these ++ those) = Book.posted these ++ Book.posted those := List.map_append

theorem posted_expiries (now : Int) (balances : BTreeMap Int) (rows : List (String × Nat)) :
    Book.posted (expiries now balances rows) =
      expiryPostings balances (rows.map Prod.snd) := by
  induction rows generalizing balances with
  | nil => rfl
  | cons row rows ih =>
    rw [expiries, posted_append, ih, List.map_cons, expiryPostings, lossPostings, debits]
    congr 1
    rw [Book.posted, List.map_map]
    rfl

theorem posted_creditEntries (assignments : Assignments) (names : List String) (now : Int)
    (rows : List (String × PackageRecord)) :
    Book.posted (creditEntries assignments names now rows) =
      creditPostings assignments names rows := by
  rw [Book.posted, creditEntries, creditPostings, List.map_flatMap]
  congr 1
  funext row
  rw [gains, List.map_map]
  rfl

namespace Book

section Sync
variable (book : Book) (s : Sync)

/-- What a sync charges, member by member. -/
def charges : List (String × Nat) :=
  if 0 < book.consumedIn s && 0 < meteredOf (book.usageIn s) then
    (names s).zip (splitBy (book.consumedIn s) (book.usageIn s))
  else []

/-- A user's share of what a sync counts as consumed. -/
def chargeOf (user : String) : Int := amountFor user (gains (book.charges s))

/-- What the closing sweep takes from a user, when it takes. -/
def sweptFrom (user : String) : Int :=
  match s.members with
  | [member] => if member.name = user then max (-book.sweepOf s) 0 else 0
  | _ => 0

theorem amountFor_chargePostings (user : String) :
    amountFor user (chargePostings s.members (book.consumedIn s) (book.usageIn s)) =
      -book.chargeOf s user := by
  have hneg : ∀ payees : List (String × Nat),
      amountFor user (debits payees) = -amountFor user (gains payees) := by
    intro payees
    induction payees with
    | nil => rfl
    | cons payee payees ih =>
      change amountFor user ((payee.1, -signed payee.2) :: debits payees) =
        -amountFor user ((payee.1, signed payee.2) :: gains payees)
      rw [amountFor_cons, amountFor_cons, ih]
      split <;> omega
  rw [chargeOf, charges, chargePostings, names]
  split
  · exact hneg _
  · rfl

/-- The postings of the closing sweep. -/
def sweepPostings : List (String × Int) :=
  match s.assignments.exclusive, s.members with
  | true, [member] => [(member.name, book.sweepOf s)]
  | _, _ => []

/-- Everything a sync posts. -/
def syncPostings : List (String × Int) :=
  creditPostings s.assignments (names s) (book.arrived s).toList ++
    chargePostings s.members (book.consumedIn s) (book.usageIn s) ++
    expiryPostings (book.afterCharges s) (book.expiring s) ++ book.sweepPostings s

variable {book s}

theorem afterForfeits_eq :
    book.afterForfeits s = postWordAll 64 (book.join s.members).balances
      (creditPostings s.assignments (names s) (book.arrived s).toList ++
        chargePostings s.members (book.consumedIn s) (book.usageIn s) ++
        expiryPostings (book.afterCharges s) (book.expiring s)) := by
  rw [postWordAll_append, postWordAll_append]
  exact expire_eq (book.afterCharges s) (book.expiring s)

theorem sweepPostings_of_not_single
    (hsingle : ¬ (s.assignments.exclusive = true ∧ ∃ member, s.members = [member])) :
    book.sweepPostings s = [] := by
  unfold sweepPostings
  split
  · rename_i member hexclusive hmember
    exact absurd ⟨hexclusive, member, hmember⟩ hsingle
  · rfl

theorem sync_balances (hmigrated : book.migrated = true) :
    (book.sync s).1.balances =
      postWordAll 64 (book.join s.members).balances (book.syncPostings s) := by
  have hcalibrated : (book.calibrateSync s).1.balances = book.afterForfeits s := by
    rw [calibrateSync_fst]
  rw [syncPostings, postWordAll_append, ← afterForfeits_eq, ← hcalibrated, sync_fst book s hmigrated]
  by_cases hsingle : s.assignments.exclusive = true ∧ ∃ member, s.members = [member]
  · obtain ⟨hexclusive, member, hmember⟩ := hsingle
    have hsweep := book.sweepOf_of_single hexclusive hmember
    rw [sweepExclusive_of_single _ s.now hexclusive hmember]
    simp only [sweepPostings, hexclusive, hmember, hsweep]
    rfl
  · rw [sweepExclusive_of_not_single _ s.now hsingle, sweepPostings_of_not_single hsingle]
    rfl

/-- The entries of a sync leave out the charges, and a sweep that takes. -/
theorem amountFor_syncPostings (hmigrated : book.migrated = true) (user : String) :
    amountFor user (book.syncPostings s) =
      amountFor user (posted (book.sync s).2) - book.chargeOf s user - book.sweptFrom s user := by
  have hsweep : amountFor user (book.sweepPostings s) =
      amountFor user (posted ((book.calibrateSync s).1.sweepExclusive s.members s.assignments
        s.now).2) - book.sweptFrom s user := by
    by_cases hsingle : s.assignments.exclusive = true ∧ ∃ member, s.members = [member]
    · obtain ⟨hexclusive, member, hmember⟩ := hsingle
      rw [sweepExclusive_of_single _ s.now hexclusive hmember]
      simp only [sweepPostings, sweptFrom, sweepTo, hexclusive, hmember,
        ← book.sweepOf_of_single hexclusive hmember]
      split
      · simp only [posted, sweepEntry, List.map_cons, List.map_nil, amountFor_cons, amountFor_nil]
        split <;> omega
      · simp only [posted, List.map_nil, amountFor_cons, amountFor_nil]
        split <;> omega
    · rw [sweepExclusive_of_not_single _ s.now hsingle]
      have hzero := book.sweepOf_of_not_single hsingle
      rw [sweepPostings_of_not_single hsingle, sweptFrom, hzero]
      split
      · simp [posted]
      · simp [posted]
  rw [syncPostings, sync_snd book s hmigrated, calibrateSync_snd]
  simp only [posted_append, posted_creditEntries, posted_expiries, amountFor_append,
    amountFor_chargePostings, hsweep]
  rw [expiring]
  omega

end Sync

/-! ## What the first sync posts -/

theorem getD_foldl_openMember {openings : List (Member × Nat)} (now : Int)
    (hnames : (openings.map fun opening => opening.1.name).Nodup) {book : Book}
    (hclosed : ∀ opening ∈ openings, book.balances.getD opening.1.name 0 = 0) (user : String) :
    (openings.foldl openMember book).balances.getD user 0 =
      book.balances.getD user 0 +
        amountFor user (posted (openings.map (migrationEntry now))) := by
  induction openings generalizing book with
  | nil => exact (Int.add_zero _).symm
  | cons opening openings ih =>
    obtain ⟨hhead, hrest⟩ := List.nodup_cons.mp hnames
    have hopened : ∀ name, (book.openMember opening).balances.getD name 0 =
        if opening.1.name = name then signed opening.2 else book.balances.getD name 0 := by
      intro name
      rw [openMember, ExtTreeMap.getD_insert]
      simp only [Std.compare_eq_iff_eq]
    have hclosed' : ∀ other ∈ openings,
        (book.openMember opening).balances.getD other.1.name 0 = 0 := by
      intro other hother
      have hne : opening.1.name ≠ other.1.name := by
        intro heq
        exact hhead (List.mem_map.mpr ⟨other, hother, heq.symm⟩)
      rw [hopened, if_neg hne]
      exact hclosed other (List.mem_cons_of_mem opening hother)
    have hzero := hclosed opening List.mem_cons_self
    change (openings.foldl openMember (book.openMember opening)).balances.getD user 0 =
      book.balances.getD user 0 + amountFor user ((opening.1.name, signed opening.2) ::
        posted (openings.map (migrationEntry now)))
    rw [ih hrest hclosed', hopened, amountFor_cons]
    split
    · rename_i heq
      rw [← heq, hzero]
      omega
    · omega

theorem getD_migration {book : Book} {s : Sync} (hmigrated : book.migrated = false)
    (hfresh : book.Fresh) (hnames : (s.members.map Member.name).Nodup) (user : String) :
    (book.sync s).1.balances.getD user 0 = amountFor user (posted (book.sync s).2) := by
  obtain ⟨hbalances, -, -⟩ := hfresh hmigrated
  have hempty : (book.reset s).balances = ∅ := hbalances
  have hopenings : ((book.openings s).map fun opening => opening.1.name).Nodup := by
    have hmap : (book.openings s).map (fun opening => opening.1.name) =
        s.members.map Member.name := by
      rw [← openings_members book s, List.map_map]
      rfl
    rwa [hmap]
  have hclosed : ∀ opening ∈ book.openings s,
      (book.reset s).balances.getD opening.1.name 0 = 0 := by
    intro opening _
    simp [hempty]
  have hopened := getD_foldl_openMember s.now hopenings hclosed user
  rw [hempty, ExtTreeMap.getD_empty, Int.zero_add] at hopened
  rw [sync_migration hmigrated]
  exact hopened

/-! ## What a call says, and what it takes beside that -/

/-- The entries a call returns, none when it is refused. -/
def written (book : Book) : LedgerCall → List Entry
  | .reconcile s => (book.sync s).2
  | .transfer members sender receiver amount now =>
    ((book.transfer members sender receiver amount now).2.toOption).getD []
  | .allocate members receiver amount now =>
    ((book.allocate members receiver amount now).2.toOption).getD []

/-- What a call takes from a user without an entry: the share of the consumption, and a negative
sweep. -/
def charged (book : Book) (user : String) : LedgerCall → Int
  | .reconcile s => if book.migrated then book.chargeOf s user + book.sweptFrom s user else 0
  | _ => 0

/-- The members a call is made with. -/
def members : LedgerCall → List Member
  | .reconcile s => s.members
  | .transfer members .. => members
  | .allocate members .. => members

/-- The user holds something when a leftover is forfeited. -/
def HoldsAtForfeit (user : String) : BTreeMap Int → List Nat → Prop
  | _, [] => False
  | balances, leftover :: leftovers =>
    0 < balances.getD user 0 ∨ HoldsAtForfeit user (expireOne balances leftover) leftovers

instance decidableHoldsAtForfeit (user : String) :
    ∀ (balances : BTreeMap Int) (leftovers : List Nat),
      Decidable (HoldsAtForfeit user balances leftovers)
  | _, [] => isFalse not_false
  | balances, leftover :: leftovers =>
    have := decidableHoldsAtForfeit user (expireOne balances leftover) leftovers
    inferInstanceAs (Decidable (_ ∨ _))

/-- A call may change the balances of its members and of those who hold something at a forfeit. -/
def Concerns (book : Book) (user : String) (c : LedgerCall) : Prop :=
  (∃ member ∈ members c, member.name = user) ∨
    ∃ s, c = .reconcile s ∧ book.migrated = true ∧
      HoldsAtForfeit user (book.afterCharges s) (book.expiring s)

section Step
variable {book : Book}

theorem words_join (hwords : Words 64 book.balances) (members : List Member) :
    Words 64 (book.join members).balances := by
  intro name
  rw [getD_join_balances]
  exact hwords name

theorem words_foldl_openMember (hwords : Words 64 book.balances)
    (openings : List (Member × Nat)) : Words 64 (openings.foldl openMember book).balances := by
  induction openings generalizing book with
  | nil => exact hwords
  | cons opening openings ih => exact ih (hwords.insert opening.1.name (swrap_signed opening.2))

theorem words_sync (hwords : Words 64 book.balances) (s : Sync) :
    Words 64 (book.sync s).1.balances := by
  cases hmigrated : book.migrated with
  | true =>
    rw [sync_balances hmigrated]
    exact (words_join hwords s.members).postWordAll _
  | false =>
    have hreset : Words 64 (book.reset s).balances := hwords
    rw [sync_migration hmigrated]
    exact words_foldl_openMember hreset (book.openings s)

theorem words_call (hwords : Words 64 book.balances) (c : LedgerCall) :
    Words 64 (book.call c).balances := by
  cases c with
  | reconcile s => exact words_sync hwords s
  | transfer members sender receiver amount now =>
    have hjoined := words_join hwords members
    rcases book.transfer_cases members sender receiver amount now with
      ⟨e, -, hcall⟩ | ⟨source, -, ⟨e, -, hcall⟩ | ⟨-, hcall⟩⟩
    · simpa only [call, hcall] using hwords
    · simpa only [call, hcall] using hjoined
    · simp only [call, hcall]
      exact hjoined.postWordAll (transferPostings sender receiver amount)
  | allocate members receiver amount now =>
    rcases book.allocate_cases members receiver amount now with
      ⟨e, -, hcall⟩ | ⟨names, granted, -, hcall⟩
    · simpa only [call, hcall] using hwords
    · simp only [call, hcall]
      exact (words_join hwords members).postWordAll (grantPostings names granted)

theorem posted_transfer (now : Int) (sender receiver : String) (amount : Nat) :
    posted [transferEntry now sender (-signed amount) receiver,
      transferEntry now receiver (signed amount) sender] =
        transferPostings sender receiver amount := rfl

theorem posted_allocate (now : Int) (shares : List (String × Nat)) :
    posted (shares.map (allocateEntry now)) = gains shares := by
  rw [posted, List.map_map]
  rfl

/-- What one call does to one balance, whatever wraps on the way. -/
theorem getD_call (hfresh : book.Fresh) (hwords : Words 64 book.balances) {c : LedgerCall}
    (hnames : ((members c).map Member.name).Nodup) (user : String) :
    (book.call c).balances.getD user 0 =
      swrap 64 (book.balances.getD user 0 +
        (amountFor user (posted (book.written c)) - book.charged user c)) := by
  have hjoined := fun members => words_join hwords members
  cases c with
  | reconcile s =>
    cases hmigrated : book.migrated with
    | true =>
      change (book.sync s).1.balances.getD user 0 = _
      rw [sync_balances hmigrated, (hjoined s.members).getD_postWordAll, getD_join_balances,
        amountFor_syncPostings hmigrated, charged, if_pos hmigrated, written]
      congr 1
      omega
    | false =>
      have hopened := getD_migration (s := s) hmigrated hfresh hnames user
      have hempty := (hfresh hmigrated).1
      change (book.sync s).1.balances.getD user 0 = _
      rw [charged, if_neg (by simp [hmigrated]), written, ← hopened, hempty, ExtTreeMap.getD_empty,
        Int.sub_zero, Int.zero_add]
      exact (words_sync hwords s user).symm
  | transfer members sender receiver amount now =>
    rcases book.transfer_cases members sender receiver amount now with
      ⟨e, -, hcall⟩ | ⟨source, -, ⟨e, -, hcall⟩ | ⟨-, hcall⟩⟩
    · simp only [call, written, charged, hcall, Except.toOption]
      simpa [posted] using (hwords user).symm
    · simp only [call, written, charged, hcall, Except.toOption]
      rw [getD_join_balances]
      simpa [posted] using (hwords user).symm
    · simp only [call, written, charged, hcall, Except.toOption, Option.getD_some,
        posted_transfer, Int.sub_zero]
      rw [← book.getD_join_balances members, ← (hjoined members).getD_postWordAll]
      rfl
  | allocate members receiver amount now =>
    rcases book.allocate_cases members receiver amount now with
      ⟨e, -, hcall⟩ | ⟨names, granted, -, hcall⟩
    · simp only [call, written, charged, hcall, Except.toOption]
      simpa [posted] using (hwords user).symm
    · simp only [call, written, charged, hcall, Except.toOption, Option.getD_some,
        posted_allocate, Int.sub_zero]
      rw [← book.getD_join_balances members, ← (hjoined members).getD_postWordAll]
      rfl

/-! ### Those a call does not concern -/

theorem amountFor_expiryPostings {user : String} {leftovers : List Nat} {balances : BTreeMap Int}
    (h : ¬ HoldsAtForfeit user balances leftovers) :
    amountFor user (expiryPostings balances leftovers) = 0 := by
  induction leftovers generalizing balances with
  | nil => rfl
  | cons leftover leftovers ih =>
    have hnow : balances.getD user 0 ≤ 0 := not_lt.mp fun hpos => h (.inl hpos)
    have hlater := ih fun hheld => h (.inr hheld)
    rw [expiryPostings, amountFor_append, amountFor_of_notMem (notMem_lossPostings hnow leftover),
      hlater, Int.add_zero]

theorem amountFor_syncPostings_other {s : Sync} {user : String} (huser : user ∉ names s)
    (hheld : ¬ HoldsAtForfeit user (book.afterCharges s) (book.expiring s)) :
    amountFor user (book.syncPostings s) = 0 := by
  have hcredits : user ∉ (creditPostings s.assignments (names s)
      (book.arrived s).toList).map Prod.fst := by
    intro hmem
    obtain ⟨p, hp, rfl⟩ := List.mem_map.mp hmem
    obtain ⟨row, -, hrow⟩ := List.mem_flatMap.mp hp
    obtain ⟨payee, hpayee, rfl⟩ := List.mem_map.mp hrow
    exact huser (payeesOf_mem hpayee)
  have hcharges : user ∉ (chargePostings s.members (book.consumedIn s)
      (book.usageIn s)).map Prod.fst := by
    intro hmem
    obtain ⟨p, hp, rfl⟩ := List.mem_map.mp hmem
    unfold chargePostings at hp
    split at hp
    · obtain ⟨charge, hcharge, rfl⟩ := List.mem_map.mp hp
      exact huser (List.of_mem_zip hcharge).1
    · exact absurd hp List.not_mem_nil
  have hsweep : user ∉ (book.sweepPostings s).map Prod.fst := by
    intro hmem
    unfold sweepPostings at hmem
    split at hmem
    · rename_i member hexclusive hmember
      have hname : user = member.name := by simpa using hmem
      exact huser (by simp [names, hmember, hname])
    · exact absurd hmem List.not_mem_nil
  rw [syncPostings, amountFor_append, amountFor_append, amountFor_append,
    amountFor_of_notMem hcredits, amountFor_of_notMem hcharges, amountFor_of_notMem hsweep,
    amountFor_expiryPostings hheld]
  rfl

theorem posted_users_migration {s : Sync} (hmigrated : book.migrated = false) {user : String}
    (huser : user ∉ names s) : amountFor user (posted (book.sync s).2) = 0 := by
  apply amountFor_of_notMem
  intro hmem
  rw [sync_migration hmigrated] at hmem
  obtain ⟨p, hp, rfl⟩ := List.mem_map.mp hmem
  obtain ⟨migration, hmigration, rfl⟩ := List.mem_map.mp hp
  obtain ⟨opening, hopening, rfl⟩ := List.mem_map.mp hmigration
  have hmember : opening.1 ∈ s.members := by
    rw [← openings_members book s]
    exact List.mem_map_of_mem hopening
  exact huser (List.mem_map_of_mem hmember)

theorem Receives.mem {members : List Member} {receiver : Option String} {names : List String}
    (h : Receives members receiver names) {name : String} (hname : name ∈ names) :
    ∃ member ∈ members, member.name = name := by
  cases receiver with
  | some chosen =>
    obtain ⟨hmember, rfl⟩ := h
    rwa [List.mem_singleton.mp hname]
  | none =>
    obtain ⟨-, rfl⟩ := h
    exact List.mem_map.mp hname

/-- A call leaves everybody else alone. -/
theorem getD_call_other (hfresh : book.Fresh) (hwords : Words 64 book.balances) {c : LedgerCall}
    (hnames : ((members c).map Member.name).Nodup) {user : String}
    (hnot : ¬ book.Concerns user c) :
    (book.call c).balances.getD user 0 = book.balances.getD user 0 := by
  obtain ⟨hmember, hholder⟩ := not_or.mp hnot
  have hjoined := fun members => words_join hwords members
  cases c with
  | reconcile s =>
    have huser : user ∉ names s := fun hmem => hmember (List.mem_map.mp hmem)
    change (book.sync s).1.balances.getD user 0 = _
    cases hmigrated : book.migrated with
    | true =>
      have hheld : ¬ HoldsAtForfeit user (book.afterCharges s) (book.expiring s) :=
        fun hheld => hholder ⟨s, rfl, hmigrated, hheld⟩
      rw [sync_balances hmigrated, (hjoined s.members).getD_postWordAll, getD_join_balances,
        amountFor_syncPostings_other huser hheld, Int.add_zero, hwords]
    | false =>
      rw [getD_migration hmigrated hfresh hnames, posted_users_migration hmigrated huser,
        (hfresh hmigrated).1, ExtTreeMap.getD_empty]
  | transfer members sender receiver amount now =>
    rcases book.transfer_cases members sender receiver amount now with
      ⟨e, -, hcall⟩ | ⟨source, hcheck, ⟨e, -, hcall⟩ | ⟨-, hcall⟩⟩
    · simp only [call, hcall]
    · simp only [call, hcall, getD_join_balances]
    · obtain ⟨-, -, -, hfind, hreceiver⟩ := checkTransfer_ok_iff.mp hcheck
      have hsender := exists_findMember_iff.mp ⟨source, hfind⟩
      have hother : user ∉ (transferPostings sender receiver amount).map Prod.fst := by
        intro hmem
        simp only [transferPostings, List.map_cons, List.map_nil, List.mem_cons, List.not_mem_nil,
          or_false] at hmem
        rcases hmem with rfl | rfl
        · exact hmember hsender
        · exact hmember hreceiver
      simp only [call, hcall]
      change (postWordAll 64 (book.join members).balances
        (transferPostings sender receiver amount)).getD user 0 = _
      rw [(hjoined members).getD_postWordAll, amountFor_of_notMem hother, getD_join_balances,
        Int.add_zero, hwords]
  | allocate members receiver amount now =>
    rcases book.allocate_cases members receiver amount now with
      ⟨e, -, hcall⟩ | ⟨names, granted, hcheck, hcall⟩
    · simp only [call, hcall]
    · obtain ⟨-, -, -, -, -, hreceives⟩ := checkAllocate_ok_iff.mp hcheck
      have hother : user ∉ (grantPostings names granted).map Prod.fst := by
        rw [grantPostings_names]
        exact fun hmem => hmember (hreceives.mem hmem)
      simp only [call, hcall]
      change (postWordAll 64 (book.join members).balances
        (grantPostings names granted)).getD user 0 = _
      rw [(hjoined members).getD_postWordAll, amountFor_of_notMem hother, getD_join_balances,
        Int.add_zero, hwords]

end Step

/-! ## Over a run -/

/-- All entries of a run. -/
def ledger (book : Book) : List LedgerCall → List Entry
  | [] => []
  | c :: run => book.written c ++ ledger (book.call c) run

/-- All that a run takes from a user without an entry. -/
def chargedIn (book : Book) (user : String) : List LedgerCall → Int
  | [] => 0
  | c :: run => book.charged user c + chargedIn (book.call c) user run

theorem getD_calls {run : List LedgerCall} {book : Book} (hfresh : book.Fresh)
    (hwords : Words 64 book.balances)
    (hnames : ∀ c ∈ run, ((members c).map Member.name).Nodup) (user : String) :
    (book.calls run).balances.getD user 0 =
      swrap 64 (book.balances.getD user 0 +
        (amountFor user (posted (book.ledger run)) - book.chargedIn user run)) := by
  induction run generalizing book with
  | nil =>
    simp only [ledger, chargedIn, posted, List.map_nil, amountFor_nil, Int.sub_zero, Int.add_zero]
    exact (hwords user).symm
  | cons c run ih =>
    have hcall := getD_call hfresh hwords (hnames c List.mem_cons_self) user
    have hrest := ih (call_fresh hfresh c) (words_call hwords c)
      fun other hother => hnames other (List.mem_cons_of_mem c hother)
    change ((book.call c).calls run).balances.getD user 0 = _
    rw [hrest, hcall, swrap_add_swrap_left, ledger, chargedIn, posted_append, amountFor_append]
    congr 1
    omega

theorem words_calls {run : List LedgerCall} {book : Book} (hwords : Words 64 book.balances) :
    Words 64 (book.calls run).balances := by
  induction run generalizing book with
  | nil => exact hwords
  | cons c run ih => exact ih (words_call hwords c)

/-- The amount is an `i64`. -/
def FitsWord (x : Int) : Prop := -2 ^ 63 ≤ x ∧ x < 2 ^ 63

instance (x : Int) : Decidable (FitsWord x) := inferInstanceAs (Decidable (_ ∧ _))

/-- The ledger explains every balance: a call changes it by what its entries say, less the share
of the consumption and a negative sweep, and leaves those alone who are no members and hold
nothing at a forfeit; so over a run each balance is the sum of the user's entries less those
charges. -/
theorem ledger_explains (run : List LedgerCall) (c : LedgerCall)
    (hnames : ∀ other ∈ c :: run, ((members other).map Member.name).Nodup) (user : String) :
    let book := ({} : Book).calls run
    (FitsWord (book.balances.getD user 0 +
        (amountFor user (posted (book.written c)) - book.charged user c)) →
      (book.call c).balances.getD user 0 - book.balances.getD user 0 =
        amountFor user (posted (book.written c)) - book.charged user c) ∧
    (¬ book.Concerns user c →
      (book.call c).balances.getD user 0 = book.balances.getD user 0) ∧
    (FitsWord (amountFor user (posted (({} : Book).ledger run)) -
        ({} : Book).chargedIn user run) →
      book.balances.getD user 0 =
        amountFor user (posted (({} : Book).ledger run)) - ({} : Book).chargedIn user run) := by
  intro book
  have hempty : Words 64 ({} : Book).balances := words_empty 64
  have hwords : Words 64 book.balances := words_calls hempty
  have hfresh : book.Fresh := calls_fresh run
  have hhead := hnames c List.mem_cons_self
  refine ⟨?_, getD_call_other hfresh hwords hhead, ?_⟩
  · intro hfits
    rw [getD_call hfresh hwords hhead, swrap_of_bounds (by decide) hfits.1 hfits.2]
    omega
  · intro hfits
    have hrun := @getD_calls run {} (calls_fresh []) hempty
      (fun other hother => hnames other (List.mem_cons_of_mem c hother)) user
    have hzero : ({} : Book).balances.getD user 0 = 0 := ExtTreeMap.getD_empty
    rw [hzero, Int.zero_add, swrap_of_bounds (by decide) hfits.1 hfits.2] at hrun
    exact hrun

/-- The only user loses the 40 that are left when the package ends. -/
theorem ledger_explains_drained :
    let book := ({} : Book).calls drained
    (book.call (.reconcile expireDrained)).balances.getD "a" 0 - book.balances.getD "a" 0 = -40 ∧
      (book.call (.reconcile expireDrained)).balances.getD "b" 0 = book.balances.getD "b" 0 ∧
      book.balances.getD "a" 0 = 40 := by
  intro book
  have hnames : ∀ other ∈ LedgerCall.reconcile expireDrained :: drained,
      ((members other).map Member.name).Nodup := by decide
  obtain ⟨hcall, -, hrun⟩ := ledger_explains drained (.reconcile expireDrained) hnames "a"
  obtain ⟨-, hother, -⟩ := ledger_explains drained (.reconcile expireDrained) hnames "b"
  refine ⟨?_, hother ?_, ?_⟩
  · exact (hcall (by decide +kernel)).trans (by decide +kernel)
  · rintro (⟨member, hmem, hname⟩ | ⟨s, hs, -, hheld⟩)
    · obtain rfl := List.mem_singleton.mp hmem
      exact absurd hname (by decide)
    · cases hs
      revert hheld
      decide +kernel
  · exact (hrun (by decide +kernel)).trans (by decide +kernel)

end Book

end PortsBox
