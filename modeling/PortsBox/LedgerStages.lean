import PortsBox.LedgerRecords

/-!
# `reconcile` of a migrated book, stage by stage

The book a sync leaves, field by field, in terms of what each stage does. The
balances pass through three stages before the sweep: credits, charges, forfeits.
-/

set_option autoImplicit false

namespace PortsBox

open Word Accounts MapSum
open Std (ExtTreeMap)

namespace Book

/-! ## Joining -/

section Join
variable (book : Book) (members : List Member)

/-- A property of books that adding one member keeps holds after `join`. -/
theorem join_induction {P : Book → Prop} (hstep : ∀ b member, P b → P (b.joinMember member))
    (h : P book) : P (book.join members) := by
  unfold join
  induction members generalizing book with
  | nil => exact h
  | cons member members ih => exact ih _ (hstep book member h)

@[simp] theorem join_packages : (book.join members).packages = book.packages :=
  book.join_induction members (P := fun b => b.packages = book.packages) (fun _ _ h => h) rfl

@[simp] theorem join_migrated : (book.join members).migrated = book.migrated :=
  book.join_induction members (P := fun b => b.migrated = book.migrated) (fun _ _ h => h) rfl

theorem getD_join_balances (name : String) :
    (book.join members).balances.getD name 0 = book.balances.getD name 0 :=
  book.join_induction members (P := fun b => b.balances.getD name 0 = book.balances.getD name 0)
    (fun b member h => (getD_open b.balances member.name name).trans h) rfl

theorem total_join_balances : total (book.join members).balances = total book.balances :=
  book.join_induction members (P := fun b => total b.balances = total book.balances)
    (fun b member h => (total_open b.balances member.name).trans h) rfl

theorem norm_join_balances : norm (book.join members).balances = norm book.balances :=
  book.join_induction members (P := fun b => norm b.balances = norm book.balances)
    (fun b member h => (norm_open b.balances member.name).trans h) rfl

/-- A baseline the book already has is kept. -/
theorem join_baselines_of_some {name : String} {baseline : Nat}
    (h : book.baselines[name]? = some baseline) :
    (book.join members).baselines[name]? = some baseline := by
  apply book.join_induction members (P := fun b => b.baselines[name]? = some baseline) _ h
  intro b member hb
  have hmem : name ∈ b.baselines := by
    rw [ExtTreeMap.mem_iff_isSome_getElem?, hb]
    rfl
  rw [joinMember, ExtTreeMap.getElem?_insertIfNew, if_neg]
  · exact hb
  · rintro ⟨heq, hnot⟩
    rw [Std.compare_eq_iff_eq] at heq
    exact hnot (heq ▸ hmem)

/-- A new member's baseline is its own usage. -/
theorem join_baselines_of_none {member : Member}
    (hnames : (members.map Member.name).Nodup) (hmem : member ∈ members)
    (h : book.baselines[member.name]? = none) :
    (book.join members).baselines[member.name]? = some member.used := by
  induction members generalizing book with
  | nil => simp at hmem
  | cons head members ih =>
    rw [List.map_cons, List.nodup_cons] at hnames
    rcases List.mem_cons.mp hmem with rfl | htail
    · have hnot : member.name ∉ book.baselines := by
        simp [ExtTreeMap.mem_iff_isSome_getElem?, h]
      apply (book.joinMember member).join_baselines_of_some members
      rw [joinMember, ExtTreeMap.getElem?_insertIfNew, if_pos ⟨Std.ReflCmp.compare_self, hnot⟩]
    · have hne : head.name ≠ member.name := by
        intro heq
        exact hnames.1 (heq ▸ List.mem_map_of_mem htail)
      apply ih (book.joinMember head) hnames.2 htail
      simp [joinMember, ExtTreeMap.getElem?_insertIfNew, hne, h]

end Join

/-! ## Calibration -/

section Stages
variable (book : Book) (s : Sync)

def names (s : Sync) : List String := s.members.map Member.name

/-- The records when the crediting loop starts. -/
def arrived : BTreeMap PackageRecord := (arrivals s.packages book.packages).2

/-- What the sync counts as consumed. -/
def consumedIn : Nat :=
  consumedOf book.remaining (arrivals s.packages book.packages).1
    (gone s.packages book.packages) (remainingOf s.packages)

/-- What each member metered since its baseline. -/
def usageIn : List Nat := usageOf (book.join s.members).baselines s.members

def afterCredits : BTreeMap Int :=
  postWordAll 64 (book.join s.members).balances
    (creditPostings s.assignments (names s) (book.arrived s).toList)

def afterCharges : BTreeMap Int :=
  postWordAll 64 (book.afterCredits s)
    (chargePostings s.members (book.consumedIn s) (book.usageIn s))

def afterForfeits : BTreeMap Int :=
  expire (book.afterCharges s) ((forfeited s.packages book.packages).map Prod.snd)

def calibrateSync : Book × List Entry := book.calibrate s.packages s.members s.assignments s.now

end Stages

/-- `join` only looks at balances and baselines. -/
theorem join_update (book : Book) (members : List Member) (remaining : Nat) (syncedAt : Int) :
    ({ book with remaining, syncedAt }.join members) =
      { book.join members with remaining, syncedAt } := by
  unfold join
  induction members generalizing book with
  | nil => rfl
  | cons member members ih => exact ih (book.joinMember member)

theorem calibrateSync_fst (book : Book) (s : Sync) :
    (book.calibrateSync s).1 =
      { book.join s.members with
        remaining := remainingOf s.packages
        syncedAt := s.now
        balances := book.afterForfeits s
        baselines := rebase s.members (book.join s.members).baselines
        packages := creditRecords s.assignments (names s) (book.arrived s)
        consumed := book.consumedIn s
        metered := meteredOf (book.usageIn s) } := by
  have hpackages := book.join_packages s.members
  simp only [calibrateSync, calibrate, join_update, hpackages, creditAll_eq, chargeAll_eq,
    forfeitAll_eq]
  rfl

theorem calibrateSync_snd (book : Book) (s : Sync) :
    (book.calibrateSync s).2 =
      creditEntries s.assignments (names s) s.now (book.arrived s).toList ++
        expiries s.now (book.afterCharges s) (forfeited s.packages book.packages) := by
  have hpackages := book.join_packages s.members
  simp only [calibrateSync, calibrate, join_update, hpackages, creditAll_eq, chargeAll_eq,
    forfeitAll_eq]
  rfl

theorem sync_snd (book : Book) (s : Sync) (hmigrated : book.migrated = true) :
    (book.sync s).2 = (book.calibrateSync s).2 ++
      ((book.calibrateSync s).1.sweepExclusive s.members s.assignments s.now).2 := by
  rw [sync, reconcile, if_pos hmigrated]
  rfl

theorem sync_fst (book : Book) (s : Sync) (hmigrated : book.migrated = true) :
    (book.sync s).1 =
      ((book.calibrateSync s).1.sweepExclusive s.members s.assignments s.now).1 := by
  simp only [sync, reconcile, if_pos hmigrated]
  rfl

/-- The sweep of a sync: what is unallocated when the one exclusive member takes it. -/
def sweepOf (book : Book) (s : Sync) : Int :=
  match s.assignments.exclusive, s.members with
  | true, [_] => (book.calibrateSync s).1.unallocated
  | _, _ => 0

/-- The sweep only touches balances. -/
theorem sweepExclusive_fst (book : Book) (members : List Member) (assignments : Assignments)
    (now : Int) :
    (book.sweepExclusive members assignments now).1 =
      { book with
        balances := (book.sweepExclusive members assignments now).1.balances } := by
  unfold sweepExclusive
  split <;> rfl

theorem sweepExclusive_of_single (book : Book) {members : List Member}
    {assignments : Assignments} {member : Member} (now : Int)
    (hexclusive : assignments.exclusive = true) (hmember : members = [member]) :
    book.sweepExclusive members assignments now = book.sweepTo member now := by
  subst hmember
  simp only [sweepExclusive, hexclusive]

theorem sweepExclusive_of_not_single (book : Book) {members : List Member}
    {assignments : Assignments} (now : Int)
    (h : ¬ (assignments.exclusive = true ∧ ∃ member, members = [member])) :
    book.sweepExclusive members assignments now = (book, []) := by
  unfold sweepExclusive
  split
  · exact absurd ⟨by assumption, _, rfl⟩ h
  · rfl

theorem sweepOf_of_single (book : Book) {s : Sync} {member : Member}
    (hexclusive : s.assignments.exclusive = true) (hmember : s.members = [member]) :
    book.sweepOf s = (book.calibrateSync s).1.unallocated := by
  simp only [sweepOf, hexclusive, hmember]

theorem sweepOf_of_not_single (book : Book) {s : Sync}
    (h : ¬ (s.assignments.exclusive = true ∧ ∃ member, s.members = [member])) :
    book.sweepOf s = 0 := by
  unfold sweepOf
  split
  · exact absurd ⟨by assumption, _, by assumption⟩ h
  · rfl

section Fields
variable {book : Book} (s : Sync) (hmigrated : book.migrated = true)
include hmigrated

theorem sync_remaining : (book.sync s).1.remaining = remainingOf s.packages := by
  rw [book.sync_fst s hmigrated, sweepExclusive_fst, calibrateSync_fst]

theorem sync_packages :
    (book.sync s).1.packages = creditRecords s.assignments (names s) (book.arrived s) := by
  rw [book.sync_fst s hmigrated, sweepExclusive_fst, calibrateSync_fst]

theorem sync_consumed : (book.sync s).1.consumed = book.consumedIn s := by
  rw [book.sync_fst s hmigrated, sweepExclusive_fst, calibrateSync_fst]

theorem sync_baselines :
    (book.sync s).1.baselines = rebase s.members (book.join s.members).baselines := by
  rw [book.sync_fst s hmigrated, sweepExclusive_fst, calibrateSync_fst]

theorem sync_migrated : (book.sync s).1.migrated = true := by
  rw [book.sync_fst s hmigrated, sweepExclusive_fst, calibrateSync_fst]
  exact (book.join_migrated s.members).trans hmigrated

end Fields

theorem sync_migrated_true (book : Book) (s : Sync) : (book.sync s).1.migrated = true := by
  cases hmigrated : book.migrated with
  | true => exact sync_migrated s hmigrated
  | false =>
    rw [sync, reconcile, hmigrated]
    rfl

theorem migrated_syncs {book : Book} (run : List Sync) (hmigrated : book.migrated = true) :
    (book.syncs run).migrated = true := by
  induction run generalizing book with
  | nil => exact hmigrated
  | cons s run ih => exact ih (sync_migrated s hmigrated)

end Book

end PortsBox
