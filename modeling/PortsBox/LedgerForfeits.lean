import PortsBox.LedgerCalibration
import PortsBox.LedgerBaselines
import PortsBox.LedgerManual

/-!
# Forfeited leftovers and what the users hold

Each leftover is split by the positive balances as they are at that point. As long as
the leftovers fit into what is held, none takes more than there is; a leftover beyond
that is still taken whole, and leaves somebody with a negative balance.
-/

set_option autoImplicit false

namespace PortsBox

open Word Accounts MapSum
open Std (ExtTreeMap)

/-! ## The holders -/

theorem mem_holders {balances : BTreeMap Int} {holder : String × Nat}
    (h : holder ∈ holders balances) :
    0 < holder.2 ∧ balances.getD holder.1 0 = holder.2 := by
  obtain ⟨row, hrow, rfl⟩ := List.mem_map.mp h
  obtain ⟨hmem, hpos⟩ := List.mem_filter.mp hrow
  have hlt : 0 < row.2 := of_decide_eq_true hpos
  have hbalance : balances.getD row.1 0 = row.2 := by
    rw [ExtTreeMap.getD_eq_getD_getElem?, mem_toList.mp hmem]
    rfl
  dsimp only
  omega

theorem holders_names (balances : BTreeMap Int) : ((holders balances).map Prod.fst).Nodup := by
  have hkeys : (balances.toList.map Prod.fst).Nodup := by
    rw [ExtTreeMap.map_fst_toList_eq_keys]
    exact ExtTreeMap.nodup_keys
  rw [holders, List.map_map]
  exact hkeys.sublist (List.filter_sublist.map Prod.fst)

theorem holders_held (balances : BTreeMap Int) :
    ((holders balances).map Prod.snd).sum = held balances := by
  rw [holders, held, sumBy]
  generalize balances.toList = rows
  induction rows with
  | nil => rfl
  | cons row rows ih =>
    by_cases hpos : 0 < row.2
    · simpa [List.filter_cons, hpos] using ih
    · have hzero : row.2.toNat = 0 := by omega
      simpa [List.filter_cons, hpos, hzero] using ih

theorem losses_names (leftover : Nat) (balances : BTreeMap Int) :
    ((losses leftover balances).map Prod.fst) = (holders balances).map Prod.fst :=
  List.map_fst_zip (by simp)

theorem mem_losses {leftover : Nat} {balances : BTreeMap Int} {loss : String × Nat}
    (h : loss ∈ losses leftover balances) :
    ∃ i weight, (loss.1, weight) ∈ holders balances ∧
      ((holders balances).map Prod.snd).getD i 0 = weight ∧
      (splitBy leftover ((holders balances).map Prod.snd)).getD i 0 = loss.2 := by
  obtain ⟨i, hi, rfl⟩ := List.mem_iff_getElem.mp h
  have hlen : i < (holders balances).length := by
    simp only [losses, List.length_zip, List.length_map] at hi
    omega
  refine ⟨i, (holders balances)[i].2, ?_, ?_, ?_⟩
  · simp [losses]
  · simp [List.getD_eq_getElem?_getD, hlen]
  · simp [losses, List.getD_eq_getElem?_getD, hlen]

theorem amount_debits_of_each {payees : List (String × Nat)}
    (h : ∀ payee ∈ payees, payee.2 < 2 ^ 63) :
    amount (debits payees) = -((payees.map Prod.snd).sum : Nat) := by
  induction payees with
  | nil => rfl
  | cons payee payees ih =>
    have htail := ih fun other hmem => h other (List.mem_cons_of_mem payee hmem)
    have hhead := signed_of_lt (h payee List.mem_cons_self)
    change -signed payee.2 + amount (debits payees) = _
    rw [htail, hhead, List.map_cons, List.sum_cons]
    push_cast
    omega

/-! ## One leftover -/

theorem mem_lossPostings {leftover : Nat} {balances : BTreeMap Int} {p : String × Int}
    (h : p ∈ lossPostings leftover balances) :
    ∃ loss ∈ losses leftover balances, p = (loss.1, -signed loss.2) := by
  obtain ⟨loss, hloss, rfl⟩ := List.mem_map.mp h
  exact ⟨loss, List.mem_of_mem_filter hloss, rfl⟩

theorem lossPostings_names (leftover : Nat) (balances : BTreeMap Int) :
    ((lossPostings leftover balances).map Prod.fst).Nodup := by
  have hnames : ((losses leftover balances).map Prod.fst).Nodup := by
    rw [losses_names]
    exact holders_names balances
  rw [lossPostings, debits, List.map_map]
  exact hnames.sublist (List.filter_sublist.map Prod.fst)

/-- A holder loses its share, whatever it is: no word overflows. -/
theorem expireOne_eq_postAll {balances : BTreeMap Int} (hword : Book.InWord balances)
    (leftover : Nat) :
    expireOne balances leftover = postAll balances (lossPostings leftover balances) := by
  apply postWordAll_eq_postAll_of_names (lossPostings_names leftover balances)
  intro p hp
  obtain ⟨loss, hloss, rfl⟩ := mem_lossPostings hp
  obtain ⟨i, weight, hholder, -, -⟩ := mem_losses hloss
  obtain ⟨hpos, hbalance⟩ := mem_holders hholder
  have hlt := hword loss.1
  have hnonneg := signed_nonneg loss.2
  have hle := signed_lt loss.2
  dsimp only at hpos hbalance ⊢
  apply swrap_of_bounds (by decide) <;> omega

theorem held_eq_zero_iff (balances : BTreeMap Int) :
    held balances = 0 ↔ holders balances = [] := by
  rw [← holders_held]
  constructor
  · intro hzero
    by_contra hnil
    exact absurd (holders_weight_pos hnil) (by omega)
  · intro hnil
    rw [hnil]
    rfl

/-- Where nobody holds anything, nothing is taken. -/
theorem expireOne_of_held_zero {balances : BTreeMap Int} (h : held balances = 0)
    (leftover : Nat) : expireOne balances leftover = balances := by
  have hnil : lossPostings leftover balances = [] := by
    have hlosses : losses leftover balances = [] := by
      simp [losses, (held_eq_zero_iff balances).mp h]
    simp [lossPostings, debits, hlosses]
  rw [expireOne, hnil]
  rfl

/-- Only someone who holds something loses something. -/
theorem notMem_lossPostings {balances : BTreeMap Int} {name : String}
    (h : balances.getD name 0 ≤ 0) (leftover : Nat) :
    name ∉ (lossPostings leftover balances).map Prod.fst := by
  intro hmem
  obtain ⟨p, hp, rfl⟩ := List.mem_map.mp hmem
  obtain ⟨loss, hloss, rfl⟩ := mem_lossPostings hp
  obtain ⟨i, weight, hholder, -, -⟩ := mem_losses hloss
  obtain ⟨hpos, hbalance⟩ := mem_holders hholder
  dsimp only at hpos hbalance h
  omega

theorem inWord_expireOne {balances : BTreeMap Int} (hword : Book.InWord balances)
    (leftover : Nat) : Book.InWord (expireOne balances leftover) :=
  Book.inWord_postWordAll hword _

/-- No balance grows. -/
theorem getD_expireOne_le {balances : BTreeMap Int} (hword : Book.InWord balances)
    (leftover : Nat) (name : String) :
    (expireOne balances leftover).getD name 0 ≤ balances.getD name 0 := by
  rw [expireOne_eq_postAll hword, getD_postAll]
  by_cases hmem : name ∈ (lossPostings leftover balances).map Prod.fst
  · obtain ⟨p, hp, rfl⟩ := List.mem_map.mp hmem
    rw [amountFor_of_mem (lossPostings_names leftover balances) hp]
    obtain ⟨loss, -, rfl⟩ := mem_lossPostings hp
    have hnonneg := signed_nonneg loss.2
    dsimp only
    omega
  · rw [amountFor_of_notMem hmem]
    omega

/-- One leftover takes no more than what is held: from nobody more than the balance, and in all
the smaller of the leftover and the positive balances. -/
structure TakesWithin (balances : BTreeMap Int) (leftover : Nat) : Prop where
  each : ∀ name, balances.getD name 0 - (expireOne balances leftover).getD name 0 ≤
    max (balances.getD name 0) 0
  all : total balances - total (expireOne balances leftover) = min leftover (held balances)

section Covered
variable {balances : BTreeMap Int} {leftover : Nat} (hword : Book.InWord balances)
  (h64 : leftover < 2 ^ 64) (hle : leftover ≤ held balances)
include h64 hle

theorem loss_le_balance {loss : String × Nat} (h : loss ∈ losses leftover balances) :
    (loss.2 : Int) ≤ balances.getD loss.1 0 := by
  obtain ⟨i, weight, hholder, hweight, hshare⟩ := mem_losses h
  obtain ⟨-, hbalance⟩ := mem_holders hholder
  have hbound := splitBy_getD_le h64 (by rwa [holders_held]) i
  dsimp only at hbalance
  omega

theorem lossPostings_within : Within balances (lossPostings leftover balances) := by
  intro p hp
  obtain ⟨loss, hloss, rfl⟩ := mem_lossPostings hp
  have hloss := loss_le_balance h64 hle hloss
  have hnonneg := signed_nonneg loss.2
  have hsigned := signed_le loss.2
  dsimp only
  omega

include hword

/-- Shares that the balances cover add up to the leftover. -/
theorem amount_lossPostings : amount (lossPostings leftover balances) = -(leftover : Int) := by
  have hsum := losses_sum balances h64
  have hnil : holders balances = [] → leftover = 0 := by
    intro hnone
    have hzero := (held_eq_zero_iff balances).mpr hnone
    omega
  have hshares : ∀ loss ∈ (losses leftover balances).filter fun loss => loss.2 ≠ 0,
      loss.2 < 2 ^ 63 := by
    intro loss hloss
    have hbalance := loss_le_balance h64 hle (List.mem_of_mem_filter hloss)
    have hlt := hword loss.1
    omega
  rw [lossPostings, amount_debits_of_each hshares, sum_filter_ne_zero, hsum]
  split_ifs with hnone
  · rw [hnil hnone]
  · rfl

theorem takesWithin_of_le : TakesWithin balances leftover := by
  have hword' := expireOne_eq_postAll hword leftover
  refine ⟨?_, ?_⟩
  · intro name
    rw [hword', getD_postAll]
    by_cases hmem : name ∈ (lossPostings leftover balances).map Prod.fst
    · obtain ⟨p, hp, rfl⟩ := List.mem_map.mp hmem
      rw [amountFor_of_mem (lossPostings_names leftover balances) hp]
      have hroom := (lossPostings_within h64 hle p hp).2
      omega
    · rw [amountFor_of_notMem hmem]
      omega
  · rw [hword', total_postAll, amount_lossPostings hword h64 hle]
    omega

theorem held_expireOne : held (expireOne balances leftover) = held balances - leftover := by
  have hheld := held_postAll (lossPostings_names leftover balances)
    (lossPostings_within h64 hle)
  rw [expireOne_eq_postAll hword leftover]
  rw [amount_lossPostings hword h64 hle] at hheld
  omega

end Covered

section Overdrawn
variable {balances : BTreeMap Int} {leftover : Nat} (hword : Book.InWord balances)
  (h63 : leftover < 2 ^ 63) (hheld : 0 < held balances)
include hword h63 hheld

/-- The whole leftover is taken, whatever is held. -/
theorem total_expireOne_of_held :
    total balances - total (expireOne balances leftover) = leftover := by
  have hnot : holders balances ≠ [] := by
    intro hnil
    have hzero := (held_eq_zero_iff balances).mpr hnil
    omega
  have hamount := (lossPostings_amounts balances h63).1
  rw [if_neg hnot] at hamount
  rw [expireOne_eq_postAll hword, total_postAll, hamount]
  omega

/-- A leftover above what is held leaves someone with a negative balance. -/
theorem exists_negative (hlt : held balances < leftover) :
    ∃ name, 0 < balances.getD name 0 ∧ (expireOne balances leftover).getD name 0 < 0 := by
  by_contra hnone
  have hwithin : Within balances (lossPostings leftover balances) := by
    intro p hp
    obtain ⟨loss, hloss, rfl⟩ := mem_lossPostings hp
    obtain ⟨i, weight, hholder, -, -⟩ := mem_losses hloss
    obtain ⟨hpos, hbalance⟩ := mem_holders hholder
    have hkept : 0 ≤ (expireOne balances leftover).getD loss.1 0 := by
      by_contra hneg
      dsimp only at hpos hbalance
      exact hnone ⟨loss.1, by omega, by omega⟩
    have hposted := getD_postAll balances (lossPostings leftover balances) loss.1
    rw [← expireOne_eq_postAll hword,
      amountFor_of_mem (lossPostings_names leftover balances) hp] at hposted
    have hnonneg := signed_nonneg loss.2
    dsimp only at hposted ⊢
    omega
  have hafter := held_postAll (lossPostings_names leftover balances) hwithin
  have htaken := total_expireOne_of_held hword h63 hheld
  rw [expireOne_eq_postAll hword, total_postAll] at htaken
  omega

end Overdrawn

/-! ## One after the other -/

def ForfeitsWithin : BTreeMap Int → List Nat → Prop
  | _, [] => True
  | balances, leftover :: leftovers =>
    TakesWithin balances leftover ∧ ForfeitsWithin (expireOne balances leftover) leftovers

/-- The leftovers, in order, add up to no more than what is held, or to just that much before
one that then finds nothing. -/
def Fits : Nat → List Nat → Prop
  | _, [] => True
  | held, leftover :: leftovers => held = 0 ∨ (leftover ≤ held ∧ Fits (held - leftover) leftovers)

instance decidableFits : ∀ (held : Nat) (leftovers : List Nat), Decidable (Fits held leftovers)
  | _, [] => isTrue trivial
  | held, leftover :: leftovers =>
    have := decidableFits (held - leftover) leftovers
    inferInstanceAs (Decidable (_ ∨ _))

theorem takesWithin_of_held_zero {balances : BTreeMap Int} (h : held balances = 0)
    (leftover : Nat) : TakesWithin balances leftover := by
  have hsame := expireOne_of_held_zero h leftover
  refine ⟨?_, ?_⟩
  · intro name
    rw [hsame]
    omega
  · rw [hsame]
    omega

theorem fits_zero (leftovers : List Nat) : Fits 0 leftovers := by
  cases leftovers with
  | nil => trivial
  | cons leftover leftovers => exact .inl rfl

/-- Leftovers that fit take no more than what is held. -/
theorem forfeitsWithin_of_fits {balances : BTreeMap Int} {leftovers : List Nat}
    (hword : Book.InWord balances) (h64 : ∀ leftover ∈ leftovers, leftover < 2 ^ 64)
    (h : Fits (held balances) leftovers) : ForfeitsWithin balances leftovers := by
  induction leftovers generalizing balances with
  | nil => trivial
  | cons leftover leftovers ih =>
    have hrest : ∀ other ∈ leftovers, other < 2 ^ 64 :=
      fun other hmem => h64 other (List.mem_cons_of_mem leftover hmem)
    have hnext := inWord_expireOne hword leftover
    rcases h with hzero | ⟨hle, hfits⟩
    · refine ⟨takesWithin_of_held_zero hzero leftover, ih hnext hrest ?_⟩
      rw [expireOne_of_held_zero hzero, hzero]
      exact fits_zero leftovers
    · have hlt := h64 leftover List.mem_cons_self
      refine ⟨takesWithin_of_le hword hlt hle, ih hnext hrest ?_⟩
      rwa [held_expireOne hword hlt hle]

/-- The leftovers together take from nobody more than the balance. -/
theorem ForfeitsWithin.each {balances : BTreeMap Int} {leftovers : List Nat}
    (h : ForfeitsWithin balances leftovers) (name : String) :
    balances.getD name 0 - (expire balances leftovers).getD name 0 ≤
      max (balances.getD name 0) 0 := by
  induction leftovers generalizing balances with
  | nil =>
    change balances.getD name 0 - balances.getD name 0 ≤ _
    omega
  | cons leftover leftovers ih =>
    have hone := h.1.each name
    have hrest := ih h.2
    change balances.getD name 0 - (expire (expireOne balances leftover) leftovers).getD name 0 ≤ _
    omega

theorem getD_expire_le {balances : BTreeMap Int} (hword : Book.InWord balances)
    (leftovers : List Nat) (name : String) :
    (expire balances leftovers).getD name 0 ≤ balances.getD name 0 := by
  induction leftovers generalizing balances with
  | nil => exact le_rfl
  | cons leftover leftovers ih =>
    have hrest := ih (inWord_expireOne hword leftover)
    have hone := getD_expireOne_le hword leftover name
    exact hrest.trans hone

/-- Leftovers that do not fit leave someone negative who was not. -/
theorem exists_negative_of_not_fits {balances : BTreeMap Int} {leftovers : List Nat}
    (hword : Book.InWord balances) (h63 : ∀ leftover ∈ leftovers, leftover < 2 ^ 63)
    (h : ¬ Fits (held balances) leftovers) :
    ∃ name, 0 ≤ balances.getD name 0 ∧ (expire balances leftovers).getD name 0 < 0 := by
  induction leftovers generalizing balances with
  | nil => exact absurd trivial h
  | cons leftover leftovers ih =>
    have hlt := h63 leftover List.mem_cons_self
    have hrest : ∀ other ∈ leftovers, other < 2 ^ 63 :=
      fun other hmem => h63 other (List.mem_cons_of_mem leftover hmem)
    have hnext := inWord_expireOne hword leftover
    have hheld : 0 < held balances := Nat.pos_of_ne_zero fun hzero => h (.inl hzero)
    by_cases hle : leftover ≤ held balances
    · have hnot : ¬ Fits (held (expireOne balances leftover)) leftovers := by
        rw [held_expireOne hword (by omega) hle]
        exact fun hfits => h (.inr ⟨hle, hfits⟩)
      obtain ⟨name, hbefore, hafter⟩ := ih hnext hrest hnot
      exact ⟨name, hbefore.trans (getD_expireOne_le hword leftover name), hafter⟩
    · obtain ⟨name, hbefore, hafter⟩ := exists_negative hword hlt hheld (by omega)
      exact ⟨name, hbefore.le, (getD_expire_le hnext leftovers name).trans_lt hafter⟩

/-! ## Over a run -/

/-- The amounts the provider reports are `u64`. -/
def LedgerCall.InWord : LedgerCall → Prop
  | .reconcile s => ∀ package ∈ s.packages, package.available < 2 ^ 64
  | _ => True

instance decidableInWord : ∀ c : LedgerCall, Decidable c.InWord
  | .reconcile s => inferInstanceAs (Decidable (∀ package ∈ s.packages, package.available < 2 ^ 64))
  | .transfer .. => isTrue trivial
  | .allocate .. => isTrue trivial

namespace Book

/-- What holds of every fetched package, whatever its status, holds of every recorded one. -/
def Recorded (book : Book) (P : Package → Prop) : Prop :=
  ∀ (id : String) (record : PackageRecord), book.packages[id]? = some record → P record.package

section Recorded
variable {P : Package → Prop} (hmissing : ∀ package, P package → P { package with status := "Missing" })
include hmissing

theorem recorded_arrived {book : Book} {s : Sync} (h : book.Recorded P)
    (hs : ∀ package ∈ s.packages, P package) {id : String} {record : PackageRecord}
    (hrecord : (book.arrived s)[id]? = some record) : P record.package := by
  rw [arrived, arrivals_lookup] at hrecord
  cases hfetched : fetchedPackage s.packages id with
  | some package =>
    rw [hfetched] at hrecord
    obtain rfl := Option.some.inj hrecord
    exact hs package (fetchedPackage_some hfetched).1
  | none =>
    rw [hfetched] at hrecord
    obtain ⟨old, hold, rfl⟩ := Option.map_eq_some_iff.mp hrecord
    unfold PackageRecord.markMissing
    split
    · exact hmissing _ (h id old hold)
    · exact h id old hold

theorem recorded_sync {book : Book} {s : Sync} (h : book.Recorded P)
    (hs : ∀ package ∈ s.packages, P package) : (book.sync s).1.Recorded P := by
  intro id record hrecord
  cases hmigrated : book.migrated with
  | true =>
    rw [sync_packages_lookup hmigrated] at hrecord
    obtain ⟨old, hold, rfl⟩ := Option.map_eq_some_iff.mp hrecord
    rw [PackageRecord.credited_package]
    exact recorded_arrived hmissing h hs hold
  | false =>
    rw [sync, reconcile, if_neg (by simp [hmigrated]), migrate] at hrecord
    simp only [foldl_openMember_fields] at hrecord
    rw [foldl_migrated_lookup] at hrecord
    cases hfetched : fetchedPackage s.packages id with
    | some package =>
      rw [hfetched] at hrecord
      obtain rfl := Option.some.inj hrecord
      exact hs package (fetchedPackage_some hfetched).1
    | none =>
      rw [hfetched] at hrecord
      exact h id record hrecord

end Recorded

/-- A manual operation, refused or not, leaves the packages alone. -/
theorem call_packages {book : Book} {c : LedgerCall} (h : ∀ s, c ≠ .reconcile s) :
    (book.call c).packages = book.packages := by
  cases c with
  | reconcile s => exact absurd rfl (h s)
  | transfer members sender receiver amount now =>
    rcases book.transfer_cases members sender receiver amount now with
      ⟨e, -, hcall⟩ | ⟨source, -, ⟨e, -, hcall⟩ | ⟨-, hcall⟩⟩
    · rw [call, hcall]
    · rw [call, hcall]
      exact book.join_packages members
    · rw [call, hcall]
      exact book.join_packages members
  | allocate members receiver amount now =>
    rcases book.allocate_cases members receiver amount now with
      ⟨e, -, hcall⟩ | ⟨names, total, -, hcall⟩
    · rw [call, hcall]
    · rw [call, hcall]
      exact book.join_packages members

theorem recorded_calls {P : Package → Prop}
    (hmissing : ∀ package, P package → P { package with status := "Missing" })
    {run : List LedgerCall} {book : Book} (h : book.Recorded P)
    (hrun : ∀ s, .reconcile s ∈ run → ∀ package ∈ s.packages, P package) :
    (book.calls run).Recorded P := by
  induction run generalizing book with
  | nil => exact h
  | cons c run ih =>
    refine ih ?_ fun s hs => hrun s (List.mem_cons_of_mem c hs)
    cases c with
    | reconcile s => exact recorded_sync hmissing h (hrun s List.mem_cons_self)
    | transfer members sender receiver amount now =>
      intro id record hrecord
      rw [call_packages (by intro s; simp)] at hrecord
      exact h id record hrecord
    | allocate members receiver amount now =>
      intro id record hrecord
      rw [call_packages (by intro s; simp)] at hrecord
      exact h id record hrecord

theorem inWord_call {book : Book} (h : InWord book.balances) (c : LedgerCall) :
    InWord (book.call c).balances := by
  cases c with
  | reconcile s => exact inWord_sync h s
  | transfer members sender receiver amount now =>
    have hjoined := inWord_join h members
    rcases book.transfer_cases members sender receiver amount now with
      ⟨e, -, hcall⟩ | ⟨source, -, ⟨e, -, hcall⟩ | ⟨-, hcall⟩⟩
    · simpa only [call, hcall] using h
    · simpa only [call, hcall] using hjoined
    · simp only [call, hcall]
      exact inWord_adjust (inWord_adjust hjoined _ _) _ _
  | allocate members receiver amount now =>
    rcases book.allocate_cases members receiver amount now with
      ⟨e, -, hcall⟩ | ⟨names, granted, -, hcall⟩
    · simpa only [call, hcall] using h
    · simp only [call, hcall]
      exact inWord_postWordAll (inWord_join h members) _

theorem inWord_calls {book : Book} (h : InWord book.balances) (run : List LedgerCall) :
    InWord (book.calls run).balances := by
  induction run generalizing book with
  | nil => exact h
  | cons c run ih => exact ih (inWord_call h c)

theorem inWord_empty : InWord (∅ : BTreeMap Int) := by
  intro name
  simp

theorem inWord_afterCharges {book : Book} (h : InWord book.balances) (s : Sync) :
    InWord (book.afterCharges s) :=
  inWord_postWordAll (inWord_postWordAll (inWord_join h s.members) _) _

/-- The leftovers a sync forfeits, in the order of the package ids. -/
def expiring (book : Book) (s : Sync) : List Nat :=
  (forfeited s.packages book.packages).map Prod.snd

theorem expiring_lt {book : Book} {bound : Nat}
    (h : book.Recorded fun package => package.available < bound) (s : Sync) :
    ∀ leftover ∈ book.expiring s, leftover < bound := by
  intro leftover hleftover
  obtain ⟨forfeit, hforfeit, rfl⟩ := List.mem_map.mp hleftover
  obtain ⟨row, hrow, hsome⟩ := List.mem_filterMap.mp hforfeit
  obtain ⟨-, -, rfl⟩ := forfeitedRow_eq_some_iff.mp hsome
  have hrecord := h row.1 row.2 (mem_toList.mp (List.mem_of_mem_filter hrow))
  dsimp only at hrecord ⊢
  unfold PackageRecord.leftover
  split <;> omega

/-- In every book a run leaves: a sync whose leftovers fit into the positive balances before
the expiry step takes nothing that is not there, and one whose leftovers do not leaves somebody
with a negative balance who had none before the step. -/
theorem forfeits_within (run : List LedgerCall) (s : Sync) (hwords : ∀ c ∈ run, c.InWord) :
    let book := ({} : Book).calls run
    let before := book.afterCharges s
    let after := (book.calibrateSync s).1.balances
    (Fits (held before) (book.expiring s) →
      ForfeitsWithin before (book.expiring s) ∧
        ∀ name, before.getD name 0 - after.getD name 0 ≤ max (before.getD name 0) 0) ∧
    ((∀ leftover ∈ book.expiring s, leftover < 2 ^ 63) →
      ¬ Fits (held before) (book.expiring s) →
        ∃ name, 0 ≤ before.getD name 0 ∧ after.getD name 0 < 0) := by
  intro book before after
  have hbefore : InWord before := inWord_afterCharges (inWord_calls inWord_empty run) s
  have hafter : after = expire before (book.expiring s) := by
    change (book.calibrateSync s).1.balances = _
    rw [calibrateSync_fst]
    rfl
  have hrecorded : book.Recorded fun package => package.available < 2 ^ 64 := by
    refine recorded_calls (fun _ h => h) ?_ ?_
    · intro id record hrecord
      simp at hrecord
    · intro t ht
      exact hwords (.reconcile t) ht
  have h64 := expiring_lt hrecorded s
  constructor
  · intro hfits
    have hwithin := forfeitsWithin_of_fits hbefore h64 hfits
    refine ⟨hwithin, ?_⟩
    intro name
    rw [hafter]
    exact hwithin.each name
  · intro h63 hfits
    rw [hafter]
    exact exists_negative_of_not_fits hbefore h63 hfits

/-! ## A leftover that nobody covers -/

/-- A package of 100 with `available` of it left. -/
def hundred (id status : String) (available : Nat) : Package :=
  ⟨id, "", "", 100, available, status, ""⟩

/-- The one user holds the migrated `p`, and uses 60 of it. -/
def drained : List LedgerCall :=
  [.reconcile ⟨[hundred "p" "Effective" 100], [⟨"a", 0, none⟩], {}, 0⟩,
    .reconcile ⟨[hundred "p" "Effective" 40], [⟨"a", 60, none⟩], {}, 1⟩]

def expireDrained : Sync := ⟨[hundred "p" "Expired" 40], [⟨"a", 60, none⟩], {}, 2⟩

/-- The 40 left are all the user holds. -/
theorem forfeits_within_drained :
    let book := ({} : Book).calls drained
    ForfeitsWithin (book.afterCharges expireDrained) (book.expiring expireDrained) :=
  ((forfeits_within drained expireDrained (by decide)).1 (by decide +kernel)).1

/-- The one user holds the migrated `p`, and uses 60 of an unlisted `q`. -/
def drainedElsewhere : List LedgerCall :=
  [.reconcile ⟨[hundred "p" "Effective" 100], [⟨"a", 0, none⟩], {}, 0⟩,
    .reconcile ⟨[hundred "p" "Effective" 100, hundred "q" "Effective" 100],
      [⟨"a", 0, none⟩], {}, 1⟩,
    .reconcile ⟨[hundred "p" "Effective" 100, hundred "q" "Effective" 40],
      [⟨"a", 60, none⟩], {}, 2⟩]

def expireUnused : Sync :=
  ⟨[hundred "p" "Expired" 100, hundred "q" "Effective" 40], [⟨"a", 60, none⟩], {}, 3⟩

/-- All 100 of `p` are taken from the 40 that are held, which leaves 60 less than nothing. -/
theorem not_forfeitsWithin_drainedElsewhere :
    ¬ ∀ (run : List LedgerCall) (s : Sync), (∀ c ∈ run, c.InWord) →
      let book := ({} : Book).calls run
      ForfeitsWithin (book.afterCharges s) (book.expiring s) ∧
        ∀ name, 0 ≤ (book.afterCharges s).getD name 0 →
          0 ≤ (book.calibrateSync s).1.balances.getD name 0 := by
  intro hclaim
  have hheld := (hclaim drainedElsewhere expireUnused (by decide)).2 "a" (by decide +kernel)
  have hafter : ((({} : Book).calls drainedElsewhere).calibrateSync expireUnused).1.balances.getD
      "a" 0 = -60 := by decide +kernel
  rw [hafter] at hheld
  exact absurd hheld (by decide)

end Book

end PortsBox
