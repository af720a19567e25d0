import PortsBox.LedgerCalls
import PortsBox.QuotaCore

/-!
# Baselines and limits of the book

Whatever changes the book, a baseline it holds afterwards is either the usage of a
member at that moment or the one it held before, and balances stay in `i64`. For a
user whose usage is not below its baseline, what the limit leaves is then what
`transfer` would let the user give away.
-/

set_option autoImplicit false

namespace PortsBox

open Word Accounts
open Std (ExtTreeMap)

namespace Book

/-! ## Where baselines come from -/

/-- Every baseline afterwards is the usage of a member, or was there before. -/
def Rebased (members : List Member) (before after : BTreeMap Nat) : Prop :=
  ∀ name baseline, after[name]? = some baseline →
    (∃ member ∈ members, member.name = name ∧ member.used = baseline) ∨
      before[name]? = some baseline

section Rebased
variable {members : List Member} {before middle after : BTreeMap Nat}

theorem Rebased.refl (members : List Member) (before : BTreeMap Nat) :
    Rebased members before before := fun _ _ h => .inr h

theorem Rebased.trans (hfirst : Rebased members before middle)
    (hsecond : Rebased members middle after) : Rebased members before after := by
  intro name baseline h
  rcases hsecond name baseline h with hmember | hmiddle
  · exact .inl hmember
  · exact hfirst name baseline hmiddle

theorem Rebased.mono {few many : List Member} (h : Rebased few before after)
    (hsub : ∀ member ∈ few, member ∈ many) : Rebased many before after := by
  intro name baseline hafter
  rcases h name baseline hafter with ⟨member, hmem, hnames⟩ | hbefore
  · exact .inl ⟨member, hsub member hmem, hnames⟩
  · exact .inr hbefore

theorem rebased_insert (before : BTreeMap Nat) (member : Member) :
    Rebased [member] before (before.insert member.name member.used) := by
  intro name baseline h
  rw [ExtTreeMap.getElem?_insert] at h
  split at h
  · rename_i heq
    exact .inl ⟨member, List.mem_singleton.mpr rfl, Std.compare_eq_iff_eq.mp heq,
      Option.some.inj h⟩
  · exact .inr h

theorem rebased_insertIfNew (before : BTreeMap Nat) (member : Member) :
    Rebased [member] before (before.insertIfNew member.name member.used) := by
  intro name baseline h
  rw [ExtTreeMap.getElem?_insertIfNew] at h
  split at h
  · rename_i heq
    exact .inl ⟨member, List.mem_singleton.mpr rfl, Std.compare_eq_iff_eq.mp heq.1,
      Option.some.inj h⟩
  · exact .inr h

/-- A loop that handles members one by one. -/
theorem rebased_foldl {S A : Type} (baselines : S → BTreeMap Nat) (member : A → Member)
    (f : S → A → S) (hstep : ∀ s a, Rebased [member a] (baselines s) (baselines (f s a)))
    (rows : List A) (s : S) :
    Rebased (rows.map member) (baselines s) (baselines (rows.foldl f s)) := by
  induction rows generalizing s with
  | nil => exact Rebased.refl _ _
  | cons row rows ih =>
    have hhead : Rebased ((row :: rows).map member) (baselines s) (baselines (f s row)) :=
      (hstep s row).mono (by simp)
    have htail : Rebased ((row :: rows).map member) (baselines (f s row))
        (baselines (rows.foldl f (f s row))) :=
      (ih (f s row)).mono fun other hother => List.mem_cons_of_mem _ hother
    exact hhead.trans htail

end Rebased

theorem join_rebased (book : Book) (members : List Member) :
    Rebased members book.baselines (book.join members).baselines := by
  have h := rebased_foldl Book.baselines id joinMember
    (fun b member => rebased_insertIfNew b.baselines member) members book
  rwa [List.map_id] at h

theorem reconcile_rebased (book : Book) (s : Sync) :
    Rebased s.members book.baselines (book.sync s).1.baselines := by
  cases hmigrated : book.migrated with
  | true =>
    rw [sync_baselines s hmigrated]
    have h := rebased_foldl id id
      (fun baselines member => baselines.insert member.name member.used) rebased_insert s.members
      (book.join s.members).baselines
    rw [List.map_id] at h
    exact (book.join_rebased s.members).trans h
  | false =>
    rw [sync, reconcile, hmigrated, if_neg Bool.false_ne_true]
    let reset : Book := { book with
      migrated := false, remaining := remainingOf s.packages, syncedAt := s.now
      consumed := 0, metered := 0 }
    have h := rebased_foldl Book.baselines Prod.fst openMember
      (fun b opening => rebased_insert b.baselines opening.1)
      (s.members.zip (reset.migrationShares s.members)) reset
    refine h.mono ?_
    intro member hmem
    obtain ⟨opening, hopening, rfl⟩ := List.mem_map.mp hmem
    exact (List.of_mem_zip hopening).1

theorem transfer_rebased {book changed : Book} {members : List Member} {sender receiver : String}
    {amount : Nat} {now : Int} {batch : List Entry}
    (h : book.transfer members sender receiver amount now = (changed, .ok batch)) :
    Rebased members book.baselines changed.baselines := by
  obtain ⟨-, rfl⟩ := transfer_ok h
  exact book.join_rebased members

theorem allocate_rebased {book changed : Book} {members : List Member}
    {receiver : Option String} {amount : Option Nat} {now : Int} {batch : List Entry}
    (h : book.allocate members receiver amount now = (changed, .ok batch)) :
    Rebased members book.baselines changed.baselines := by
  obtain ⟨-, names, total, rfl⟩ := allocate_ok h
  exact book.join_rebased members

/-! ## Balances stay in range -/

/-- No balance is above `i64::MAX`. -/
def InWord (balances : BTreeMap Int) : Prop := ∀ name, balances.getD name 0 < 2 ^ 63

theorem inWord_insert {balances : BTreeMap Int} (h : InWord balances) (name : String) {x : Int}
    (hx : x < 2 ^ 63) : InWord (balances.insert name x) := by
  intro other
  rw [ExtTreeMap.getD_insert]
  split
  · exact hx
  · exact h other

theorem inWord_adjust {balances : BTreeMap Int} (h : InWord balances) (name : String)
    (amount : Int) : InWord (adjust balances name amount) := by
  refine inWord_insert h name ?_
  have hlt := Int.bmod_lt (x := balances.getD name 0 + amount) (m := 2 ^ 64) (by decide)
  unfold swrap
  omega

theorem inWord_postWordAll {balances : BTreeMap Int} (h : InWord balances)
    (postings : List (String × Int)) : InWord (postWordAll 64 balances postings) := by
  unfold postWordAll
  induction postings generalizing balances with
  | nil => exact h
  | cons posting postings ih => exact ih (inWord_adjust h posting.1 posting.2)

theorem inWord_join {book : Book} (h : InWord book.balances) (members : List Member) :
    InWord (book.join members).balances := by
  intro name
  rw [getD_join_balances]
  exact h name

theorem inWord_expire {balances : BTreeMap Int} (h : InWord balances) (leftovers : List Nat) :
    InWord (expire balances leftovers) := by
  unfold expire
  induction leftovers generalizing balances with
  | nil => exact h
  | cons leftover leftovers ih => exact ih (inWord_postWordAll h _)

theorem inWord_foldl_openMember {book : Book} (h : InWord book.balances)
    (openings : List (Member × Nat)) : InWord (openings.foldl openMember book).balances := by
  induction openings generalizing book with
  | nil => exact h
  | cons opening openings ih => exact ih (inWord_insert h opening.1.name (signed_lt opening.2))

theorem inWord_sync {book : Book} (h : InWord book.balances) (s : Sync) :
    InWord (book.sync s).1.balances := by
  cases hmigrated : book.migrated with
  | true =>
    have hcalibrated : InWord (book.calibrateSync s).1.balances := by
      rw [calibrateSync_fst]
      exact inWord_expire (inWord_postWordAll (inWord_postWordAll (inWord_join h s.members) _) _) _
    rw [sync_fst book s hmigrated]
    unfold sweepExclusive
    split
    · exact inWord_adjust hcalibrated _ _
    · exact hcalibrated
  | false =>
    rw [sync, reconcile, hmigrated, if_neg Bool.false_ne_true]
    let reset : Book := { book with
      migrated := false, remaining := remainingOf s.packages, syncedAt := s.now
      consumed := 0, metered := 0 }
    have hreset : InWord reset.balances := h
    exact inWord_foldl_openMember hreset _

theorem inWord_transfer {book changed : Book} {members : List Member} {sender receiver : String}
    {amount : Nat} {now : Int} {batch : List Entry} (hword : InWord book.balances)
    (h : book.transfer members sender receiver amount now = (changed, .ok batch)) :
    InWord changed.balances := by
  obtain ⟨-, rfl⟩ := transfer_ok h
  exact inWord_adjust (inWord_adjust (inWord_join hword members) _ _) _ _

theorem inWord_allocate {book changed : Book} {members : List Member}
    {receiver : Option String} {amount : Option Nat} {now : Int} {batch : List Entry}
    (hword : InWord book.balances)
    (h : book.allocate members receiver amount now = (changed, .ok batch)) :
    InWord changed.balances := by
  obtain ⟨-, names, total, rfl⟩ := allocate_ok h
  exact inWord_postWordAll (inWord_join hword members) _

/-! ## What a limit leaves -/

/-- What is left of a limit that is not cut off, once the usage has reached the baseline: at most
the balance, and just what `transfer` counts as spendable. -/
theorem left_eq_spendable {book : Book} {name : String} {baseline limit used : Nat}
    (hbaseline : book.baselines[name]? = some baseline) (hlimit : book.limit name = some limit)
    (hbound : limit < noLimit) (hword : InWord book.balances) (hused : baseline ≤ used)
    (offlineRemaining : Option Nat) :
    limit - used ≤ (max (book.balances.getD name 0) 0).toNat ∧
      ((limit - used : Nat) : Int) = max (book.spendable ⟨name, used, offlineRemaining⟩) 0 := by
  have hlt := hword name
  unfold Book.limit at hlimit
  rw [hbaseline, Option.map_some] at hlimit
  have hexact : limit = baseline + (max (book.balances.getD name 0) 0).toNat := by
    have hcut := Option.some.inj hlimit
    unfold clamp at hcut
    unfold noLimit at hbound
    omega
  have hgetD : book.baselines.getD name 0 = baseline := by
    rw [ExtTreeMap.getD_eq_getD_getElem?, hbaseline]
    rfl
  unfold spendable signed sclamp
  dsimp only
  rw [hgetD]
  generalize book.balances.getD name 0 = balance at *
  subst hexact
  constructor
  · omega
  · omega

end Book

end PortsBox
