import PortsBox.Lib.MapSum
import PortsBox.Lib.Word

/-!
# Accounts and postings

An account map holds a signed amount per key. A posting adds an amount to one
account. `post` does it over the integers and `postWord` in signed `w`-bit words.
As long as the amounts held and posted stay below `2 ^ (w - 1)` in absolute
value the two agree, and what is true of whole postings is true of the words.
-/

set_option autoImplicit false

namespace PortsBox.Accounts

open Std (ExtTreeMap TransOrd LawfulEqOrd)
open MapSum Word

universe u

variable {K : Type u} [Ord K] [TransOrd K] [LawfulEqOrd K] [DecidableEq K]

def post (accounts : ExtTreeMap K Int) (posting : K × Int) : ExtTreeMap K Int :=
  accounts.insert posting.1 (accounts.getD posting.1 0 + posting.2)

def postWord (w : Nat) (accounts : ExtTreeMap K Int) (posting : K × Int) : ExtTreeMap K Int :=
  accounts.insert posting.1 (swrap w (accounts.getD posting.1 0 + posting.2))

def postAll (accounts : ExtTreeMap K Int) (postings : List (K × Int)) : ExtTreeMap K Int :=
  postings.foldl post accounts

def postWordAll (w : Nat) (accounts : ExtTreeMap K Int) (postings : List (K × Int)) :
    ExtTreeMap K Int := postings.foldl (postWord w) accounts

/-- The sum of all accounts. -/
def total (accounts : ExtTreeMap K Int) : Int := sumBy (fun _ x => x) accounts

/-- The sum of their absolute values. -/
def norm (accounts : ExtTreeMap K Int) : Nat := sumBy (fun _ x => x.natAbs) accounts

/-- The amounts posted, in sum and in absolute sum. -/
def amount (postings : List (K × Int)) : Int := (postings.map Prod.snd).sum

def volume (postings : List (K × Int)) : Nat := (postings.map fun p => p.2.natAbs).sum

/-- What a list of postings adds to one account. -/
def amountFor (k : K) (postings : List (K × Int)) : Int :=
  ((postings.filter fun p => p.1 = k).map Prod.snd).sum

section Shape
omit [Ord K] [TransOrd K] [LawfulEqOrd K] [DecidableEq K]

@[simp] theorem amount_nil : amount ([] : List (K × Int)) = 0 := rfl

@[simp] theorem amount_cons (p : K × Int) (ps : List (K × Int)) :
    amount (p :: ps) = p.2 + amount ps := List.sum_cons

theorem amount_append (ps qs : List (K × Int)) : amount (ps ++ qs) = amount ps + amount qs := by
  simp [amount]

@[simp] theorem volume_nil : volume ([] : List (K × Int)) = 0 := rfl

@[simp] theorem volume_cons (p : K × Int) (ps : List (K × Int)) :
    volume (p :: ps) = p.2.natAbs + volume ps := List.sum_cons

theorem volume_append (ps qs : List (K × Int)) : volume (ps ++ qs) = volume ps + volume qs := by
  simp [volume]

variable [DecidableEq K]

@[simp] theorem amountFor_nil (k : K) : amountFor k [] = 0 := rfl

theorem amountFor_cons (k : K) (p : K × Int) (ps : List (K × Int)) :
    amountFor k (p :: ps) = (if p.1 = k then p.2 else 0) + amountFor k ps := by
  unfold amountFor
  split <;> simp [*]

theorem amountFor_append (k : K) (ps qs : List (K × Int)) :
    amountFor k (ps ++ qs) = amountFor k ps + amountFor k qs := by
  simp [amountFor]

theorem amountFor_eq_amount {k : K} {ps : List (K × Int)} (h : ∀ p ∈ ps, p.1 = k) :
    amountFor k ps = amount ps := by
  have hall : (ps.filter fun p => p.1 = k) = ps :=
    List.filter_eq_self.mpr fun p hp => by simpa using h p hp
  rw [amountFor, hall, amount]

theorem amountFor_of_notMem {k : K} {ps : List (K × Int)} (h : k ∉ ps.map Prod.fst) :
    amountFor k ps = 0 := by
  have hnil : (ps.filter fun p => p.1 = k) = [] := by
    rw [List.filter_eq_nil_iff]
    intro p hp heq
    exact h (of_decide_eq_true heq ▸ List.mem_map_of_mem hp)
  rw [amountFor, hnil]
  rfl

/-- What a list that names each account once posts to one of them. -/
theorem amountFor_of_mem {ps : List (K × Int)} (hnames : (ps.map Prod.fst).Nodup) {p : K × Int}
    (hp : p ∈ ps) : amountFor p.1 ps = p.2 := by
  induction ps with
  | nil => exact absurd hp List.not_mem_nil
  | cons q ps ih =>
    rw [List.map_cons, List.nodup_cons] at hnames
    rw [amountFor_cons]
    rcases List.mem_cons.mp hp with rfl | htail
    · rw [if_pos rfl, amountFor_of_notMem hnames.1, Int.add_zero]
    · have hne : q.1 ≠ p.1 := fun heq => hnames.1 (heq ▸ List.mem_map_of_mem htail)
      rw [if_neg hne, ih hnames.2 htail, Int.zero_add]

end Shape

omit [LawfulEqOrd K] [DecidableEq K] in
theorem summand_eq_getD (accounts : ExtTreeMap K Int) (k : K) :
    summand (fun _ x => x) accounts k = accounts.getD k 0 := by
  rw [ExtTreeMap.getD_eq_getD_getElem?]
  cases h : accounts[k]? <;> simp [summand, h]

omit [LawfulEqOrd K] [DecidableEq K] in
theorem summand_natAbs (accounts : ExtTreeMap K Int) (k : K) :
    summand (fun _ (x : Int) => x.natAbs) accounts k = (accounts.getD k 0).natAbs := by
  rw [ExtTreeMap.getD_eq_getD_getElem?]
  cases h : accounts[k]? <;> simp [summand, h]

theorem natAbs_getD_le_norm (accounts : ExtTreeMap K Int) (k : K) :
    (accounts.getD k 0).natAbs ≤ norm accounts := by
  have hs := sumBy_split (fun _ (x : Int) => x.natAbs) accounts k
  have hk := summand_natAbs accounts k
  unfold norm
  omega

/-- One account and the rest of them. -/
theorem natAbs_others_le (accounts : ExtTreeMap K Int) (k : K) :
    (total accounts - accounts.getD k 0).natAbs + (accounts.getD k 0).natAbs ≤ norm accounts := by
  have hk := summand_natAbs accounts k
  have hrest : ∀ a, (summand (fun _ (x : Int) => x) accounts a).natAbs =
      summand (fun _ (x : Int) => x.natAbs) accounts a := by
    intro a
    unfold summand
    cases accounts[a]? <;> rfl
  have hle := Int.natAbs_sum_le (accounts.keys.toFinset.erase k)
    (fun a => summand (fun _ (x : Int) => x) accounts a)
  simp only [hrest] at hle
  rw [total, norm, sumBy_split _ accounts k, sumBy_split _ accounts k, hk, summand_eq_getD]
  omega

omit [LawfulEqOrd K] [DecidableEq K] in
theorem natAbs_total_le_norm (accounts : ExtTreeMap K Int) :
    (total accounts).natAbs ≤ norm accounts := by
  rw [total, norm, sumBy, sumBy]
  generalize accounts.toList = rows
  induction rows with
  | nil => simp
  | cons row rows ih =>
    simp only [List.map_cons, List.sum_cons]
    omega

theorem total_post (accounts : ExtTreeMap K Int) (p : K × Int) :
    total (post accounts p) = total accounts + p.2 := by
  have h := sumBy_insert (fun _ (x : Int) => x) accounts p.1 (accounts.getD p.1 0 + p.2)
  rw [summand_eq_getD] at h
  unfold total post
  omega

theorem getD_post (accounts : ExtTreeMap K Int) (p : K × Int) (k : K) :
    (post accounts p).getD k 0 = accounts.getD k 0 + if p.1 = k then p.2 else 0 := by
  rw [post, ExtTreeMap.getD_insert]
  simp only [Std.compare_eq_iff_eq]
  split
  · rename_i h
    rw [h]
  · exact (Int.add_zero _).symm

theorem norm_post_le (accounts : ExtTreeMap K Int) (p : K × Int) :
    norm (post accounts p) ≤ norm accounts + p.2.natAbs := by
  have h := sumBy_insert (fun _ (x : Int) => x.natAbs) accounts p.1 (accounts.getD p.1 0 + p.2)
  rw [summand_natAbs] at h
  unfold norm post
  omega

theorem total_postAll (accounts : ExtTreeMap K Int) (ps : List (K × Int)) :
    total (postAll accounts ps) = total accounts + amount ps := by
  induction ps generalizing accounts with
  | nil => simp [postAll]
  | cons p ps ih =>
    have h := ih (post accounts p)
    rw [total_post] at h
    rw [amount_cons, ← Int.add_assoc, ← h]
    rfl

theorem getD_postAll (accounts : ExtTreeMap K Int) (ps : List (K × Int)) (k : K) :
    (postAll accounts ps).getD k 0 = accounts.getD k 0 + amountFor k ps := by
  induction ps generalizing accounts with
  | nil => simp [postAll]
  | cons p ps ih =>
    have h := ih (post accounts p)
    rw [getD_post] at h
    rw [amountFor_cons, ← Int.add_assoc, ← h]
    rfl

theorem norm_postAll_le (accounts : ExtTreeMap K Int) (ps : List (K × Int)) :
    norm (postAll accounts ps) ≤ norm accounts + volume ps := by
  induction ps generalizing accounts with
  | nil => simp [postAll]
  | cons p ps ih =>
    have h := ih (post accounts p)
    have hp := norm_post_le accounts p
    rw [volume_cons]
    change norm (postAll (post accounts p) ps) ≤ _
    omega

/-- Postings to one open account. -/
theorem postAll_of_single {accounts : ExtTreeMap K Int} {k : K} {ps : List (K × Int)}
    (h : ∀ p ∈ ps, p.1 = k) (hk : k ∈ accounts) :
    postAll accounts ps = accounts.insert k (accounts.getD k 0 + amount ps) := by
  apply ExtTreeMap.ext_getElem?
  intro a
  induction ps generalizing accounts with
  | nil =>
    have hsome := ExtTreeMap.getElem?_eq_some_getElem hk
    rw [ExtTreeMap.getElem?_insert]
    simp only [Std.compare_eq_iff_eq]
    split
    · rename_i heq
      rw [← heq]
      simp [postAll, ExtTreeMap.getD_eq_getD_getElem?, hsome]
    · rfl
  | cons p ps ih =>
    obtain rfl := h p List.mem_cons_self
    have hpost : p.1 ∈ post accounts p := ExtTreeMap.mem_insert_self
    change (postAll (post accounts p) ps)[a]? = _
    rw [ih (fun q hq => h q (List.mem_cons_of_mem p hq)) hpost, getD_post, if_pos rfl, amount_cons,
      Int.add_assoc, post, ExtTreeMap.getElem?_insert, ExtTreeMap.getElem?_insert]
    simp only [ExtTreeMap.getElem?_insert]
    split <;> rfl

/-! ## All accounts but one -/

/-- The sum of all accounts but one. -/
def others (accounts : ExtTreeMap K Int) (k : K) : Int :=
  sumBy (fun a x => if a = k then 0 else x) accounts

theorem others_add_getD (accounts : ExtTreeMap K Int) (k : K) :
    others accounts k + accounts.getD k 0 = total accounts := by
  have hself : summand (fun a (x : Int) => if a = k then 0 else x) accounts k = 0 := by
    unfold summand
    cases accounts[k]? <;> simp
  have hrest : ∀ a ∈ accounts.keys.toFinset.erase k,
      summand (fun a (x : Int) => if a = k then 0 else x) accounts a =
        summand (fun _ x => x) accounts a := by
    intro a ha
    have hne := (Finset.mem_erase.mp ha).1
    unfold summand
    cases accounts[a]? <;> simp [hne]
  rw [others, total, sumBy_split _ accounts k, sumBy_split _ accounts k, hself,
    Finset.sum_congr rfl hrest, summand_eq_getD, zero_add]
  exact add_comm _ _

/-- Postings to one account do not change the others. -/
theorem others_postAll (accounts : ExtTreeMap K Int) (ps : List (K × Int)) (k : K) :
    others (postAll accounts ps) k = others accounts k + (amount ps - amountFor k ps) := by
  have hbefore := others_add_getD accounts k
  have hafter := others_add_getD (postAll accounts ps) k
  rw [total_postAll, getD_postAll] at hafter
  omega

/-! ## Opening an account -/

omit [LawfulEqOrd K] [DecidableEq K] in
theorem getD_open (accounts : ExtTreeMap K Int) (k a : K) :
    (accounts.insertIfNew k 0).getD a 0 = accounts.getD a 0 := by
  rw [ExtTreeMap.getD_insertIfNew]
  split
  · rename_i h
    rw [ExtTreeMap.getD_congr (Std.OrientedCmp.eq_symm h.1), ExtTreeMap.getD_eq_fallback h.2]
  · rfl

/-- Opening an account at zero changes no sum of amounts. -/
theorem sumBy_open {M : Type} [AddCommMonoid M] (f : Int → M) (hf : f 0 = 0)
    (accounts : ExtTreeMap K Int) (k : K) :
    sumBy (fun _ x => f x) (accounts.insertIfNew k 0) = sumBy (fun _ x => f x) accounts := by
  by_cases hk : k ∈ accounts
  · rw [insertIfNew_of_mem hk]
  · have hsame : accounts.insertIfNew k 0 = accounts.insert k 0 := by
      apply ExtTreeMap.ext_getElem?
      intro a
      simp [ExtTreeMap.getElem?_insertIfNew, ExtTreeMap.getElem?_insert, hk]
    have h := sumBy_insert (fun _ x => f x) accounts k 0
    rwa [summand_of_notMem _ hk, hf, add_zero, add_zero, ← hsame] at h

theorem total_open (accounts : ExtTreeMap K Int) (k : K) :
    total (accounts.insertIfNew k 0) = total accounts := sumBy_open id rfl accounts k

theorem norm_open (accounts : ExtTreeMap K Int) (k : K) :
    norm (accounts.insertIfNew k 0) = norm accounts := sumBy_open Int.natAbs rfl accounts k

/-! ## Words -/

variable {w : Nat}

omit [LawfulEqOrd K] [DecidableEq K] in
/-- Posting opens accounts but closes none. -/
theorem mem_postWordAll {accounts : ExtTreeMap K Int} {k : K} (h : k ∈ accounts)
    (ps : List (K × Int)) : k ∈ postWordAll w accounts ps := by
  induction ps generalizing accounts with
  | nil => exact h
  | cons p ps ih => exact ih (ExtTreeMap.mem_insert.mpr (Or.inr h))

omit [LawfulEqOrd K] [DecidableEq K] in
theorem postWord_eq_post_of_natAbs {accounts : ExtTreeMap K Int} {p : K × Int} (hw : 0 < w)
    (h : (accounts.getD p.1 0 + p.2).natAbs < 2 ^ (w - 1)) :
    postWord w accounts p = post accounts p := by
  have hpow : ((2 ^ (w - 1) : Nat) : Int) = 2 ^ (w - 1) := by push_cast; rfl
  rw [postWord, post, swrap_of_bounds hw] <;> omega

theorem postWord_eq_post {accounts : ExtTreeMap K Int} {p : K × Int} (hw : 0 < w)
    (h : norm accounts + p.2.natAbs < 2 ^ (w - 1)) : postWord w accounts p = post accounts p := by
  have hk := natAbs_getD_le_norm accounts p.1
  exact postWord_eq_post_of_natAbs hw (by omega)

theorem postWordAll_eq_postAll {accounts : ExtTreeMap K Int} {ps : List (K × Int)} (hw : 0 < w)
    (h : norm accounts + volume ps < 2 ^ (w - 1)) :
    postWordAll w accounts ps = postAll accounts ps := by
  induction ps generalizing accounts with
  | nil => rfl
  | cons p ps ih =>
    rw [volume_cons] at h
    have hnorm := norm_post_le accounts p
    have hhead : postWord w accounts p = post accounts p := postWord_eq_post hw (by omega)
    change postWordAll w (postWord w accounts p) ps = postAll (post accounts p) ps
    rw [hhead]
    exact ih (by omega)

omit [LawfulEqOrd K] [DecidableEq K] in
theorem ssum_toList {accounts : ExtTreeMap K Int} (hw : 0 < w)
    (h : norm accounts < 2 ^ (w - 1)) :
    ssum w (accounts.toList.map Prod.snd) = total accounts := by
  have hle := natAbs_total_le_norm accounts
  have hpow : ((2 ^ (w - 1) : Nat) : Int) = 2 ^ (w - 1) := by push_cast; rfl
  have hsum : (accounts.toList.map Prod.snd).sum = total accounts := rfl
  rw [ssum_eq_swrap, hsum, swrap_of_bounds hw] <;> omega

/-- Every account is a signed `w`-bit word. -/
def Words (w : Nat) (accounts : ExtTreeMap K Int) : Prop :=
  ∀ k, swrap w (accounts.getD k 0) = accounts.getD k 0

omit [LawfulEqOrd K] [DecidableEq K] in
theorem words_empty (w : Nat) : Words w (∅ : ExtTreeMap K Int) := by
  intro k
  simp

omit [LawfulEqOrd K] [DecidableEq K] in
theorem Words.insert {accounts : ExtTreeMap K Int} (h : Words w accounts) (k : K) {x : Int}
    (hx : swrap w x = x) : Words w (accounts.insert k x) := by
  intro a
  rw [ExtTreeMap.getD_insert]
  split
  · exact hx
  · exact h a

omit [LawfulEqOrd K] [DecidableEq K] in
theorem Words.postWordAll {accounts : ExtTreeMap K Int} (h : Words w accounts)
    (ps : List (K × Int)) : Words w (postWordAll w accounts ps) := by
  induction ps generalizing accounts with
  | nil => exact h
  | cons p ps ih => exact ih (h.insert p.1 (Int.bmod_bmod ..))

/-- What a list of postings leaves in one account, whatever wraps on the way. -/
theorem Words.getD_postWordAll {accounts : ExtTreeMap K Int} (h : Words w accounts)
    (ps : List (K × Int)) (k : K) :
    (Accounts.postWordAll w accounts ps).getD k 0 =
      swrap w (accounts.getD k 0 + amountFor k ps) := by
  induction ps generalizing accounts with
  | nil =>
    rw [amountFor_nil, Int.add_zero]
    exact (h k).symm
  | cons p ps ih =>
    have hhead : (postWord w accounts p).getD k 0 =
        swrap w (accounts.getD k 0 + if p.1 = k then p.2 else 0) := by
      rw [postWord, ExtTreeMap.getD_insert]
      simp only [Std.compare_eq_iff_eq]
      split
      · rename_i heq
        rw [heq]
      · rw [Int.add_zero, h k]
    have hnext : Words w (postWord w accounts p) := h.insert p.1 (Int.bmod_bmod ..)
    change (Accounts.postWordAll w (postWord w accounts p) ps).getD k 0 = _
    rw [ih hnext, hhead, swrap_add_swrap_left, amountFor_cons,
      Int.add_assoc]

omit [LawfulEqOrd K] [DecidableEq K] in
theorem postWordAll_append (accounts : ExtTreeMap K Int) (ps qs : List (K × Int)) :
    postWordAll w accounts (ps ++ qs) = postWordAll w (postWordAll w accounts ps) qs :=
  List.foldl_append

/-! ## Postings that name each account once -/

/-- The sum of the positive accounts. -/
def held (accounts : ExtTreeMap K Int) : Nat := sumBy (fun _ x => x.toNat) accounts

omit [LawfulEqOrd K] [DecidableEq K] in
theorem summand_toNat (accounts : ExtTreeMap K Int) (k : K) :
    summand (fun _ (x : Int) => x.toNat) accounts k = (accounts.getD k 0).toNat := by
  rw [ExtTreeMap.getD_eq_getD_getElem?]
  cases h : accounts[k]? <;> simp [summand, h]

theorem held_post (accounts : ExtTreeMap K Int) (p : K × Int) :
    held (post accounts p) + (accounts.getD p.1 0).toNat =
      held accounts + (accounts.getD p.1 0 + p.2).toNat := by
  have h := sumBy_insert (fun _ (x : Int) => x.toNat) accounts p.1 (accounts.getD p.1 0 + p.2)
  rwa [summand_toNat] at h

/-- Nothing is taken that is not there. -/
def Within (accounts : ExtTreeMap K Int) (ps : List (K × Int)) : Prop :=
  ∀ p ∈ ps, p.2 ≤ 0 ∧ 0 ≤ accounts.getD p.1 0 + p.2

section Named
variable {accounts : ExtTreeMap K Int} {ps : List (K × Int)}

theorem getD_post_of_tail {p q : K × Int} (hnames : ((p :: ps).map Prod.fst).Nodup)
    (hq : q ∈ ps) : (post accounts p).getD q.1 0 = accounts.getD q.1 0 := by
  have hne : p.1 ≠ q.1 := fun heq =>
    (List.nodup_cons.mp hnames).1 (heq ▸ List.mem_map_of_mem hq)
  rw [getD_post, if_neg hne, Int.add_zero]

variable (hnames : (ps.map Prod.fst).Nodup)
include hnames

theorem held_postAll (hwithin : Within accounts ps) :
    (held (postAll accounts ps) : Int) = held accounts + amount ps := by
  induction ps generalizing accounts with
  | nil => simp [postAll]
  | cons p ps ih =>
    obtain ⟨hneg, hroom⟩ := hwithin p List.mem_cons_self
    have htail : Within (post accounts p) ps := by
      intro q hq
      rw [getD_post_of_tail hnames hq]
      exact hwithin q (List.mem_cons_of_mem p hq)
    have hrest := ih (List.nodup_cons.mp hnames).2 htail
    have hhead := held_post accounts p
    change (held (postAll (post accounts p) ps) : Int) = _
    rw [hrest, amount_cons]
    omega

theorem postWordAll_eq_postAll_of_names
    (h : ∀ p ∈ ps, swrap w (accounts.getD p.1 0 + p.2) = accounts.getD p.1 0 + p.2) :
    postWordAll w accounts ps = postAll accounts ps := by
  induction ps generalizing accounts with
  | nil => rfl
  | cons p ps ih =>
    have hhead : postWord w accounts p = post accounts p := by
      rw [postWord, h p List.mem_cons_self, post]
    change postWordAll w (postWord w accounts p) ps = postAll (post accounts p) ps
    rw [hhead]
    apply ih (List.nodup_cons.mp hnames).2
    intro q hq
    rw [getD_post_of_tail hnames hq]
    exact h q (List.mem_cons_of_mem p hq)

end Named

end PortsBox.Accounts
