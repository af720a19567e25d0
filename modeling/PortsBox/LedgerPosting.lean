import PortsBox.LedgerSplit
import PortsBox.Lib.Accounts

/-!
# Every balance change of `reconcile` is a list of postings

Crediting, charging and forfeiting each post to the balances; this file names
the postings, and computes what they add up to.
-/

set_option autoImplicit false

namespace PortsBox

open Word Accounts MapSum

theorem signed_of_lt {n : Nat} (h : n < 2 ^ 63) : signed n = n := by
  unfold signed
  omega

theorem signed_nonneg (n : Nat) : 0 ≤ signed n := by
  unfold signed
  omega

theorem signed_lt (n : Nat) : signed n < 2 ^ 63 := by
  unfold signed
  omega

theorem signed_le (n : Nat) : signed n ≤ n := by
  unfold signed
  omega

theorem adjust_eq_postWord (balances : BTreeMap Int) (name : String) (x : Int) :
    adjust balances name x = postWord 64 balances (name, x) := rfl

/-! ## Payments -/

def gains (payees : List (String × Nat)) : List (String × Int) :=
  payees.map fun payee => (payee.1, signed payee.2)

def debits (payees : List (String × Nat)) : List (String × Int) :=
  payees.map fun payee => (payee.1, -signed payee.2)

section Amounts
variable {payees : List (String × Nat)} (h : (payees.map Prod.snd).sum < 2 ^ 63)
include h

theorem amount_gains : amount (gains payees) = ((payees.map Prod.snd).sum : Nat) := by
  induction payees with
  | nil => rfl
  | cons payee payees ih =>
    simp only [List.map_cons, List.sum_cons] at h
    have htail := ih (by omega)
    have hhead : signed payee.2 = payee.2 := signed_of_lt (by omega)
    change signed payee.2 + amount (gains payees) = _
    rw [htail, hhead, List.map_cons, List.sum_cons, Nat.cast_add]

theorem volume_gains : volume (gains payees) = (payees.map Prod.snd).sum := by
  induction payees with
  | nil => rfl
  | cons payee payees ih =>
    simp only [List.map_cons, List.sum_cons] at h
    have htail := ih (by omega)
    have hhead : signed payee.2 = payee.2 := signed_of_lt (by omega)
    change (signed payee.2).natAbs + volume (gains payees) = _
    rw [htail, hhead, List.map_cons, List.sum_cons, Int.natAbs_natCast]

theorem amount_debits : amount (debits payees) = -((payees.map Prod.snd).sum : Nat) := by
  have hneg : amount (debits payees) = -amount (gains payees) := by
    clear h
    induction payees with
    | nil => rfl
    | cons payee payees ih =>
      change -signed payee.2 + amount (debits payees) =
        -(signed payee.2 + amount (gains payees))
      omega
  rw [hneg, amount_gains h]

theorem volume_debits : volume (debits payees) = (payees.map Prod.snd).sum := by
  have hneg : volume (debits payees) = volume (gains payees) := by
    simp [debits, gains, volume, Function.comp_def]
  rw [hneg, volume_gains h]

end Amounts

/-! ## Crediting -/

/-- Who is paid for one record. -/
def payeesOf (assignments : Assignments) (names : List String) (row : String × PackageRecord) :
    List (String × Nat) :=
  match creditNow assignments names row.1 row.2 with
  | none => []
  | some (_, payees) => payees

def creditPostings (assignments : Assignments) (names : List String)
    (rows : List (String × PackageRecord)) : List (String × Int) :=
  rows.flatMap fun row => gains (payeesOf assignments names row)

def creditEntries (assignments : Assignments) (names : List String) (now : Int)
    (rows : List (String × PackageRecord)) : List Entry :=
  rows.flatMap fun row => (payeesOf assignments names row).map (creditEntry now row.1)

theorem foldl_creditPayee (now : Int) (id : String) (payees : List (String × Nat)) (acc : Posted) :
    payees.foldl (creditPayee now id) acc =
      (postWordAll 64 acc.1 (gains payees), acc.2 ++ payees.map (creditEntry now id)) := by
  induction payees generalizing acc with
  | nil => simp [gains, postWordAll]
  | cons payee payees ih =>
    rw [List.foldl_cons, ih]
    simp [creditPayee, gains, postWordAll, adjust_eq_postWord]

theorem creditRow_eq (assignments : Assignments) (names : List String) (now : Int) (acc : Posted)
    (row : String × PackageRecord) :
    creditRow assignments names now acc row =
      (postWordAll 64 acc.1 (gains (payeesOf assignments names row)),
        acc.2 ++ (payeesOf assignments names row).map (creditEntry now row.1)) := by
  unfold creditRow payeesOf
  cases creditNow assignments names row.1 row.2 with
  | none => simp [gains, postWordAll]
  | some credited => exact foldl_creditPayee now row.1 credited.2 acc

theorem creditAll_eq (assignments : Assignments) (names : List String) (now : Int)
    (records : BTreeMap PackageRecord) (balances : BTreeMap Int) :
    creditAll assignments names now records balances =
      (postWordAll 64 balances (creditPostings assignments names records.toList),
        creditEntries assignments names now records.toList) := by
  have hgo : ∀ (rows : List (String × PackageRecord)) (acc : Posted),
      rows.foldl (creditRow assignments names now) acc =
        (postWordAll 64 acc.1 (creditPostings assignments names rows),
          acc.2 ++ creditEntries assignments names now rows) := by
    intro rows
    induction rows with
    | nil => simp [creditPostings, creditEntries, postWordAll]
    | cons row rows ih =>
      intro acc
      rw [List.foldl_cons, ih, creditRow_eq]
      simp [creditPostings, creditEntries, postWordAll, List.append_assoc]
  exact hgo records.toList (balances, [])

/-- The credit a record gets in this sync, if any. -/
def creditDue (assignments : Assignments) (names : List String) (id : String)
    (record : PackageRecord) : Option Credit :=
  (creditNow assignments names id record).map Prod.fst

/-- Everything the crediting loop can do with one record. -/
theorem creditNow_cases (assignments : Assignments) (names : List String) (id : String)
    (record : PackageRecord) :
    creditNow assignments names id record = none ∨
    (record.credit = none ∧ record.package.effective = true ∧
      ((∃ owner ∈ names, assignments.owners[id]? = some owner ∧
          creditNow assignments names id record =
            some (.user owner, [(owner, record.package.total)])) ∨
        (names ≠ [] ∧ (assignments.exclusive = true ∨ id ∈ assignments.split) ∧
          creditNow assignments names id record =
            some (.split, names.zip (splitEvenly record.package.total names.length))))) := by
  by_cases hskip : (record.credit.isSome || !record.package.effective) = true
  · exact Or.inl (if_pos hskip)
  · have hrun : record.credit = none ∧ record.package.effective = true := by
      simpa using hskip
    cases howner : assignments.owners[id]?.filter names.contains with
    | some owner =>
      obtain ⟨hid, hmem⟩ := Option.filter_eq_some_iff.mp howner
      refine Or.inr ⟨hrun.1, hrun.2, Or.inl ⟨owner, by simpa using hmem, hid, ?_⟩⟩
      simp [creditNow, hskip, howner]
    | none =>
      by_cases hsplit : ((assignments.exclusive || id ∈ assignments.split) &&
          !names.isEmpty) = true
      · refine Or.inr ⟨hrun.1, hrun.2, Or.inr ⟨?_, ?_, ?_⟩⟩
        · simpa using (Bool.and_eq_true_iff.mp hsplit).2
        · simpa using (Bool.and_eq_true_iff.mp hsplit).1
        · simp only [creditNow, if_neg hskip, howner, if_pos hsplit]
      · left
        simp only [creditNow, if_neg hskip, howner, if_neg hsplit]

/-- Only members are paid. -/
theorem payeesOf_mem {assignments : Assignments} {names : List String}
    {row : String × PackageRecord} {payee : String × Nat}
    (h : payee ∈ payeesOf assignments names row) : payee.1 ∈ names := by
  unfold payeesOf at h
  rcases creditNow_cases assignments names row.1 row.2 with
    hnone | ⟨_, _, ⟨owner, howner, _, huser⟩ | ⟨_, _, hsplit⟩⟩
  · rw [hnone] at h
    exact absurd h List.not_mem_nil
  · rw [huser] at h
    rw [List.mem_singleton.mp h]
    exact howner
  · rw [hsplit] at h
    exact (List.of_mem_zip h).1

/-- What the crediting loop pays out for one record. -/
def creditedFor (assignments : Assignments) (names : List String) (id : String)
    (record : PackageRecord) : Nat :=
  if (creditDue assignments names id record).isSome then record.package.total else 0

theorem payeesOf_sum {assignments : Assignments} {names : List String}
    {row : String × PackageRecord} (h : creditedFor assignments names row.1 row.2 < 2 ^ 63) :
    ((payeesOf assignments names row).map Prod.snd).sum =
      creditedFor assignments names row.1 row.2 := by
  unfold payeesOf
  unfold creditedFor creditDue at *
  rcases creditNow_cases assignments names row.1 row.2 with
    hnone | ⟨_, _, ⟨owner, _, _, huser⟩ | ⟨hnames, _, hsplit⟩⟩
  · simp [hnone]
  · simp [huser]
  · have hsnd : (names.zip (splitEvenly row.2.package.total names.length)).map Prod.snd =
        splitEvenly row.2.package.total names.length :=
      List.map_snd_zip (by simp)
    simp only [hsplit, Option.map_some, Option.isSome_some, if_true] at h ⊢
    rw [hsnd, splitEvenly_sum (by omega) (List.length_pos_iff.mpr hnames)]

/-- The total of the records the crediting loop credits. -/
def creditedNow (assignments : Assignments) (names : List String)
    (rows : List (String × PackageRecord)) : Nat :=
  (rows.map fun row => creditedFor assignments names row.1 row.2).sum

theorem creditPostings_amounts (assignments : Assignments) (names : List String)
    (rows : List (String × PackageRecord))
    (h : creditedNow assignments names rows < 2 ^ 63) :
    amount (creditPostings assignments names rows) = creditedNow assignments names rows ∧
      volume (creditPostings assignments names rows) = creditedNow assignments names rows := by
  induction rows with
  | nil => exact ⟨rfl, rfl⟩
  | cons row rows ih =>
    have hsplit : creditedNow assignments names (row :: rows) =
        creditedFor assignments names row.1 row.2 + creditedNow assignments names rows :=
      List.sum_cons
    have hrow : ((payeesOf assignments names row).map Prod.snd).sum =
        creditedFor assignments names row.1 row.2 := payeesOf_sum (by omega)
    have htail := ih (by omega)
    have hcons : creditPostings assignments names (row :: rows) =
        gains (payeesOf assignments names row) ++ creditPostings assignments names rows := rfl
    have hlt : ((payeesOf assignments names row).map Prod.snd).sum < 2 ^ 63 := by omega
    rw [hcons, amount_append, volume_append, amount_gains hlt, volume_gains hlt, htail.1, htail.2,
      hsplit, hrow]
    exact ⟨(Nat.cast_add ..).symm, rfl⟩

/-! ## Charging -/

def chargePostings (members : List Member) (consumed : Nat) (usage : List Nat) :
    List (String × Int) :=
  if 0 < consumed && 0 < meteredOf usage then
    debits ((members.map Member.name).zip (splitBy consumed usage))
  else []

theorem chargeAll_eq (members : List Member) (consumed : Nat) (usage : List Nat)
    (balances : BTreeMap Int) :
    chargeAll members consumed usage balances =
      postWordAll 64 balances (chargePostings members consumed usage) := by
  unfold chargeAll chargePostings
  split
  · rw [debits, postWordAll, List.foldl_map, List.zip_map_left, List.foldl_map]
    rfl
  · rfl

theorem meteredOf_pos (usage : List Nat) : 0 < meteredOf usage ↔ 0 < usage.sum := by
  have hgo : ∀ (usage : List Nat) (acc : Nat),
      0 < usage.foldl (fun total used => clamp 64 (total + used)) acc ↔ 0 < acc + usage.sum := by
    intro usage
    induction usage with
    | nil => simp
    | cons used usage ih =>
      intro acc
      rw [List.foldl_cons, ih, List.sum_cons]
      have hpos : 0 < clamp 64 (acc + used) ↔ 0 < acc + used := clamp_pos (by decide)
      omega
  have hzero := hgo usage 0
  rwa [Nat.zero_add] at hzero

/-- What is charged in all: the whole drop when some member metered traffic. -/
def chargedOf (consumed : Nat) (usage : List Nat) : Nat :=
  if 0 < usage.sum then consumed else 0

theorem chargedOf_le (consumed : Nat) (usage : List Nat) : chargedOf consumed usage ≤ consumed := by
  unfold chargedOf
  split <;> omega

theorem chargePostings_amounts (members : List Member) (consumed : Nat) (usage : List Nat)
    (hlen : usage.length = members.length) (h : consumed < 2 ^ 63) :
    amount (chargePostings members consumed usage) = -(chargedOf consumed usage : Nat) ∧
      volume (chargePostings members consumed usage) = chargedOf consumed usage := by
  unfold chargePostings chargedOf
  simp only [← meteredOf_pos]
  by_cases hmetered : 0 < meteredOf usage
  · by_cases hconsumed : 0 < consumed
    · have hsnd : ((members.map Member.name).zip (splitBy consumed usage)).map Prod.snd =
          splitBy consumed usage := List.map_snd_zip (by simp [hlen])
      have hsum : (splitBy consumed usage).sum = consumed :=
        splitBy_sum (by omega) ((meteredOf_pos usage).mp hmetered)
      have hlt : (((members.map Member.name).zip (splitBy consumed usage)).map Prod.snd).sum <
          2 ^ 63 := by
        rw [hsnd, hsum]
        exact h
      have ha := amount_debits hlt
      have hv := volume_debits hlt
      rw [hsnd, hsum] at ha hv
      simp [hmetered, hconsumed, ha, hv]
    · have hzero : consumed = 0 := by omega
      simp [hzero]
  · simp [hmetered]

/-! ## Forfeiting -/

def lossPostings (leftover : Nat) (balances : BTreeMap Int) : List (String × Int) :=
  debits ((losses leftover balances).filter fun loss => loss.2 ≠ 0)

def expireOne (balances : BTreeMap Int) (leftover : Nat) : BTreeMap Int :=
  postWordAll 64 balances (lossPostings leftover balances)

/-- The balances after the leftovers are forfeited one after the other. -/
def expire (balances : BTreeMap Int) (leftovers : List Nat) : BTreeMap Int :=
  leftovers.foldl expireOne balances

/-- What the leftovers take in all: nothing at a point where no balance is positive. -/
def covered (balances : BTreeMap Int) : List Nat → Nat
  | [] => 0
  | leftover :: leftovers =>
    (if holders balances = [] then 0 else leftover) + covered (expireOne balances leftover) leftovers

theorem foldl_forfeitShare (now : Int) (id : String) (rows : List (String × Nat)) (acc : Posted) :
    rows.foldl (forfeitShare now id) acc =
      (postWordAll 64 acc.1 (debits (rows.filter fun loss => loss.2 ≠ 0)),
        acc.2 ++ (rows.filter fun loss => loss.2 ≠ 0).map (expiryEntry now id)) := by
  induction rows generalizing acc with
  | nil => simp [debits, postWordAll]
  | cons row rows ih =>
    rw [List.foldl_cons, ih]
    by_cases hrow : row.2 = 0
    · simp [forfeitShare, hrow]
    · simp [forfeitShare, hrow, debits, postWordAll, adjust_eq_postWord]

/-- The Expiry entries of the leftovers, each for the balances as they are at that point. -/
def expiries (now : Int) : BTreeMap Int → List (String × Nat) → List Entry
  | _, [] => []
  | balances, row :: rows =>
    ((losses row.2 balances).filter fun loss => loss.2 ≠ 0).map (expiryEntry now row.1) ++
      expiries now (expireOne balances row.2) rows

theorem forfeitAll_eq (now : Int) (rows : List (String × Nat)) (acc : Posted) :
    forfeitAll now rows acc =
      (expire acc.1 (rows.map Prod.snd), acc.2 ++ expiries now acc.1 rows) := by
  induction rows generalizing acc with
  | nil => simp [forfeitAll, expire, expiries]
  | cons row rows ih =>
    have hrow : forfeit now acc row = (expireOne acc.1 row.2,
        acc.2 ++ ((losses row.2 acc.1).filter fun loss => loss.2 ≠ 0).map
          (expiryEntry now row.1)) := by
      rw [forfeit, foldl_forfeitShare]
      rfl
    change forfeitAll now rows (forfeit now acc row) = _
    rw [ih, hrow, expiries, List.append_assoc]
    rfl

theorem holders_weight_pos {balances : BTreeMap Int} (h : holders balances ≠ []) :
    0 < ((holders balances).map Prod.snd).sum := by
  obtain ⟨holder, hmem⟩ := List.exists_mem_of_ne_nil _ h
  obtain ⟨row, hrow, rfl⟩ := List.mem_map.mp hmem
  have hpos : 0 < row.2 := by simpa using (List.mem_filter.mp hrow).2
  have hle : row.2.toNat ≤ ((holders balances).map Prod.snd).sum :=
    List.le_sum_of_mem (List.mem_map.mpr ⟨_, hmem, rfl⟩)
  omega

theorem losses_sum {leftover : Nat} (balances : BTreeMap Int) (h : leftover < 2 ^ 64) :
    ((losses leftover balances).map Prod.snd).sum =
      if holders balances = [] then 0 else leftover := by
  have hsnd : (losses leftover balances).map Prod.snd =
      splitBy leftover ((holders balances).map Prod.snd) :=
    List.map_snd_zip (by simp)
  rw [hsnd]
  split_ifs with hnil
  · simp [hnil, splitBy]
  · exact splitBy_sum h (holders_weight_pos hnil)

theorem sum_filter_ne_zero (rows : List (String × Nat)) :
    ((rows.filter fun row => row.2 ≠ 0).map Prod.snd).sum = (rows.map Prod.snd).sum := by
  induction rows with
  | nil => rfl
  | cons row rows ih =>
    by_cases hrow : row.2 = 0
    · simpa [hrow] using ih
    · simpa [hrow] using ih

theorem nonzero_losses_sum {leftover : Nat} (balances : BTreeMap Int) (h : leftover < 2 ^ 64) :
    (((losses leftover balances).filter fun loss => loss.2 ≠ 0).map Prod.snd).sum =
      if holders balances = [] then 0 else leftover :=
  (sum_filter_ne_zero _).trans (losses_sum balances h)

theorem nonzero_losses_lt {leftover : Nat} (balances : BTreeMap Int) (h : leftover < 2 ^ 63) :
    (((losses leftover balances).filter fun loss => loss.2 ≠ 0).map Prod.snd).sum < 2 ^ 63 := by
  rw [nonzero_losses_sum balances (show leftover < 2 ^ 64 by omega)]
  split_ifs <;> omega

theorem lossPostings_amounts {leftover : Nat} (balances : BTreeMap Int) (h : leftover < 2 ^ 63) :
    amount (lossPostings leftover balances) =
        -((if holders balances = [] then 0 else leftover : Nat) : Int) ∧
      volume (lossPostings leftover balances) =
        if holders balances = [] then 0 else leftover := by
  have hlt := nonzero_losses_lt balances h
  rw [← nonzero_losses_sum balances (show leftover < 2 ^ 64 by omega)]
  exact ⟨amount_debits hlt, volume_debits hlt⟩

/-- As long as everything fits, the losses are subtracted as they are. -/
theorem expireOne_of_norm {balances : BTreeMap Int} {leftover : Nat}
    (h : norm balances + leftover < 2 ^ 63) :
    volume (lossPostings leftover balances) ≤ leftover ∧
      expireOne balances leftover = postAll balances (lossPostings leftover balances) := by
  have hvolume := (lossPostings_amounts balances (show leftover < 2 ^ 63 by omega)).2
  have hle : volume (lossPostings leftover balances) ≤ leftover := by
    rw [hvolume]
    split_ifs <;> omega
  exact ⟨hle, postWordAll_eq_postAll (by decide) (show _ < 2 ^ 63 by omega)⟩

theorem total_expireOne {balances : BTreeMap Int} {leftover : Nat}
    (h : norm balances + leftover < 2 ^ 63) :
    total (expireOne balances leftover) =
        total balances - (if holders balances = [] then 0 else leftover : Nat) ∧
      norm (expireOne balances leftover) ≤ norm balances + leftover := by
  have hamount := (lossPostings_amounts balances (show leftover < 2 ^ 63 by omega)).1
  obtain ⟨hle, hword⟩ := expireOne_of_norm h
  have hnorm := norm_postAll_le balances (lossPostings leftover balances)
  rw [hword, total_postAll, hamount]
  exact ⟨rfl, by omega⟩

theorem total_expire (balances : BTreeMap Int) (leftovers : List Nat)
    (h : norm balances + leftovers.sum < 2 ^ 63) :
    total (expire balances leftovers) = total balances - (covered balances leftovers : Nat) ∧
      norm (expire balances leftovers) ≤ norm balances + leftovers.sum := by
  induction leftovers generalizing balances with
  | nil => exact ⟨(Int.sub_zero _).symm, le_rfl⟩
  | cons leftover leftovers ih =>
    rw [List.sum_cons] at h ⊢
    have hone : norm balances + leftover < 2 ^ 63 := by omega
    obtain ⟨htotal, hnorm⟩ := total_expireOne hone
    have hmore : norm (expireOne balances leftover) + leftovers.sum < 2 ^ 63 := by omega
    obtain ⟨hrest, hrestNorm⟩ := ih _ hmore
    change total (expire (expireOne balances leftover) leftovers) = _ ∧
      norm (expire (expireOne balances leftover) leftovers) ≤ _
    rw [hrest, htotal, covered]
    push_cast
    exact ⟨by omega, by omega⟩

end PortsBox
