import PortsBox.LedgerCalls

/-!
# Manual operations

What `transfer` and `allocate` let through, and what they leave: a transfer moves
no more than the sender has left by its limit, an allocation no more than what is
unallocated, and one that is refused changes nothing a user could see.
-/

set_option autoImplicit false

namespace PortsBox

open Word Accounts
open Std (ExtTreeMap)

namespace Book

/-- What the entries say was added to whom. -/
def posted (entries : List Entry) : List (String × Int) :=
  entries.map fun entry => (entry.user, entry.amount)

theorem posted_users (entries : List Entry) :
    (posted entries).map Prod.fst = entries.map Entry.user := by
  rw [posted, List.map_map]
  rfl

theorem amount_posted (entries : List Entry) :
    amount (posted entries) = (entries.map Entry.amount).sum := by
  rw [amount, posted, List.map_map]
  rfl

/-! ## Joining changes nothing for a known user -/

/-- No balance changes, nor the limit of a user the book knows. -/
def Untouched (book changed : Book) (name : String) : Prop :=
  changed.balances.getD name 0 = book.balances.getD name 0 ∧
    (name ∈ book.baselines → changed.limit name = book.limit name)

theorem untouched_of_join {book changed : Book} {members : List Member} {name : String}
    (hbaselines : changed.baselines = (book.join members).baselines)
    (hbalance : changed.balances.getD name 0 = book.balances.getD name 0) :
    book.Untouched changed name := by
  refine ⟨hbalance, ?_⟩
  intro hknown
  have hbaseline := ExtTreeMap.getElem?_eq_some_getElem hknown
  have hkept := book.join_baselines_of_some members hbaseline
  rw [limit, limit, hbaselines, hkept, hbaseline, hbalance]

/-! ## What a member has left -/

/-- Everything the book deals in is below `2 ^ 62`. -/
structure Below (book : Book) : Prop where
  balances : ∀ name, (book.balances.getD name 0).natAbs < 2 ^ 62
  baselines : ∀ name, book.baselines.getD name 0 < 2 ^ 62
  remaining : book.remaining < 2 ^ 62
  unallocated : book.unallocated < 2 ^ 62

/-- What a user has used since the baseline the book has for it, if any. -/
def usedSince (book : Book) (member : Member) : Nat :=
  member.used - book.baselines.getD member.name member.used

section Left
variable {book : Book} {members : List Member} {source : Member}
  (hnames : (members.map Member.name).Nodup) (hmem : source ∈ members)

include hnames hmem in
theorem usedSince_join :
    source.used - (book.join members).baselines.getD source.name 0 = book.usedSince source := by
  unfold usedSince
  simp only [ExtTreeMap.getD_eq_getD_getElem?]
  cases hbaseline : book.baselines[source.name]? with
  | some baseline =>
    rw [book.join_baselines_of_some members hbaseline]
    rfl
  | none =>
    rw [book.join_baselines_of_none members hnames hmem hbaseline]
    rfl

include hnames hmem in
theorem spendable_join (hbook : book.Below) (hused : source.used < 2 ^ 62) :
    (book.join members).spendable source =
      book.balances.getD source.name 0 - book.usedSince source := by
  have hbalance := hbook.balances source.name
  have hle : book.usedSince source ≤ source.used := Nat.sub_le _ _
  rw [spendable, usedSince_join hnames hmem, getD_join_balances, signed_of_lt (by omega)]
  apply sclamp_of_bounds <;> omega

theorem findMember_eq (hnames : (members.map Member.name).Nodup) (hmem : source ∈ members) :
    findMember members source.name = .ok source := by
  obtain ⟨found, hfound⟩ := exists_findMember_iff.mpr ⟨source, hmem, rfl⟩
  have hfind := findMember_ok_iff.mp hfound
  have hname : found.name = source.name := by simpa using List.find?_some hfind
  have hsame : found = source :=
    List.inj_on_of_nodup_map hnames (List.mem_of_find?_eq_some hfind) hmem hname
  rw [hfound, hsame]

end Left

/-! ## Transfers -/

/-- The postings of a transfer. -/
def transferPostings (sender receiver : String) (amount : Nat) : List (String × Int) :=
  [(sender, -signed amount), (receiver, signed amount)]

section Transfer
variable {book : Book} {members : List Member} {sender receiver : String} {amount : Nat}

theorem moved_balances (hbook : book.Below) (hne : sender ≠ receiver) (hamount : amount < 2 ^ 62) :
    (book.moved members sender receiver amount).balances =
      postAll (book.join members).balances (transferPostings sender receiver amount) := by
  have hsigned := signed_of_lt (show amount < 2 ^ 63 by omega)
  have hposted : (book.moved members sender receiver amount).balances =
      postWordAll 64 (book.join members).balances (transferPostings sender receiver amount) := rfl
  rw [hposted]
  apply postWordAll_eq_postAll_of_names
  · simpa [transferPostings] using hne
  · intro p hp
    have hbalance := hbook.balances p.1
    rw [← book.getD_join_balances members] at hbalance
    have hbound : p.2.natAbs ≤ amount := by
      simp only [transferPostings, List.mem_cons, List.not_mem_nil, or_false] at hp
      rcases hp with rfl | rfl
      · simp [hsigned]
      · simp [hsigned]
    apply swrap_of_bounds (by decide) <;> omega

/-- What a transfer leaves: the sum, everybody else, and the amount less for the sender. -/
structure Transferred (book changed : Book) (source : Member) (receiver : String) (amount : Nat) :
    Prop where
  total : total changed.balances = total book.balances
  others : ∀ name, name ≠ source.name → name ≠ receiver → book.Untouched changed name
  sender : ∀ baseline, book.baselines[source.name]? = some baseline → baseline ≤ source.used →
    ∃ before after, book.limit source.name = some before ∧ changed.limit source.name = some after ∧
      after + amount = before ∧ source.used ≤ after

theorem limit_of_pos {book : Book} {name : String} {baseline : Nat}
    (hbaseline : book.baselines[name]? = some baseline) (hpos : 0 ≤ book.balances.getD name 0)
    (hlt : (baseline : Int) + book.balances.getD name 0 < 2 ^ 64) :
    book.limit name = some (baseline + (book.balances.getD name 0).toNat) := by
  rw [limit, hbaseline, Option.map_some, max_eq_left hpos, clamp_of_lt (by omega)]

theorem transferred (hbook : book.Below) (hamount : amount < 2 ^ 62) {source : Member}
    (hne : source.name ≠ receiver)
    (hroom : (amount : Int) ≤ book.balances.getD source.name 0 - book.usedSince source) :
    book.Transferred (book.moved members source.name receiver amount) source receiver amount := by
  have hsigned := signed_of_lt (show amount < 2 ^ 63 by omega)
  have hbalances := @moved_balances book members _ _ _ hbook hne hamount
  have hgetD : ∀ name, (book.moved members source.name receiver amount).balances.getD name 0 =
      book.balances.getD name 0 + amountFor name (transferPostings source.name receiver amount) := by
    intro name
    rw [hbalances, getD_postAll, getD_join_balances]
  refine ⟨?_, ?_, ?_⟩
  · rw [hbalances, total_postAll, total_join_balances]
    simp [transferPostings]
  · intro name hsource hreceiver
    have hbaselines : (book.moved members source.name receiver amount).baselines =
        (book.join members).baselines := rfl
    apply untouched_of_join hbaselines
    rw [hgetD]
    simp [transferPostings, amountFor_cons, hsource.symm, hreceiver.symm]
  · intro baseline hbaseline hused
    have hbound := hbook.balances source.name
    have hsmall := hbook.baselines source.name
    have hspent : book.usedSince source = source.used - baseline := by
      rw [usedSince, ExtTreeMap.getD_eq_getD_getElem?, hbaseline]
      rfl
    have hlow : book.baselines.getD source.name 0 = baseline := by
      rw [ExtTreeMap.getD_eq_getD_getElem?, hbaseline]
      rfl
    have hafter := hgetD source.name
    have hdrop : amountFor source.name (transferPostings source.name receiver amount) =
        -(amount : Int) := by
      simp [transferPostings, amountFor_cons, hne.symm, hsigned]
    rw [hdrop] at hafter
    refine ⟨_, _, limit_of_pos hbaseline (by omega) (by omega),
      limit_of_pos (book.join_baselines_of_some members hbaseline) (by omega) (by omega), ?_, ?_⟩
    · omega
    · omega

/-- A transfer goes through exactly when the amount is positive and the sender, another member
than the receiver, has that much left. -/
theorem transfer_ok_iff (hmigrated : book.migrated = true) (hbook : book.Below)
    (hnames : (members.map Member.name).Nodup) (hused : ∀ member ∈ members, member.used < 2 ^ 62)
    (hamount : amount < 2 ^ 62) (now : Int) :
    (∃ entries, (book.transfer members sender receiver amount now).2 = .ok entries) ↔
      0 < amount ∧ sender ≠ receiver ∧ (∃ member ∈ members, member.name = receiver) ∧
        ∃ source ∈ members, source.name = sender ∧
          (amount : Int) ≤ book.balances.getD sender 0 - book.usedSince source := by
  have hsigned := signed_of_lt (show amount < 2 ^ 63 by omega)
  rcases book.transfer_cases members sender receiver amount now with
    ⟨e, hcheck, hcall⟩ | ⟨source, hcheck, hrest⟩
  · refine iff_of_false (by simp [hcall]) ?_
    rintro ⟨hpos, hne, htarget, source, hmem, rfl, -⟩
    have hpassed := checkTransfer_ok_iff.mpr
      ⟨hmigrated, hpos, hne, findMember_eq hnames hmem, htarget⟩
    rw [hcheck] at hpassed
    cases hpassed
  · obtain ⟨-, hpos, hne, hfind, htarget⟩ := checkTransfer_ok_iff.mp hcheck
    have hfound := findMember_ok_iff.mp hfind
    have hmem := List.mem_of_find?_eq_some hfound
    have hname : source.name = sender := by simpa using List.find?_some hfound
    have hleft := spendable_join hnames hmem hbook (hused source hmem)
    rw [hname] at hleft
    rcases hrest with ⟨e, hshort, hcall⟩ | ⟨hroom, hcall⟩
    · refine iff_of_false (by simp [hcall]) ?_
      rintro ⟨-, -, -, other, hother, hsame, hle⟩
      have heq : other = source :=
        List.inj_on_of_nodup_map hnames hother hmem (hsame.trans hname.symm)
      rw [heq] at hle
      omega
    · refine iff_of_true ⟨_, by rw [hcall]⟩ ⟨hpos, hne, htarget, source, hmem, hname, by omega⟩

end Transfer

/-! ## Allocations -/

section Allocate
variable {book : Book} {members : List Member} {receiver : Option String} {names : List String}
  {amount : Nat}

theorem unallocated_of_total (book : Book) :
    book.unallocated =
      sclamp 64 (signed book.remaining - swrap 64 (Accounts.total book.balances)) := by
  rw [unallocated, ssum_eq_swrap]
  rfl

theorem Receives.nodup (hnames : (members.map Member.name).Nodup)
    (h : Receives members receiver names) : names.Nodup ∧ 0 < names.length := by
  cases receiver with
  | none =>
    obtain ⟨hne, rfl⟩ := h
    refine ⟨hnames, ?_⟩
    rw [List.length_map]
    exact List.length_pos_iff.mpr hne
  | some name =>
    obtain ⟨-, rfl⟩ := h
    exact ⟨List.nodup_singleton name, Nat.one_pos⟩

/-- What an allocation posts. -/
def grantPostings (names : List String) (amount : Nat) : List (String × Int) :=
  gains (names.zip (splitEvenly amount names.length))

theorem grantPostings_names (names : List String) (amount : Nat) :
    (grantPostings names amount).map Prod.fst = names := by
  rw [grantPostings, gains, List.map_map]
  exact List.map_fst_zip (by simp)

theorem mem_shares {share : String × Nat}
    (h : share ∈ names.zip (splitEvenly amount names.length)) :
    ∃ i < names.length, (splitEvenly amount names.length).getD i 0 = share.2 := by
  obtain ⟨i, hi, rfl⟩ := List.mem_iff_getElem.mp h
  have hlen : i < names.length := by simpa using hi
  refine ⟨i, hlen, ?_⟩
  simp [List.getD_eq_getElem?_getD, hlen]

theorem granted_balances (hbook : book.Below) (hnodup : names.Nodup) (hamount : amount < 2 ^ 62) :
    (book.granted members names amount).balances =
      postAll (book.join members).balances (grantPostings names amount) := by
  apply postWordAll_eq_postAll_of_names
  · rwa [← grantPostings_names names amount] at hnodup
  · intro p hp
    obtain ⟨share, hshare, rfl⟩ := List.mem_map.mp hp
    have hle : share.2 ≤ amount :=
      splitBy_le (show amount < 2 ^ 64 by omega) (List.of_mem_zip hshare).2
    have hsigned := signed_of_lt (show share.2 < 2 ^ 63 by omega)
    have hbalance := hbook.balances share.1
    rw [← book.getD_join_balances members] at hbalance
    apply swrap_of_bounds (by decide) <;> dsimp only <;> omega

theorem amount_grantPostings (hlen : 0 < names.length) (hamount : amount < 2 ^ 62) :
    Accounts.amount (grantPostings names amount) = amount := by
  have hsnd : (names.zip (splitEvenly amount names.length)).map Prod.snd =
      splitEvenly amount names.length := List.map_snd_zip (by simp)
  have hsum : ((names.zip (splitEvenly amount names.length)).map Prod.snd).sum = amount := by
    rw [hsnd, splitEvenly_sum (by omega) hlen]
  rw [grantPostings, amount_gains (by omega), hsum]

/-- What an allocation leaves: the amount more in all and that much less unallocated, in one share
for each receiver, the named member or every one, which differ by at most one. -/
structure Allocated (book changed : Book) (members : List Member) (receiver : Option String)
    (amount : Nat) (entries : List Entry) : Prop where
  total : total changed.balances = total book.balances + amount
  unallocated : changed.unallocated = book.unallocated - amount ∧ 0 ≤ changed.unallocated
  receivers : Receives members receiver (entries.map Entry.user)
  sum : (entries.map Entry.amount).sum = amount
  even : ∀ a ∈ entries, ∀ b ∈ entries, a.amount ≤ b.amount + 1
  shares : ∀ name, changed.balances.getD name 0 =
    book.balances.getD name 0 + amountFor name (posted entries)

theorem allocated (hbook : book.Below) (hnames : (members.map Member.name).Nodup)
    (hamount : amount < 2 ^ 62) (hpos : 0 < book.unallocated)
    (hle : (amount : Int) ≤ book.unallocated) (hreceives : Receives members receiver names)
    (now : Int) :
    book.Allocated (book.granted members names amount) members receiver amount
      ((names.zip (splitEvenly amount names.length)).map (allocateEntry now)) := by
  obtain ⟨hnodup, hlen⟩ := hreceives.nodup hnames
  have hposted : posted ((names.zip (splitEvenly amount names.length)).map (allocateEntry now)) =
      grantPostings names amount := by
    rw [posted, List.map_map]
    rfl
  have husers : ((names.zip (splitEvenly amount names.length)).map (allocateEntry now)).map
      Entry.user = names := by
    rw [← posted_users, hposted, grantPostings_names]
  have htotal : Accounts.total (book.granted members names amount).balances =
      Accounts.total book.balances + amount := by
    rw [granted_balances hbook hnodup hamount, total_postAll, total_join_balances,
      amount_grantPostings hlen hamount]
  refine ⟨htotal, ?_, husers.symm ▸ hreceives, ?_, ?_, ?_⟩
  · have hremaining : (book.granted members names amount).remaining = book.remaining :=
      book.join_induction members (P := fun b => b.remaining = book.remaining) (fun _ _ h => h) rfl
    have hbefore := book.unallocated_of_total
    have hsmall := hbook.unallocated
    have hleft := hbook.remaining
    have hsigned := signed_of_lt (show book.remaining < 2 ^ 63 by omega)
    have hwrapped : swrap 64 (Accounts.total book.balances + amount) =
        swrap 64 (Accounts.total book.balances) + amount := by
      rw [← swrap_add_swrap_left]
      unfold sclamp at hbefore
      apply swrap_of_bounds (by decide) <;> omega
    rw [unallocated_of_total, htotal, hwrapped, hremaining]
    unfold sclamp at hbefore ⊢
    omega
  · rw [← amount_posted, hposted, amount_grantPostings hlen hamount]
  · intro a ha b hb
    obtain ⟨left, hleft, rfl⟩ := List.mem_map.mp ha
    obtain ⟨right, hright, rfl⟩ := List.mem_map.mp hb
    obtain ⟨i, hi, hone⟩ := mem_shares hleft
    obtain ⟨j, hj, hother⟩ := mem_shares hright
    have hupper := (splitEvenly_getD (show amount < 2 ^ 64 by omega) hi).2
    have hlower := (splitEvenly_getD (show amount < 2 ^ 64 by omega) hj).1
    simp only [allocateEntry, signed]
    omega
  · intro name
    rw [granted_balances hbook hnodup hamount, getD_postAll, getD_join_balances, hposted]

/-- An allocation goes through exactly when it asks for something between one byte and what is
unallocated, for a user that exists or for all of at least one. -/
theorem allocate_ok_iff (hmigrated : book.migrated = true) {amount : Option Nat}
    (hamount : amount.getD book.unallocated.toNat < 2 ^ 62) (now : Int) :
    (∃ entries, (book.allocate members receiver amount now).2 = .ok entries) ↔
      0 < amount.getD book.unallocated.toNat ∧
        (amount.getD book.unallocated.toNat : Int) ≤ book.unallocated ∧
          ∃ names, Receives members receiver names := by
  have hsigned := signed_of_lt (show amount.getD book.unallocated.toNat < 2 ^ 63 by omega)
  rcases book.allocate_cases members receiver amount now with
    ⟨e, hcheck, hcall⟩ | ⟨names, granted, hcheck, hcall⟩
  · refine iff_of_false (by simp [hcall]) ?_
    rintro ⟨hpos, hle, names, hreceives⟩
    have hpassed := checkAllocate_ok_iff.mpr
      ⟨hmigrated, by omega, rfl, hpos, by rwa [hsigned], hreceives⟩
    rw [hcheck] at hpassed
    cases hpassed
  · obtain ⟨-, -, rfl, hpos, hle, hreceives⟩ := checkAllocate_ok_iff.mp hcheck
    rw [hsigned] at hle
    exact iff_of_true ⟨_, by rw [hcall]⟩ ⟨hpos, hle, names, hreceives⟩

end Allocate

/-! ## Both -/

/-- Manual operations move exactly what is there: when they go through, what they leave then, and
that a refusal leaves every balance and every limit there was. -/
theorem manual_operations_exact {book : Book} {members : List Member}
    (hmigrated : book.migrated = true) (hbook : book.Below)
    (hnames : (members.map Member.name).Nodup)
    (hused : ∀ member ∈ members, member.used < 2 ^ 62) (now : Int) :
    (∀ sender receiver amount, amount < 2 ^ 62 →
      let call := book.transfer members sender receiver amount now
      ((∃ entries, call.2 = .ok entries) ↔
        0 < amount ∧ sender ≠ receiver ∧ (∃ member ∈ members, member.name = receiver) ∧
          ∃ source ∈ members, source.name = sender ∧
            (amount : Int) ≤ book.balances.getD sender 0 - book.usedSince source) ∧
      (∀ entries, call.2 = .ok entries → ∃ source ∈ members, source.name = sender ∧
        book.Transferred call.1 source receiver amount) ∧
      ∀ e, call.2 = .error e → ∀ name, book.Untouched call.1 name) ∧
    ∀ receiver amount, (∀ requested ∈ amount, requested < 2 ^ 62) →
      let call := book.allocate members receiver amount now
      let granted := amount.getD book.unallocated.toNat
      ((∃ entries, call.2 = .ok entries) ↔
        0 < granted ∧ (granted : Int) ≤ book.unallocated ∧
          ∃ names, Receives members receiver names) ∧
      (∀ entries, call.2 = .ok entries →
        book.Allocated call.1 members receiver granted entries) ∧
      ∀ e, call.2 = .error e → ∀ name, book.Untouched call.1 name := by
  have hjoined : ∀ name, book.Untouched (book.join members) name :=
    fun name => untouched_of_join rfl (book.getD_join_balances members name)
  have hself : ∀ name, book.Untouched book name := fun name => ⟨rfl, fun _ => rfl⟩
  constructor
  · intro sender receiver amount hamount
    refine ⟨transfer_ok_iff hmigrated hbook hnames hused hamount now, ?_⟩
    rcases book.transfer_cases members sender receiver amount now with
      ⟨e, -, hcall⟩ | ⟨source, hcheck, ⟨e, -, hcall⟩ | ⟨hroom, hcall⟩⟩
    · rw [hcall]
      exact ⟨fun _ h => (nomatch h), fun _ _ => hself⟩
    · rw [hcall]
      exact ⟨fun _ h => (nomatch h), fun _ _ => hjoined⟩
    · rw [hcall]
      refine ⟨?_, fun _ h => (nomatch h)⟩
      intro entries _
      obtain ⟨-, -, hne, hfind, -⟩ := checkTransfer_ok_iff.mp hcheck
      have hfound := findMember_ok_iff.mp hfind
      have hmem := List.mem_of_find?_eq_some hfound
      have hname : source.name = sender := by simpa using List.find?_some hfound
      have hsigned := signed_of_lt (show amount < 2 ^ 63 by omega)
      rw [spendable_join hnames hmem hbook (hused source hmem), hsigned] at hroom
      refine ⟨source, hmem, hname, ?_⟩
      subst hname
      exact transferred hbook hamount hne hroom
  · intro receiver amount hrequested
    have hgranted : amount.getD book.unallocated.toNat < 2 ^ 62 := by
      have hsmall := hbook.unallocated
      cases amount with
      | none => simp only [Option.getD_none]; omega
      | some requested => exact hrequested requested rfl
    refine ⟨allocate_ok_iff hmigrated hgranted now, ?_⟩
    rcases book.allocate_cases members receiver amount now with
      ⟨e, -, hcall⟩ | ⟨names, granted, hcheck, hcall⟩
    · rw [hcall]
      exact ⟨fun _ h => (nomatch h), fun _ _ => hself⟩
    · rw [hcall]
      refine ⟨?_, fun _ h => (nomatch h)⟩
      intro entries hentries
      obtain ⟨-, hpos, rfl, -, hle, hreceives⟩ := checkAllocate_ok_iff.mp hcheck
      rw [signed_of_lt (by omega)] at hle
      rw [← Except.ok.inj hentries]
      exact allocated hbook hnames hgranted hpos hle hreceives now

/-- A user with 60 left of 100, and one without traffic. -/
def lendingBook : Book where
  migrated := true
  remaining := 100
  balances := (∅ : BTreeMap Int).insert "a" 60
  baselines := (∅ : BTreeMap Nat).insert "a" 5

def lendingMembers : List Member := [⟨"a", 25, none⟩, ⟨"b", 0, none⟩]

theorem lendingBook_below : lendingBook.Below where
  balances := by
    intro name
    rw [lendingBook, ExtTreeMap.getD_insert]
    split <;> simp
  baselines := by
    intro name
    rw [lendingBook, ExtTreeMap.getD_insert]
    split <;> simp
  remaining := by decide
  unallocated := by decide +kernel

/-- The user may give away 40, and 40 are unallocated, which both get their part of. -/
theorem manual_operations_exact_lending :
    (∃ entries, (lendingBook.transfer lendingMembers "a" "b" 40 1).2 = .ok entries) ∧
      ¬ (∃ entries, (lendingBook.transfer lendingMembers "a" "b" 41 1).2 = .ok entries) ∧
      ∃ entries, (lendingBook.allocate lendingMembers none none 1).2 = .ok entries ∧
        entries.map Entry.user = ["a", "b"] ∧ (entries.map Entry.amount).sum = 40 := by
  have hexact := @manual_operations_exact lendingBook lendingMembers rfl
    lendingBook_below (by decide) (by decide) 1
  refine ⟨?_, ?_, ?_⟩
  · exact ((hexact.1 "a" "b" 40 (by decide)).1).mpr (by decide +kernel)
  · exact fun hok => absurd (((hexact.1 "a" "b" 41 (by decide)).1).mp hok) (by decide +kernel)
  · obtain ⟨hiff, hallocated, -⟩ := hexact.2 none none (by simp)
    have hreceives : Receives lendingMembers none ["a", "b"] := ⟨by decide, rfl⟩
    obtain ⟨entries, hok⟩ := hiff.mpr ⟨by decide +kernel, by decide +kernel, _, hreceives⟩
    have hleft : lendingBook.unallocated.toNat = 40 := by decide +kernel
    refine ⟨entries, hok, (hallocated entries hok).receivers.2, ?_⟩
    rw [(hallocated entries hok).sum, Option.getD_none, hleft]
    rfl

end Book

end PortsBox
