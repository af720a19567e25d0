import PortsBox.LedgerStages

/-!
# What a transfer and an allocation do

What their checks let through, and one inversion lemma for each: how it was refused, or the
book that it left.
-/

set_option autoImplicit false

namespace PortsBox

open Word Accounts
open Std (ExtTreeMap)

namespace Book

/-! ## What the checks let through -/

theorem findMember_ok_iff {members : List Member} {name : String} {member : Member} :
    findMember members name = .ok member ↔ members.find? (·.name == name) = some member := by
  unfold findMember
  cases members.find? (·.name == name) <;> simp

theorem exists_findMember_iff {members : List Member} {name : String} :
    (∃ member, findMember members name = .ok member) ↔ ∃ member ∈ members, member.name = name := by
  simp only [findMember_ok_iff]
  rw [← Option.isSome_iff_exists, List.find?_isSome]
  simp

theorem checkTransfer_ok_iff {book : Book} {members : List Member} {sender receiver : String}
    {amount : Nat} {source : Member} :
    book.checkTransfer members sender receiver amount = .ok source ↔
      book.migrated = true ∧ 0 < amount ∧ sender ≠ receiver ∧
        findMember members sender = .ok source ∧ ∃ member ∈ members, member.name = receiver := by
  rw [← exists_findMember_iff]
  unfold checkTransfer
  cases hmigrated : book.migrated with
  | false => simp [throw, throwThe, MonadExceptOf.throw, bind, Except.bind]
  | true =>
    by_cases hamount : amount = 0
    · simp [hamount, throw, throwThe, MonadExceptOf.throw, bind, Except.bind]
    · by_cases hsame : sender = receiver
      · simp [hamount, hsame, throw, throwThe, MonadExceptOf.throw, bind, Except.bind]
      · cases hsource : findMember members sender with
        | error e => simp [hamount, hsame, bind, Except.bind]
        | ok found =>
          cases htarget : findMember members receiver with
          | error e => simp [hamount, hsame, bind, Except.bind]
          | ok target =>
            simp [hamount, hsame, bind, Except.bind, pure, Except.pure, Nat.pos_of_ne_zero]

/-- The receivers of an allocation: a member, or all of them. -/
def Receives (members : List Member) (receiver : Option String) (names : List String) : Prop :=
  match receiver with
  | some name => (∃ member ∈ members, member.name = name) ∧ names = [name]
  | none => members ≠ [] ∧ names = members.map Member.name

theorem receivers_ok_iff {members : List Member} {receiver : Option String}
    {names : List String} :
    (receivers members receiver = .ok names ∧ names ≠ []) ↔ Receives members receiver names := by
  cases receiver with
  | none =>
    simp only [receivers, Receives, Except.ok.injEq]
    constructor
    · rintro ⟨rfl, hne⟩
      exact ⟨fun hnil => hne (by simp [hnil]), rfl⟩
    · rintro ⟨hne, rfl⟩
      exact ⟨rfl, by simpa using hne⟩
  | some name =>
    unfold receivers Receives
    by_cases hmem : members.any (·.name == name) = true
    · have hexists : ∃ member ∈ members, member.name = name := by simpa using hmem
      simp only [hmem, if_true, Except.ok.injEq, hexists, true_and]
      constructor
      · rintro ⟨rfl, -⟩
        rfl
      · rintro rfl
        exact ⟨rfl, List.cons_ne_nil _ _⟩
    · have hnone : ¬ ∃ member ∈ members, member.name = name := by simpa using hmem
      simp [hmem, hnone]

theorem checkAllocate_ok_iff {book : Book} {members : List Member} {receiver : Option String}
    {amount : Option Nat} {names : List String} {granted : Nat} :
    book.checkAllocate members receiver amount = .ok (names, granted) ↔
      book.migrated = true ∧ 0 < book.unallocated ∧
        granted = amount.getD book.unallocated.toNat ∧ 0 < granted ∧
          signed granted ≤ book.unallocated ∧ Receives members receiver names := by
  rw [← receivers_ok_iff]
  unfold checkAllocate
  cases hmigrated : book.migrated with
  | false => simp [throw, throwThe, MonadExceptOf.throw, bind, Except.bind]
  | true =>
    by_cases havailable : book.unallocated ≤ 0
    · simp [havailable, throw, throwThe, MonadExceptOf.throw, bind, Except.bind]
    · by_cases hamount : amount.getD book.unallocated.toNat = 0
      · simp [havailable, hamount, throw, throwThe, MonadExceptOf.throw, bind, Except.bind]
        omega
      · by_cases hroom : book.unallocated < signed (amount.getD book.unallocated.toNat)
        · simp only [Bool.not_true, Bool.false_eq_true, if_false, havailable, hamount, hroom,
            if_true, throw, throwThe, MonadExceptOf.throw, bind, Except.bind, reduceCtorEq,
            true_and, false_iff, not_and]
          rintro - rfl - hle
          exact absurd hroom (not_lt.mpr hle)
        · cases hnames : receivers members receiver with
          | error e => simp [havailable, hamount, hroom, bind, Except.bind]
          | ok found =>
            cases found with
            | nil =>
              simp [havailable, hamount, hroom, throw, throwThe, MonadExceptOf.throw,
                bind, Except.bind]
            | cons name found =>
              simp only [Bool.not_true, Bool.false_eq_true, if_false, havailable, hamount, hroom,
                bind, Except.bind, pure, Except.pure, Except.ok.injEq, Prod.mk.injEq,
                List.isEmpty_cons, true_and]
              constructor
              · rintro ⟨rfl, rfl⟩
                exact ⟨not_le.mp havailable, rfl, Nat.pos_of_ne_zero hamount, not_lt.mp hroom,
                  rfl, List.cons_ne_nil _ _⟩
              · rintro ⟨-, rfl, -, -, rfl, -⟩
                exact ⟨rfl, rfl⟩

/-! ## What a call does -/

section Calls
variable (book : Book) (members : List Member)

/-- The book after a transfer that the checks and the sender's balance allow. -/
def moved (sender receiver : String) (amount : Nat) : Book :=
  { book.join members with
    balances := adjust (adjust (book.join members).balances sender (-signed amount)) receiver
      (signed amount) }

theorem transfer_cases (sender receiver : String) (amount : Nat) (now : Int) :
    (∃ e, book.checkTransfer members sender receiver amount = .error e ∧
      book.transfer members sender receiver amount now = (book, .error e)) ∨
    ∃ source, book.checkTransfer members sender receiver amount = .ok source ∧
      ((∃ e, (book.join members).spendable source < signed amount ∧
        book.transfer members sender receiver amount now = (book.join members, .error e)) ∨
      (signed amount ≤ (book.join members).spendable source ∧
        book.transfer members sender receiver amount now =
          (book.moved members sender receiver amount,
            .ok [transferEntry now sender (-signed amount) receiver,
              transferEntry now receiver (signed amount) sender]))) := by
  unfold transfer
  cases hcheck : book.checkTransfer members sender receiver amount with
  | error e => exact .inl ⟨e, rfl, rfl⟩
  | ok source =>
    refine .inr ⟨source, rfl, ?_⟩
    by_cases hroom : (book.join members).spendable source < signed amount
    · exact .inl ⟨_, hroom, by simp only [if_pos hroom]; rfl⟩
    · exact .inr ⟨not_lt.mp hroom, by simp only [if_neg hroom]; rfl⟩

/-- The book after an allocation. -/
def granted (names : List String) (amount : Nat) : Book :=
  { book.join members with
    balances := postWordAll 64 (book.join members).balances
      (gains (names.zip (splitEvenly amount names.length))) }

theorem allocate_cases (receiver : Option String) (amount : Option Nat) (now : Int) :
    (∃ e, book.checkAllocate members receiver amount = .error e ∧
      book.allocate members receiver amount now = (book, .error e)) ∨
    ∃ names total, book.checkAllocate members receiver amount = .ok (names, total) ∧
      book.allocate members receiver amount now =
        (book.granted members names total,
          .ok ((names.zip (splitEvenly total names.length)).map (allocateEntry now))) := by
  unfold allocate
  cases hcheck : book.checkAllocate members receiver amount with
  | error e => exact .inl ⟨e, rfl, rfl⟩
  | ok passed =>
    refine .inr ⟨passed.1, passed.2, rfl, ?_⟩
    simp only [granted, gains, postWordAll, List.foldl_map]
    rfl

variable {book members}

/-- A transfer that succeeds moves the amount. -/
theorem transfer_ok {changed : Book} {sender receiver : String} {amount : Nat} {now : Int}
    {batch : List Entry}
    (h : book.transfer members sender receiver amount now = (changed, .ok batch)) :
    book.migrated = true ∧ changed = book.moved members sender receiver amount := by
  rcases book.transfer_cases members sender receiver amount now with
    ⟨e, -, hcall⟩ | ⟨source, hcheck, ⟨e, -, hcall⟩ | ⟨-, hcall⟩⟩
  · cases hcall.symm.trans h
  · cases hcall.symm.trans h
  · have hchanged := congrArg Prod.fst (hcall.symm.trans h)
    exact ⟨(checkTransfer_ok_iff.mp hcheck).1, hchanged.symm⟩

/-- An allocation that succeeds grants an amount to some. -/
theorem allocate_ok {changed : Book} {receiver : Option String} {amount : Option Nat} {now : Int}
    {batch : List Entry}
    (h : book.allocate members receiver amount now = (changed, .ok batch)) :
    book.migrated = true ∧ ∃ names total, changed = book.granted members names total := by
  rcases book.allocate_cases members receiver amount now with
    ⟨e, -, hcall⟩ | ⟨names, total, hcheck, hcall⟩
  · cases hcall.symm.trans h
  · have hchanged := congrArg Prod.fst (hcall.symm.trans h)
    exact ⟨(checkAllocate_ok_iff.mp hcheck).1, names, total, hchanged.symm⟩

end Calls

end Book

end PortsBox
