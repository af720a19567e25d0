import PortsBox.Provider

/-!
# The traffic ledger

`Book` with its operations. Amounts are `u64` and balances `i64`: sums and
in-place additions wrap at 64 bits as in a release build, saturating operations
saturate, and `i128` intermediate values are exact.
-/

set_option autoImplicit false

namespace PortsBox

open Word

/-- Both `BTreeMap<String, _>` and the maps whose order the code never looks at. -/
abbrev BTreeMap (V : Type) := Std.ExtTreeMap String V

inductive Credit where
  | migration
  | split
  | user (name : String)
  deriving DecidableEq, Repr

structure PackageRecord where
  package : Package
  credit : Option Credit
  deriving DecidableEq, Repr

inductive EntryKind where
  | migration
  | credit
  | expiry
  | transfer
  | allocate
  deriving DecidableEq, Repr

structure Entry where
  time : Int
  kind : EntryKind
  user : String
  amount : Int
  package : Option String
  note : String
  deriving DecidableEq, Repr

structure Book where
  migrated : Bool := false
  remaining : Nat := 0
  syncedAt : Int := 0
  consumed : Nat := 0
  metered : Nat := 0
  balances : BTreeMap Int := ∅
  baselines : BTreeMap Nat := ∅
  packages : BTreeMap PackageRecord := ∅

structure Member where
  name : String
  used : Nat
  offlineRemaining : Option Nat
  deriving DecidableEq, Repr

structure Assignments where
  split : Finset String := ∅
  owners : BTreeMap String := ∅
  exclusive : Bool := false

/-! ## Splitting an amount -/

/-- The comparator of the remainders: larger first, then the earlier index. -/
def extraFirst (a b : Nat × Nat) : Prop :=
  ((compare b.1 a.1).then (compare a.2 b.2)).isLE

instance : DecidableRel extraFirst := fun _ _ => inferInstanceAs (Decidable (_ = true))

def giveExtra : List (Nat × Nat) → Nat → List Nat → List Nat
  | [], _, shares => shares
  | (_, i) :: remainders, left, shares =>
    if left = 0 then shares
    else giveExtra remainders (left - 1) (shares.modify i fun share => wrap 64 (share + 1))

def remainders (amount : Nat) (weights : List Nat) : List (Nat × Nat) :=
  weights.zipIdx.map fun (weight, i) => (amount * weight % weights.sum, i)

def splitBy (amount : Nat) (weights : List Nat) : List Nat :=
  let total := weights.sum
  if total = 0 then List.replicate weights.length 0
  else
    let shares := weights.map fun weight => wrap 64 (amount * weight / total)
    let left := sub 64 amount (sum 64 shares)
    giveExtra ((remainders amount weights).insertionSort extraFirst) left shares

def splitEvenly (amount count : Nat) : List Nat := splitBy amount (List.replicate count 1)

/-- `i64::try_from(amount).unwrap_or(i64::MAX)` -/
def signed (amount : Nat) : Int := min amount (2 ^ 63 - 1)

/-- `*balances.entry(name).or_insert(0) += amount` -/
def adjust (balances : BTreeMap Int) (name : String) (amount : Int) : BTreeMap Int :=
  balances.insert name (swrap 64 (balances.getD name 0 + amount))

namespace Book

def limit (book : Book) (name : String) : Option Nat :=
  book.baselines[name]?.map fun baseline =>
    clamp 64 (baseline + (max (book.balances.getD name 0) 0).toNat)

def limits (book : Book) : BTreeMap Nat := book.baselines.filterMap fun name _ => book.limit name

def unallocated (book : Book) : Int :=
  sclamp 64 (signed book.remaining - ssum 64 (book.balances.toList.map Prod.snd))

def joinMember (book : Book) (member : Member) : Book :=
  { book with
    baselines := book.baselines.insertIfNew member.name member.used
    balances := book.balances.insertIfNew member.name 0 }

def join (book : Book) (members : List Member) : Book := members.foldl joinMember book

/-! ## Migration -/

def migrationShares (book : Book) (members : List Member) : List Nat :=
  let weights := members.map fun member => member.offlineRemaining.getD 0
  if weights.any (0 < ·) then splitBy book.remaining weights
  else splitEvenly book.remaining members.length

def openMember (book : Book) (opening : Member × Nat) : Book :=
  { book with
    balances := book.balances.insert opening.1.name (signed opening.2)
    baselines := book.baselines.insert opening.1.name opening.1.used }

def migrationEntry (now : Int) (opening : Member × Nat) : Entry where
  time := now
  kind := .migration
  user := opening.1.name
  amount := signed opening.2
  package := none
  note := ""

def migrate (book : Book) (packages : List Package) (members : List Member) (now : Int) :
    Book × List Entry :=
  let openings := members.zip (book.migrationShares members)
  let opened := openings.foldl openMember book
  ({ opened with
      packages := packages.foldl
        (fun records package => records.insert package.id ⟨package, some .migration⟩)
        opened.packages
      migrated := true },
    openings.map (migrationEntry now))

end Book

/-! ## The stages of `Book::reconcile` -/

/-- The provider's remaining traffic. -/
def remainingOf (packages : List Package) : Nat :=
  sum 64 ((packages.filter Package.effective).map Package.available)

/-- `fetched.get(id)`: collecting keeps the last of the rows with one id. -/
def fetchedPackage (packages : List Package) (id : String) : Option Package :=
  packages.reverse.find? (·.id == id)

def PackageRecord.leaves (record : PackageRecord) (current : Option Package) : Bool :=
  record.package.effective && !current.any Package.effective

def PackageRecord.leftover (record : PackageRecord) (current : Option Package) : Nat :=
  if current.any Package.usedUp then 0 else record.package.available

def leaving (packages : List Package) (records : BTreeMap PackageRecord) :
    List (String × PackageRecord) :=
  records.toList.filter fun row => row.2.leaves (fetchedPackage packages row.1)

def gone (packages : List Package) (records : BTreeMap PackageRecord) : Nat :=
  sum 64 ((leaving packages records).map fun row =>
    row.2.leftover (fetchedPackage packages row.1))

def forfeitedRow (packages : List Package) (row : String × PackageRecord) :
    Option (String × Nat) :=
  let leftover := row.2.leftover (fetchedPackage packages row.1)
  if row.2.credit.isSome && 0 < leftover then some (row.1, leftover) else none

def forfeited (packages : List Package) (records : BTreeMap PackageRecord) :
    List (String × Nat) :=
  (leaving packages records).filterMap (forfeitedRow packages)

def PackageRecord.markMissing (record : PackageRecord) (current : Option Package) :
    PackageRecord :=
  if record.leaves current && current.isNone then
    { record with package := { record.package with status := "Missing" } }
  else record

def markMissing (packages : List Package) (records : BTreeMap PackageRecord) :
    BTreeMap PackageRecord :=
  records.map fun id record => record.markMissing (fetchedPackage packages id)

/-- One row of the fetched list: the running `added` total and the records. -/
def arrive (acc : Nat × BTreeMap PackageRecord) (package : Package) :
    Nat × BTreeMap PackageRecord :=
  match acc.2[package.id]? with
  | some record =>
    (if package.effective && !record.package.effective then wrap 64 (acc.1 + package.total)
      else acc.1,
      acc.2.insert package.id { record with package })
  | none =>
    (if package.effective then wrap 64 (acc.1 + package.total) else acc.1,
      acc.2.insert package.id ⟨package, none⟩)

def arrivals (packages : List Package) (records : BTreeMap PackageRecord) :
    Nat × BTreeMap PackageRecord :=
  packages.foldl arrive (0, markMissing packages records)

/-- How a record is credited in this sync, and to whom; `none` leaves it as it is. -/
def creditNow (assignments : Assignments) (names : List String) (id : String)
    (record : PackageRecord) : Option (Credit × List (String × Nat)) :=
  if record.credit.isSome || !record.package.effective then none
  else
    let total := record.package.total
    match assignments.owners[id]?.filter names.contains with
    | some owner => some (.user owner, [(owner, total)])
    | none =>
      if (assignments.exclusive || id ∈ assignments.split) && !names.isEmpty then
        some (.split, names.zip (splitEvenly total names.length))
      else none

/-- Balances and the entries written so far. -/
abbrev Posted := BTreeMap Int × List Entry

def creditEntry (now : Int) (id : String) (payee : String × Nat) : Entry where
  time := now
  kind := .credit
  user := payee.1
  amount := signed payee.2
  package := some id
  note := ""

def creditPayee (now : Int) (id : String) (acc : Posted) (payee : String × Nat) : Posted :=
  (adjust acc.1 payee.1 (signed payee.2), acc.2 ++ [creditEntry now id payee])

def creditRow (assignments : Assignments) (names : List String) (now : Int) (acc : Posted)
    (row : String × PackageRecord) : Posted :=
  match creditNow assignments names row.1 row.2 with
  | none => acc
  | some (_, payees) => payees.foldl (creditPayee now row.1) acc

def creditAll (assignments : Assignments) (names : List String) (now : Int)
    (records : BTreeMap PackageRecord) (balances : BTreeMap Int) : Posted :=
  records.toList.foldl (creditRow assignments names now) (balances, [])

/-- The credit a record carries after the crediting loop. -/
def PackageRecord.credited (assignments : Assignments) (names : List String) (id : String)
    (record : PackageRecord) : PackageRecord :=
  match creditNow assignments names id record with
  | none => record
  | some (credit, _) => { record with credit := some credit }

def creditRecords (assignments : Assignments) (names : List String)
    (records : BTreeMap PackageRecord) : BTreeMap PackageRecord :=
  records.map fun id record => record.credited assignments names id

/-- The drop of the provider's remaining traffic that the transitions do not explain. -/
def drop (previous added gone remaining : Nat) : Int :=
  (previous : Int) + added - gone - remaining

def consumedOf (previous added gone remaining : Nat) : Nat :=
  clamp 64 (drop previous added gone remaining).toNat

def usageOf (baselines : BTreeMap Nat) (members : List Member) : List Nat :=
  members.map fun member => member.used - baselines.getD member.name 0

def meteredOf (usage : List Nat) : Nat :=
  usage.foldl (fun total used => clamp 64 (total + used)) 0

def chargeMember (balances : BTreeMap Int) (charge : Member × Nat) : BTreeMap Int :=
  adjust balances charge.1.name (-signed charge.2)

def chargeAll (members : List Member) (consumed : Nat) (usage : List Nat)
    (balances : BTreeMap Int) : BTreeMap Int :=
  if 0 < consumed && 0 < meteredOf usage then
    (members.zip (splitBy consumed usage)).foldl chargeMember balances
  else balances

def rebase (members : List Member) (baselines : BTreeMap Nat) : BTreeMap Nat :=
  members.foldl (fun baselines member => baselines.insert member.name member.used) baselines

def holders (balances : BTreeMap Int) : List (String × Nat) :=
  (balances.toList.filter fun row => 0 < row.2).map fun row => (row.1, row.2.toNat)

def expiryEntry (now : Int) (id : String) (loss : String × Nat) : Entry where
  time := now
  kind := .expiry
  user := loss.1
  amount := -signed loss.2
  package := some id
  note := ""

def forfeitShare (now : Int) (id : String) (acc : Posted) (loss : String × Nat) : Posted :=
  if loss.2 = 0 then acc
  else (adjust acc.1 loss.1 (-signed loss.2), acc.2 ++ [expiryEntry now id loss])

/-- What each holder of a positive balance loses to one leftover. -/
def losses (leftover : Nat) (balances : BTreeMap Int) : List (String × Nat) :=
  let holders := holders balances
  (holders.map Prod.fst).zip (splitBy leftover (holders.map Prod.snd))

def forfeit (now : Int) (acc : Posted) (row : String × Nat) : Posted :=
  (losses row.2 acc.1).foldl (forfeitShare now row.1) acc

def forfeitAll (now : Int) (rows : List (String × Nat)) (acc : Posted) : Posted :=
  rows.foldl (forfeit now) acc

namespace Book

def sweepEntry (now : Int) (member : Member) (sweep : Int) : Entry where
  time := now
  kind := .allocate
  user := member.name
  amount := sweep
  package := none
  note := ""

def sweepTo (book : Book) (member : Member) (now : Int) : Book × List Entry :=
  let sweep := book.unallocated
  ({ book with balances := adjust book.balances member.name sweep },
    if 0 < sweep then [sweepEntry now member sweep] else [])

def sweepExclusive (book : Book) (members : List Member) (assignments : Assignments)
    (now : Int) : Book × List Entry :=
  match assignments.exclusive, members with
  | true, [member] => book.sweepTo member now
  | _, _ => (book, [])

/-- `reconcile` of a migrated book up to the closing sweep. -/
def calibrate (book : Book) (packages : List Package) (members : List Member)
    (assignments : Assignments) (now : Int) : Book × List Entry :=
  let remaining := remainingOf packages
  let previous := book.remaining
  let book := { book with remaining, syncedAt := now }.join members
  let names := members.map Member.name
  let (added, records) := arrivals packages book.packages
  let (balances, credits) := creditAll assignments names now records book.balances
  let consumed := consumedOf previous added (gone packages book.packages) remaining
  let usage := usageOf book.baselines members
  let charged := chargeAll members consumed usage balances
  let (balances, entries) :=
    forfeitAll now (forfeited packages book.packages) (charged, credits)
  ({ book with
      balances
      baselines := rebase members book.baselines
      packages := creditRecords assignments names records
      consumed
      metered := meteredOf usage },
    entries)

def reconcile (book : Book) (packages : List Package) (members : List Member)
    (assignments : Assignments) (now : Int) : Book × List Entry :=
  if book.migrated then
    let (calibrated, entries) := book.calibrate packages members assignments now
    let (swept, sweep) := calibrated.sweepExclusive members assignments now
    (swept, entries ++ sweep)
  else
    { book with
      remaining := remainingOf packages, syncedAt := now, consumed := 0, metered := 0
    }.migrate packages members now

/-! ## Manual operations -/

end Book

inductive LedgerError where
  | notSynced
  | nothingUnallocated
  | allocationNotPositive
  | onlyUnallocated (available : Nat)
  | unknownUser (name : String)
  | noUsers
  | transferNotPositive
  | sameUser
  | onlyLeft (user : String) (available : Nat)
  deriving DecidableEq, Repr

/-- The texts of the errors; `formatSize` and `quoted` stand for `format_size` and `{:?}`. -/
def LedgerError.message (formatSize : Nat → String) (quoted : String → String) :
    LedgerError → String
  | notSynced => "remote accounting has not synced yet"
  | nothingUnallocated => "nothing is unallocated"
  | allocationNotPositive => "allocation amount must be positive"
  | onlyUnallocated available => "only " ++ formatSize available ++ " is unallocated"
  | unknownUser name => "unknown user " ++ quoted name
  | noUsers => "there are no users to allocate to"
  | transferNotPositive => "transfer amount must be positive"
  | sameUser => "cannot transfer to the same user"
  | onlyLeft user available => user ++ " has only " ++ formatSize available ++ " left"

namespace Book

def allocateEntry (now : Int) (share : String × Nat) : Entry where
  time := now
  kind := .allocate
  user := share.1
  amount := signed share.2
  package := none
  note := ""

/-- The receivers of an allocation. -/
def receivers (members : List Member) : Option String → Except LedgerError (List String)
  | some name =>
    if members.any (·.name == name) then .ok [name] else .error (.unknownUser name)
  | none => .ok (members.map Member.name)

/-- The checks of `allocate`: who receives, and how much in all. -/
def checkAllocate (book : Book) (members : List Member) (receiver : Option String)
    (amount : Option Nat) : Except LedgerError (List String × Nat) := do
  if !book.migrated then throw .notSynced
  let available := book.unallocated
  if available ≤ 0 then throw .nothingUnallocated
  let amount := amount.getD available.toNat
  if amount = 0 then throw .allocationNotPositive
  if available < signed amount then throw (.onlyUnallocated available.toNat)
  let names ← receivers members receiver
  if names.isEmpty then throw .noUsers
  return (names, amount)

def allocate (book : Book) (members : List Member) (receiver : Option String)
    (amount : Option Nat) (now : Int) : Book × Except LedgerError (List Entry) :=
  match book.checkAllocate members receiver amount with
  | .error e => (book, .error e)
  | .ok (names, amount) =>
    let shares := names.zip (splitEvenly amount names.length)
    let joined := book.join members
    ({ joined with
        balances := shares.foldl (fun balances share => adjust balances share.1 (signed share.2))
          joined.balances },
      .ok (shares.map (allocateEntry now)))

def transferEntry (now : Int) (user : String) (amount : Int) (note : String) : Entry where
  time := now
  kind := .transfer
  user := user
  amount := amount
  package := none
  note := note

def findMember (members : List Member) (name : String) : Except LedgerError Member :=
  match members.find? (·.name == name) with
  | some member => .ok member
  | none => .error (.unknownUser name)

/-- The checks of `transfer` made before the members join. -/
def checkTransfer (book : Book) (members : List Member) (sender receiver : String)
    (amount : Nat) : Except LedgerError Member := do
  if !book.migrated then throw .notSynced
  if amount = 0 then throw .transferNotPositive
  if sender = receiver then throw .sameUser
  let source ← findMember members sender
  let _ ← findMember members receiver
  return source

/-- What a user has left: the balance less what was used since the baseline. -/
def spendable (book : Book) (source : Member) : Int :=
  sclamp 64 (book.balances.getD source.name 0 -
    signed (source.used - book.baselines.getD source.name 0))

def transfer (book : Book) (members : List Member) (sender receiver : String) (amount : Nat)
    (now : Int) : Book × Except LedgerError (List Entry) :=
  match book.checkTransfer members sender receiver amount with
  | .error e => (book, .error e)
  | .ok source =>
    let joined := book.join members
    let available := joined.spendable source
    if available < signed amount then
      (joined, .error (.onlyLeft sender (max available 0).toNat))
    else
      ({ joined with
          balances := adjust (adjust joined.balances sender (-signed amount)) receiver
            (signed amount) },
        .ok [transferEntry now sender (-signed amount) receiver,
          transferEntry now receiver (signed amount) sender])

end Book

/-! ## Runs -/

/-- The arguments of one `reconcile` call. -/
structure Sync where
  packages : List Package
  members : List Member
  assignments : Assignments
  now : Int

inductive LedgerCall where
  | reconcile (sync : Sync)
  | transfer (members : List Member) (sender receiver : String) (amount : Nat) (now : Int)
  | allocate (members : List Member) (receiver : Option String) (amount : Option Nat) (now : Int)

namespace Book

def sync (book : Book) (s : Sync) : Book × List Entry :=
  book.reconcile s.packages s.members s.assignments s.now

def syncs (book : Book) (run : List Sync) : Book := run.foldl (fun b s => (b.sync s).1) book

/-- The book a call leaves, refused or not. -/
def call (book : Book) : LedgerCall → Book
  | .reconcile s => (book.sync s).1
  | .transfer members sender receiver amount now =>
    (book.transfer members sender receiver amount now).1
  | .allocate members receiver amount now => (book.allocate members receiver amount now).1

def calls (book : Book) (run : List LedgerCall) : Book := run.foldl call book

end Book

end PortsBox
