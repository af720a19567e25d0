import PortsBox.Lib.Window
import PortsBox.LedgerCore
import PortsBox.QuotaCore

/-!
# The state database

The three tables of `StateDb` with what reads and writes them. A transaction is
atomic: it either commits, or reports an error and leaves every table as it was.
How `serde_json` writes and reads a `Book` is a parameter. Left out are the
`updated_at` columns, which nothing reads, and read errors.
-/

set_option autoImplicit false

namespace PortsBox

def EntryKind.asStr : EntryKind → String
  | .migration => "migration"
  | .credit => "credit"
  | .expiry => "expiry"
  | .transfer => "transfer"
  | .allocate => "allocate"

def EntryKind.parse (text : String) : Option EntryKind :=
  [EntryKind.migration, .credit, .expiry, .transfer, .allocate].find? fun kind =>
    kind.asStr = text

theorem EntryKind.parse_asStr (kind : EntryKind) : EntryKind.parse kind.asStr = some kind := by
  cases kind <;> decide

/-- `serde_json` on a `Book`. -/
structure BookCodec where
  Text : Type
  toString : Book → Except String Text
  fromStr : Text → Except String Book

/-- What is written is read back. -/
def BookCodec.RoundTrips (codec : BookCodec) : Prop :=
  ∀ book text, codec.toString book = .ok text → codec.fromStr text = .ok book

/-! ## The ledger table -/

structure LedgerRow where
  id : Nat
  time : Int
  kind : String
  user : String
  amount : Int
  package : Option String
  note : String
  deriving DecidableEq, Repr

theorem LedgerRow.increasing_nil : ([] : List LedgerRow).Pairwise fun a b => a.id < b.id :=
  List.Pairwise.nil

theorem LedgerRow.id_le_nil : ∀ row ∈ ([] : List LedgerRow), row.id ≤ 0 :=
  List.forall_mem_nil _

/-- `ledger_entries`, whose ids are handed out in order. -/
structure LedgerTable where
  rows : List LedgerRow := []
  /-- The largest id so far. -/
  lastId : Nat := 0
  increasing : rows.Pairwise fun a b => a.id < b.id := by exact LedgerRow.increasing_nil
  id_le : ∀ row ∈ rows, row.id ≤ lastId := by exact LedgerRow.id_le_nil

def LedgerRow.ofEntry (id : Nat) (entry : Entry) : LedgerRow where
  id := id
  time := entry.time
  kind := entry.kind.asStr
  user := entry.user
  amount := entry.amount
  package := entry.package
  note := entry.note

/-- A row whose kind is unknown is skipped. -/
def LedgerRow.toEntry (row : LedgerRow) : Option Entry := do
  let kind ← EntryKind.parse row.kind
  return { time := row.time, kind, user := row.user, amount := row.amount
           package := row.package, note := row.note }

theorem LedgerRow.toEntry_ofEntry (id : Nat) (entry : Entry) :
    (LedgerRow.ofEntry id entry).toEntry = some entry := by
  unfold toEntry ofEntry
  rw [EntryKind.parse_asStr]
  rfl

namespace LedgerTable

def insert (table : LedgerTable) (entry : Entry) : LedgerTable where
  rows := table.rows ++ [.ofEntry (table.lastId + 1) entry]
  lastId := table.lastId + 1
  increasing := by
    refine List.pairwise_append.mpr ⟨table.increasing, List.pairwise_singleton _ _, ?_⟩
    intro row hrow new hnew
    rw [List.mem_singleton] at hnew
    subst hnew
    exact Nat.lt_succ_of_le (table.id_le row hrow)
  id_le := by
    intro row hrow
    rcases List.mem_append.mp hrow with hrow | hrow
    · exact Nat.le_succ_of_le (table.id_le row hrow)
    · rw [List.mem_singleton] at hrow
      subst hrow
      exact Nat.le_refl _

def insertAll (table : LedgerTable) (entries : List Entry) : LedgerTable :=
  entries.foldl insert table

/-- `ORDER BY id DESC LIMIT`, turned around. -/
def recent (table : LedgerTable) (limit : Nat) : List Entry :=
  (((Window.newestFirst LedgerRow.id table.rows).take limit).filterMap LedgerRow.toEntry).reverse

/-- Every row that reads as an entry, oldest first. -/
def entries (table : LedgerTable) : List Entry := table.rows.filterMap LedgerRow.toEntry

/-- Every row was written from an entry. -/
def Readable (table : LedgerTable) : Prop := ∀ row ∈ table.rows, row.toEntry.isSome = true

theorem entries_insert (table : LedgerTable) (entry : Entry) :
    (table.insert entry).entries = table.entries ++ [entry] := by
  unfold entries insert
  rw [List.filterMap_append, List.filterMap_cons_some (LedgerRow.toEntry_ofEntry _ _)]
  rfl

theorem entries_insertAll (table : LedgerTable) (entries : List Entry) :
    (table.insertAll entries).entries = table.entries ++ entries := by
  induction entries generalizing table with
  | nil => exact (List.append_nil _).symm
  | cons entry entries ih =>
    change ((table.insert entry).insertAll entries).entries = _
    rw [ih, entries_insert, List.append_assoc]
    rfl

theorem readable_insert {table : LedgerTable} (h : table.Readable) (entry : Entry) :
    (table.insert entry).Readable := by
  intro row hrow
  rcases List.mem_append.mp hrow with hrow | hrow
  · exact h row hrow
  · rw [List.mem_singleton] at hrow
    subst hrow
    rw [LedgerRow.toEntry_ofEntry]
    rfl

theorem readable_insertAll {table : LedgerTable} (h : table.Readable) (entries : List Entry) :
    (table.insertAll entries).Readable := by
  induction entries generalizing table with
  | nil => exact h
  | cons entry entries ih => exact ih (readable_insert h entry)

/-- Reading back the newest rows gives the end of the ledger. -/
theorem recent_eq {table : LedgerTable} (h : table.Readable) (limit : Nat) :
    table.recent limit = table.entries.rtake limit := by
  unfold recent entries
  rw [← List.filterMap_reverse, Window.reverse_take_newestFirst table.increasing,
    Window.filterMap_rtake h]

end LedgerTable

/-! ## The database -/

/-- The tables, and the last flushed snapshot of each user, which only this process knows. -/
structure StateDb (Text : Type) where
  usage : BTreeMap SavedUsage := ∅
  book : Option Text := none
  ledger : LedgerTable := {}
  lastFlushed : BTreeMap SavedUsage := ∅

namespace StateDb

/-- The database as a new process opens it. -/
def reopen {Text : Type} (db : StateDb Text) : StateDb Text := { db with lastFlushed := ∅ }

def load {Text : Type} (db : StateDb Text) : BTreeMap SavedUsage := db.usage

/-- The users whose snapshot is not the last flushed one. -/
def dirty {Text : Type} (db : StateDb Text) (users : List (String × SavedUsage)) :
    List (String × SavedUsage) :=
  users.filter fun row => db.lastFlushed[row.1]? ≠ some row.2

/-- Writes changed counters back; `tx` is how the transaction ends. -/
def flush {Text : Type} (tx : Except String Unit) (db : StateDb Text)
    (users : List (String × SavedUsage)) : StateDb Text × Except String Unit :=
  let dirty := db.dirty users
  if dirty.isEmpty then (db, .ok ())
  else
    match tx with
    | .error e => (db, .error e)
    | .ok () =>
      ({ db with
          usage := dirty.foldl (fun usage row => usage.insert row.1 row.2) db.usage
          lastFlushed := dirty.foldl (fun last row => last.insert row.1 row.2) db.lastFlushed },
        .ok ())

variable (codec : BookCodec)

def loadBook (db : StateDb codec.Text) : Except String (Option Book) :=
  match db.book with
  | none => .ok none
  | some raw =>
    match codec.fromStr raw with
    | .ok book => .ok (some book)
    | .error e => .error ("invalid ledger: " ++ e)

/-- Writes the book and appends the entries in one transaction; `tx` is how it ends. -/
def saveBook (tx : Except String Unit) (db : StateDb codec.Text) (book : Book)
    (entries : List Entry) : StateDb codec.Text × Except String Unit :=
  match codec.toString book with
  | .error e => (db, .error ("cannot encode ledger: " ++ e))
  | .ok json =>
    match tx with
    | .error e => (db, .error e)
    | .ok () => ({ db with book := some json, ledger := db.ledger.insertAll entries }, .ok ())

def recentEntries {Text : Type} (db : StateDb Text) (limit : Nat) : List Entry :=
  db.ledger.recent limit

/-- A save that ends in an error changes nothing; one that succeeds holds the book and the
entries. -/
theorem saveBook_cases (tx : Except String Unit) (db : StateDb codec.Text) (book : Book)
    (entries : List Entry) :
    (∃ e, db.saveBook codec tx book entries = (db, .error e)) ∨
    ∃ json, codec.toString book = .ok json ∧ db.saveBook codec tx book entries =
      ({ db with book := some json, ledger := db.ledger.insertAll entries }, .ok ()) := by
  unfold saveBook
  cases hjson : codec.toString book with
  | error e => exact .inl ⟨_, rfl⟩
  | ok json =>
    cases tx with
    | error e => exact .inl ⟨e, rfl⟩
    | ok _ => exact .inr ⟨json, rfl, rfl⟩

end StateDb

end PortsBox
