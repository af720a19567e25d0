import PortsBox.EngineCore
import PortsBox.StateDb

/-!
# The engine's operations

`sync`, `transfer` and `allocate` as whole calls, with the ledger they commit. While
a call waits for the provider or the database other tasks go on: they may change the
world in any way, except that only the engine sets the remote limits. The status that
is published after each call is left out.
-/

set_option autoImplicit false

namespace PortsBox

/-- `RECENT_ENTRIES` -/
def recentLimit : Nat := 500

inductive EngineError where
  | remoteOff
  | waitingForUser
  | fetch (e : String)
  | noEffective (regions : List String)
  | refused (e : LedgerError)
  | saveTaskFailed (e : String)
  | cannotSave (e : String)
  deriving DecidableEq, Repr

/-- The texts of the errors; `formatSize` and `quoted` stand for `format_size` and `{:?}`. -/
def EngineError.message (formatSize : Nat → String) (quoted : String → String) :
    EngineError → String
  | remoteOff => "remote accounting is off"
  | waitingForUser => "waiting for a user before remote accounting can start"
  | fetch e => e
  | noEffective regions => "no effective traffic packages in " ++ ", ".intercalate regions
  | refused e => e.message formatSize quoted
  | saveTaskFailed e => "ledger save task failed: " ++ e
  | cannotSave e => "cannot save ledger: " ++ e

structure Engine (Text : Type) where
  db : Option (StateDb Text)
  book : Book
  /-- The latest ledger entries, a bounded queue. -/
  entries : List Entry
  lastAttempt : Option Int := none
  lastError : Option EngineError := none
  ignored : List Package := []

/-- What other tasks do while the engine waits. -/
structure Meanwhile where
  run : World → World
  /-- Only the engine sets the remote limits. -/
  run_remote : ∀ w, (run w).remote = w.remote

/-- How the task that saves the ledger ends; one that panics has not committed. -/
inductive SaveTask where
  | ended (tx : Except String Unit)
  | panicked (e : String)

/-- What one call meets outside. -/
structure Surroundings where
  fetch : RemoteConfig → Except String Fetched
  fetching : Meanwhile
  save : SaveTask
  saving : Meanwhile
  /-- The time when the call starts, and when it changes the book. -/
  attempt : Int
  now : Int

namespace Engine

variable (codec : BookCodec)

def applyLimits {Text : Type} (engine : Engine Text) (config : Config) (w : World) : World :=
  if !engine.book.migrated then w
  else
    let w := { w with remote := some engine.book.limits }
    if config.accounting.activeRemote.isNone then w
    else
      w.runtime.users.foldl (fun w ref =>
        w.setQuota ref.id (System.limited engine.book ref.name (w.quotas ref.id))) w

/-- The end of `commit`, once the database has the book. -/
def keep {Text : Type} (engine : Engine Text) (book : Book) (entries : List Entry) :
    Engine Text :=
  { engine with book, entries := Window.pushAll recentLimit engine.entries entries }

def commit (save : SaveTask) (engine : Engine codec.Text) (book : Book) (entries : List Entry) :
    Engine codec.Text × Except EngineError Unit :=
  match engine.db with
  | none => (engine.keep book entries, .ok ())
  | some db =>
    match save with
    | .panicked e => (engine, .error (.saveTaskFailed e))
    | .ended tx =>
      match db.saveBook codec tx book entries with
      | (_, .error e) => (engine, .error (.cannotSave e))
      | (db, .ok ()) => ({ engine with db := some db }.keep book entries, .ok ())

/-- `commit(..).await?` and `apply_limits`, with which every call ends. -/
def settle (env : Surroundings) (engine : Engine codec.Text) (w : World) (config : Config)
    (book : Book) (entries : List Entry) : Engine codec.Text × World × Except EngineError Unit :=
  let w := env.saving.run w
  match engine.commit codec env.save book entries with
  | (engine, .error e) => (engine, w, .error e)
  | (engine, .ok ()) => (engine, engine.applyLimits config w, .ok ())

def syncWith (env : Surroundings) (engine : Engine codec.Text) (w : World) (config : Config)
    (remote : RemoteConfig) : Engine codec.Text × World × Except EngineError Unit :=
  if !engine.book.migrated && (members w config).isEmpty then
    (engine, w, .error .waitingForUser)
  else
    let w := env.fetching.run w
    match env.fetch remote with
    | .error e => (engine, w, .error (.fetch e))
    | .ok fetched =>
      let engine := { engine with ignored := fetched.ignored }
      if !engine.book.migrated && !fetched.packages.any Package.effective then
        (engine, w, .error (.noEffective remote.regions))
      else
        let (book, entries) := engine.book.reconcile fetched.packages (members w config)
          (assignments config) env.now
        engine.settle codec env w config book entries

/-- The end of `sync`, which keeps the error. -/
def noted {Text : Type} : Engine Text × World × Except EngineError Unit →
    Engine Text × World × Except EngineError Unit
  | (engine, w, .ok ()) => ({ engine with lastError := none }, w, .ok ())
  | (engine, w, .error e) => ({ engine with lastError := some e }, w, .error e)

def sync (env : Surroundings) (engine : Engine codec.Text) (w : World) (config : Config) :
    Engine codec.Text × World × Except EngineError Unit :=
  match config.accounting.activeRemote with
  | some remote =>
    noted ({ engine with lastAttempt := some env.attempt }.syncWith codec env w config remote)
  | none => noted (engine, w, .error .remoteOff)

/-- What both manual operations do with the answer of the book. -/
def manual (env : Surroundings) (engine : Engine codec.Text) (w : World) (config : Config) :
    Book × Except LedgerError (List Entry) →
      Engine codec.Text × World × Except EngineError Unit
  | (_, .error e) => (engine, w, .error (.refused e))
  | (book, .ok entries) => engine.settle codec env w config book entries

def transfer (env : Surroundings) (engine : Engine codec.Text) (w : World) (config : Config)
    (sender receiver : String) (amount : Nat) :
    Engine codec.Text × World × Except EngineError Unit :=
  engine.manual codec env w config
    (engine.book.transfer (members w config) sender receiver amount env.now)

def allocate (env : Surroundings) (engine : Engine codec.Text) (w : World) (config : Config)
    (receiver : Option String) (amount : Option Nat) :
    Engine codec.Text × World × Except EngineError Unit :=
  engine.manual codec env w config
    (engine.book.allocate (members w config) receiver amount env.now)

/-- What `run` in `main.rs` loads the ledger with. -/
def load (db : Option (StateDb codec.Text)) : Except String (Engine codec.Text) :=
  match db with
  | none => .ok { db := none, book := {}, entries := [] }
  | some db =>
    match db.loadBook codec with
    | .error e => .error e
    | .ok book =>
      .ok { db := some db.reopen, book := book.getD {}, entries := db.recentEntries recentLimit }

end Engine

/-! ## Runs -/

inductive EngineCall where
  | sync
  | transfer (sender receiver : String) (amount : Nat)
  | allocate (receiver : Option String) (amount : Option Nat)
  deriving DecidableEq, Repr

/-- The engine and the world its limits are for. -/
structure Accounts (Text : Type) where
  engine : Engine Text
  world : World

/-- A call, with the config that is live when it starts. -/
def Accounts.call (codec : BookCodec) (s : Accounts codec.Text) (env : Surroundings)
    (config : Config) : EngineCall → Engine codec.Text × World × Except EngineError Unit
  | .sync => s.engine.sync codec env s.world config
  | .transfer sender receiver amount =>
    s.engine.transfer codec env s.world config sender receiver amount
  | .allocate receiver amount => s.engine.allocate codec env s.world config receiver amount

/-- What a process starts with over a database: the loaded engine, its remote limits, and
whatever users the config has. -/
def Accounts.Starts (codec : BookCodec) (db : Option (StateDb codec.Text))
    (s : Accounts codec.Text) : Prop :=
  Engine.load codec db = .ok s.engine ∧ s.world.remote = initialLimits s.engine.book

/-- The states between calls of a process and of the ones that follow it on its database. -/
inductive Accounts.Reached (codec : BookCodec) : Accounts codec.Text → Prop
  /-- Without a database, or with a new one. -/
  | fresh {s : Accounts codec.Text} {db : Option (StateDb codec.Text)}
      (hdb : db = none ∨ db = some {}) (hstarts : s.Starts codec db) : Reached codec s
  | call {s : Accounts codec.Text} (before : Reached codec s) (env : Surroundings)
      (config : Config) (call : EngineCall) {engine : Engine codec.Text} {w : World}
      {result : Except EngineError Unit}
      (hcall : s.call codec env config call = (engine, w, result)) : Reached codec ⟨engine, w⟩
  | others {s : Accounts codec.Text} (before : Reached codec s) (meanwhile : Meanwhile) :
      Reached codec ⟨s.engine, meanwhile.run s.world⟩
  | liveChanged {s : Accounts codec.Text} (before : Reached codec s) (config : Config) :
      Reached codec ⟨s.engine, s.engine.applyLimits config s.world⟩
  | restart {s next : Accounts codec.Text} (before : Reached codec s)
      (hstarts : next.Starts codec s.engine.db) : Reached codec next

end PortsBox
