import PortsBox.EngineOps

/-!
# A process and the ones after it

The main loop and the engine over their database. The engine saves the book in it, a
task flushes the usage counters, and `apply` reads the saved usage for the users it
adds and flushes that of the users it drops. A process can end at any point; the next
one starts from what the database holds, or from nothing when there is none.
-/

set_option autoImplicit false

namespace PortsBox

structure Process (Text : Type) where
  system : System
  db : Option (StateDb Text)
  /-- The entries of the commit under way. -/
  batch : List Entry := []

inductive ProcessStep where
  /-- A step of the system; `flushed` is how the flush of dropped users ends. -/
  | system (step : Step) (flushed : Except String Unit)
  /-- A round of the flush task. -/
  | flush (tx : Except String Unit)
  /-- The process ends and another one starts with this config. -/
  | restart (env : Env) (config : Config)

namespace Process

variable (codec : BookCodec)

def snapshots (w : World) (users : List QuotaRef) : List (String × SavedUsage) :=
  users.map fun ref => (ref.name, (w.quotas ref.id).snapshot)

/-- The users that are not among the next ones. -/
def gone (current next : List QuotaRef) : List QuotaRef :=
  current.filter fun ref => (getUser next ref.name).isNone

/-- What `load` reads. -/
def savedUsage {Text : Type} (db : Option (StateDb Text)) : BTreeMap SavedUsage :=
  db.elim ∅ StateDb.load

/-- When the state database answers, it is with the usage it holds. -/
def answered {Text : Type} (db : Option (StateDb Text)) (env : Env) : Env :=
  { env with load := env.load.map fun _ => savedUsage db }

def ask {Text : Type} (db : Option (StateDb Text)) : Step → Step
  | .main (.start env config) => .main (.start (answered db env) config)
  | step => step

def orderEntries (book : Book) (members : List Member) (now : Int) : Order → List Entry
  | .transfer sender receiver amount =>
    match book.transfer members sender receiver amount now with
    | (_, .ok entries) => entries
    | (_, .error _) => []
  | .allocate receiver amount =>
    match book.allocate members receiver amount now with
    | (_, .ok entries) => entries
    | (_, .error _) => []

/-- The entries a commit will save with the book. -/
def batchAfter {Text : Type} (p : Process Text) : Step → List Entry
  | .engine (.fetched (.ok fetched) now) =>
    match p.system.engine with
    | .fetching config =>
      (p.system.book.reconcile fetched.packages (members p.system.world config)
        (assignments config) now).2
    | _ => p.batch
  | .engine (.compute now) =>
    match p.system.engine with
    | .ordering config order =>
      orderEntries p.system.book (members p.system.world config) now order
    | _ => p.batch
  | _ => p.batch

/-- The database after a step; a save that cannot succeed is no step. -/
def dbAfter (p : Process codec.Text) (flushed : Except String Unit) :
    Step → Option (Option (StateDb codec.Text))
  | .engine (.saved true) =>
    match p.system.engine, p.db with
    | .saving _ book, some db =>
      match db.saveBook codec (.ok ()) book p.batch with
      | (db, .ok ()) => some (some db)
      | (_, .error _) => none
    | _, db => some db
  | .main .publishUsers =>
    match p.system.main with
    | .adopting _ _ _ _ _ users _ =>
      some (p.db.map fun db =>
        (db.flush flushed
          (snapshots p.system.world (gone p.system.world.runtime.users users))).1)
    | _ => some p.db
  | _ => some p.db

def systemStep (p : Process codec.Text) (step : Step) (flushed : Except String Unit) :
    Option (Process codec.Text) :=
  (p.system.step (ask p.db step)).bind fun system =>
    (p.dbAfter codec flushed step).map fun db => { system, db, batch := p.batchAfter step }

/-- `run` in `main.rs` up to where the engine starts. -/
def start (db : Option (StateDb codec.Text)) (quotas : Nat → UserQuota) (env : Env)
    (config : Config) : Option (Process codec.Text) :=
  match Engine.load codec db with
  | .error _ => none
  | .ok engine =>
    match apply (answered db env) config
      { runtime := { hasDb := db.isSome }, remote := initialLimits engine.book, quotas } with
    | .error _ _ => none
    | .ok _ w => some { system := System.started engine.book config w, db := engine.db }

def step (p : Process codec.Text) : ProcessStep → Option (Process codec.Text)
  | .system step flushed => p.systemStep codec step flushed
  | .flush tx =>
    some { p with
      db := p.db.map fun db =>
        (db.flush tx (snapshots p.system.world p.system.world.runtime.users)).1 }
  | .restart env config => start codec p.db p.system.world.quotas env config

def steps (p : Process codec.Text) : List ProcessStep → Option (Process codec.Text)
  | [] => some p
  | step :: rest => (p.step codec step).bind fun next => next.steps rest

end Process

/-- A config with remote accounting active that was accepted. -/
structure RemoteConfigured (config : Config) : Prop where
  accepted : Accepted config
  active : config.accounting.activeRemote.isSome = true

def ProcessStep.Admissible : ProcessStep → Prop
  | .system (.main (.start _ config)) _ => RemoteConfigured config
  | .restart _ config => RemoteConfigured config
  | _ => True

/-- Runs with remote accounting active, from a first start without a ledger, in which each step
satisfies a condition. -/
inductive Process.Runs (codec : BookCodec) (allowed : Process codec.Text → ProcessStep → Prop) :
    Process codec.Text → Prop
  | started {db : Option (StateDb codec.Text)} {quotas : Nat → UserQuota} {env : Env}
      {config : Config} {p : Process codec.Text}
      (hdb : ∀ opened, db = some opened → opened.book = none) (hconfig : RemoteConfigured config)
      (hstart : Process.start codec db quotas env config = some p) : Runs codec allowed p
  | step {p next : Process codec.Text} {step : ProcessStep} (before : Runs codec allowed p)
      (hadmissible : step.Admissible) (hallowed : allowed p step)
      (hstep : p.step codec step = some next) : Runs codec allowed next

end PortsBox
