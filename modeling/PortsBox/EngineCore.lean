import PortsBox.RuntimeRuns
import PortsBox.LedgerCore

/-!
# The main loop and the accounting engine

Both write the users' limits. Each runs as a sequence of steps, and the steps of
the two interleave in any order; between two steps other tasks meter traffic. The
engine is the task that owns the book. Left out is what no limit depends on: the
status and the recent entries it publishes, the package list it ignores, and when
it decides to sync, which may be at any time here.
-/

set_option autoImplicit false

namespace PortsBox

def assignments (config : Config) : Assignments where
  split := (config.accounting.remote.elim [] RemoteConfig.packages).toFinset
  owners := (config.users.flatMap fun user => user.packages.map fun id => (id, user.name)).foldl
    (fun owners row => owners.insert row.1 row.2) ∅
  exclusive := config.singleUser

/-- The configured users that are published, in config order. -/
def members (w : World) (config : Config) : List Member :=
  (config.users.filterMap fun user => getUser w.runtime.users user.name).map fun ref =>
    { name := ref.name
      used := (w.quotas ref.id).used
      offlineRemaining := (w.quotas ref.id).remaining }

/-- What `RemoteLimits::new` starts with. -/
def initialLimits (book : Book) : Option (Std.ExtTreeMap String Nat) :=
  if book.migrated then some book.limits else none

/-- Where the main loop is. -/
inductive MainAt where
  | idle
  /-- In `apply`, past its last failure point, setting the users' limits. -/
  | adopting (env : Env) (config : Config) (settings : Settings) (removed : List RuleSpec)
      (added : List PreparedRule) (done : List QuotaRef) (todo : List UserConfig)
  /-- `apply` has returned, `publish` has not run. -/
  | applied (config : Config)

/-- A transfer or an allocation from the panel. -/
inductive Order where
  | transfer (sender receiver : String) (amount : Nat)
  | allocate (receiver : Option String) (amount : Option Nat)
  deriving DecidableEq, Repr

/-- Where the engine is, with the config it captured. -/
inductive EngineAt where
  | idle
  /-- In `sync_with`, waiting for the provider. -/
  | fetching (config : Config)
  /-- In `transfer` or `allocate`, about to read the members. -/
  | ordering (config : Config) (order : Order)
  /-- In `commit`, waiting for the database. -/
  | saving (config : Config) (book : Book)
  /-- `live.changed()` has resolved, the config is not read yet. -/
  | changed
  /-- Calling `apply_limits`. -/
  | limiting (config : Config)
  /-- In `apply_limits`, with the remote limits set. -/
  | borrowing
  /-- In the loop of `apply_limits`, with the users that are left. -/
  | setting (todo : List QuotaRef)

structure System where
  world : World
  /-- The config in the `Live` channel. -/
  live : Config
  /-- Whether the engine has seen the latest `Live`. -/
  seen : Bool
  book : Book
  main : MainAt
  engine : EngineAt

/-! ## Steps -/

inductive MainStep where
  /-- The first part of `apply`, for a reload or a save: binds, saved usage, remote limits. -/
  | start (env : Env) (config : Config)
  /-- One round of the loop over the users. -/
  | adopt
  /-- The rest of `apply`. -/
  | publishUsers
  | publishLive

inductive EngineStep where
  | sync
  | order (order : Order)
  | fetched (result : Except String Fetched) (now : Int)
  | compute (now : Int)
  | saved (ok : Bool)
  | liveChanged
  | readLive
  | setRemote
  | borrowUsers
  /-- One round of the loop over the users, or its end. -/
  | setLimit

/-- What the tasks that forward and settle do to one user's quota. -/
inductive TrafficStep where
  | tryConsumeAt (id n : Nat) (direction : Direction) (hour : Int)
  | rollOverAt (id : Nat) (hour : Int)

inductive Step where
  | main (step : MainStep)
  | engine (step : EngineStep)
  | traffic (step : TrafficStep)

def World.setQuota (w : World) (id : Nat) (quota : UserQuota) : World :=
  { w with quotas := Function.update w.quotas id quota }

namespace System

def mainStep (s : System) : MainStep → Option System
  | .start env config =>
    match s.main with
    | .idle =>
      match gathered env config s.world with
      | (binds, .error _) => some { s with world := { s.world with binds } }
      | (binds, .ok (added, saved)) =>
        some { s with
          world := { s.world with binds }
          main := .adopting env config (settingsOf config s.world saved)
            (removedSpecs s.world.runtime.rules (specsOf config)) added [] config.users }
    | _ => none
  | .adopt =>
    match s.main with
    | .adopting env config settings removed added done (user :: todo) =>
      let (ref, world) := adoptUser env settings s.world.runtime.users s.world user
      some { s with
        world
        main := .adopting env config settings removed added (done ++ [ref]) todo }
    | _ => none
  | .publishUsers =>
    match s.main, s.engine with
    -- the engine's loop borrows the published users, which blocks `send_replace`
    | .adopting .., .setting _ => none
    | .adopting _ config _ removed added users [], _ =>
      some { s with world := swapRules removed added users s.world, main := .applied config }
    | _, _ => none
  | .publishLive =>
    match s.main with
    | .applied config => some { s with live := config, seen := false, main := .idle }
    | _ => none

/-- `transfer` and `allocate` on a copy of the book. -/
def runOrder (book : Book) (members : List Member) (now : Int) : Order → Option Book
  | .transfer sender receiver amount =>
    match book.transfer members sender receiver amount now with
    | (book, .ok _) => some book
    | (_, .error _) => none
  | .allocate receiver amount =>
    match book.allocate members receiver amount now with
    | (book, .ok _) => some book
    | (_, .error _) => none

/-- The limit `apply_limits` sets for a user. -/
def limitFor (book : Book) (name : String) (quota : UserQuota) : Nat :=
  (book.limit name).getD quota.used

/-- `if quota.limit() != Some(limit) { quota.set_limit(Some(limit)) }` -/
def limited (book : Book) (name : String) (quota : UserQuota) : UserQuota :=
  let limit := limitFor book name quota
  if quota.limit ≠ some limit then quota.setLimit (some limit) else quota

def engineStep (s : System) : EngineStep → Option System
  | .sync =>
    match s.engine with
    | .idle =>
      if s.live.accounting.activeRemote.isNone then some s
      else if !s.book.migrated && (members s.world s.live).isEmpty then some s
      else some { s with engine := .fetching s.live }
    | _ => none
  | .order order =>
    match s.engine with
    | .idle => some { s with engine := .ordering s.live order }
    | _ => none
  | .fetched result now =>
    match s.engine, result with
    | .fetching _, .error _ => some { s with engine := .idle }
    | .fetching config, .ok fetched =>
      if !s.book.migrated && !fetched.packages.any Package.effective then
        some { s with engine := .idle }
      else
        let book := (s.book.reconcile fetched.packages (members s.world config)
          (assignments config) now).1
        some { s with engine := .saving config book }
    | _, _ => none
  | .compute now =>
    match s.engine with
    | .ordering config order =>
      match runOrder s.book (members s.world config) now order with
      | some book => some { s with engine := .saving config book }
      | none => some { s with engine := .idle }
    | _ => none
  | .saved ok =>
    match s.engine with
    | .saving config book =>
      if ok then some { s with book, engine := .limiting config }
      -- without a database `commit` cannot fail
      else if s.world.runtime.hasDb then some { s with engine := .idle }
      else none
    | _ => none
  | .liveChanged =>
    match s.engine with
    | .idle => if s.seen then none else some { s with seen := true, engine := .changed }
    | _ => none
  | .readLive =>
    match s.engine with
    | .changed => some { s with engine := .limiting s.live }
    | _ => none
  | .setRemote =>
    match s.engine with
    | .limiting config =>
      if !s.book.migrated then some { s with engine := .idle }
      else
        some { s with
          world := { s.world with remote := some s.book.limits }
          engine := if config.accounting.activeRemote.isNone then .idle else .borrowing }
    | _ => none
  | .borrowUsers =>
    match s.engine with
    | .borrowing => some { s with engine := .setting s.world.runtime.users }
    | _ => none
  | .setLimit =>
    match s.engine with
    | .setting [] => some { s with engine := .idle }
    | .setting (ref :: todo) =>
      some { s with
        world := s.world.setQuota ref.id (limited s.book ref.name (s.world.quotas ref.id))
        engine := .setting todo }
    | _ => none

def trafficStep (s : System) : TrafficStep → System
  | .tryConsumeAt id n direction hour =>
    { s with world := s.world.setQuota id ((s.world.quotas id).tryConsumeAt n direction hour).1 }
  | .rollOverAt id hour =>
    { s with world := s.world.setQuota id ((s.world.quotas id).rollOverAt hour) }

def step (s : System) : Step → Option System
  | .main step => s.mainStep step
  | .engine step => s.engineStep step
  | .traffic step => some (s.trafficStep step)

/-- Several steps in a row. -/
def steps (s : System) : List Step → Option System
  | [] => some s
  | step :: rest => (s.step step).bind fun next => next.steps rest

/-- What `run` starts the engine with: the config is applied and published, and the engine's
receiver has seen it. -/
def started (book : Book) (config : Config) (world : World) : System where
  world
  live := config
  seen := true
  book
  main := .idle
  engine := .idle

end System

/-- Reloads and saves only apply configs that were accepted. -/
def Step.Admissible : Step → Prop
  | .main (.start _ config) => Accepted config
  | _ => True

/-- The systems reached by steps that each satisfy a condition. -/
inductive Runs (allowed : System → Step → Prop) : System → Prop
  | started {env : Env} {config : Config} {book : Book} {hasDb : Bool} {quotas : Nat → UserQuota}
      {w : World} (haccepted : Accepted config)
      (happly : apply env config { runtime := { hasDb }, remote := initialLimits book, quotas } =
        .ok () w) : Runs allowed (System.started book config w)
  | step {s next : System} {step : Step} (before : Runs allowed s)
      (hadmissible : step.Admissible) (hallowed : allowed s step) (hstep : s.step step = some next) :
      Runs allowed next

/-- Any order of steps. -/
abbrev Reachable : System → Prop := Runs fun _ _ => True

/-! ## What the limits should be -/

/-- What `limit()` reads after `set_limit`: `u64::MAX` is stored as no limit. -/
def storedLimit (limit : Option Nat) : Option Nat := limit.filter (· ≠ noLimit)

/-- The limit of a user is the config's, or the book's once the book is migrated and in use. -/
def LimitFollows (config : Config) (book : Book) (name : String) (quota : UserQuota) : Prop :=
  if config.accounting.activeRemote.isSome ∧ book.migrated = true then
    match book.limit name with
    | some limit => quota.limit = storedLimit (some limit)
    | none => ∃ limit ≤ quota.used, quota.limit = storedLimit (some limit)
  else quota.limit = storedLimit ((resolveQuotas config).getD name none)

namespace System

/-- No operation of either party is in progress and the engine has seen the latest `Live`. -/
structure Quiet (s : System) : Prop where
  main : s.main = .idle
  engine : s.engine = .idle
  seen : s.seen = true

/-- Every configured user is published, with the limit that follows the live config. -/
def LimitsFollowLive (s : System) : Prop :=
  ∀ user ∈ s.live.users, ∃ ref, getUser s.world.runtime.users user.name = some ref ∧
    LimitFollows s.live s.book user.name (s.world.quotas ref.id)

end System

end PortsBox
