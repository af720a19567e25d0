import PortsBox.ConfigCore

/-!
# `Runtime::apply`

The running rules, the published users and pools, and the objects they share. An
`Arc` is an id, with the parts of the object that never change; a quota object's
counters live in `World.quotas`. What the operating system, the state database
and the clock answer is an `Env`. `apply` keeps its state on an error, so that
nothing is undone unless the code undoes it; log lines and the usage it flushes
for removed users are left out.
-/

set_option autoImplicit false

namespace PortsBox

/-- Maps whose order the code never looks at. -/
abbrev HashMap (K V : Type) := AList fun _ : K => V

structure RuleSpec where
  user : String
  listen : SocketAddr
  protocol : Protocol
  targets : List String
  checkSecs : Nat
  deriving DecidableEq, Repr

structure TcpListener where
  id : Nat
  deriving DecidableEq, Repr

/-- The shards of one address. -/
structure UdpEndpoints where
  id : Nat
  deriving DecidableEq, Repr

/-- An `Arc<TargetPool>`. -/
structure PoolRef where
  id : Nat
  user : String
  targets : List String
  cooldown : Option Nat
  deriving DecidableEq, Repr

/-- An `Arc<UserQuota>`. -/
structure QuotaRef where
  id : Nat
  name : String
  deriving DecidableEq, Repr

structure RunningRule where
  /-- The stop channel: its tasks end when the rule is dropped. -/
  stop : Nat
  pool : PoolRef
  tcp : Option TcpListener
  udp : Option UdpEndpoints
  deriving DecidableEq, Repr

structure PreparedRule where
  spec : RuleSpec
  tcp : Option TcpListener
  udp : Option UdpEndpoints
  deriving DecidableEq, Repr

inductive Work where
  | probe (pool : PoolRef) (interval : Nat)
  | serveTcp (listener : TcpListener) (pool : PoolRef) (quota : QuotaRef)
  | serveUdp (endpoints : UdpEndpoints) (pool : PoolRef) (quota : QuotaRef)
  deriving DecidableEq, Repr

structure Task where
  stop : Nat
  work : Work
  deriving DecidableEq, Repr

inductive Transport where
  | tcp
  | udp
  deriving DecidableEq, Repr

abbrev Bind := Transport × SocketAddr

abbrev PoolMap := HashMap (SocketAddr × Protocol) PoolRef

structure Runtime where
  rules : HashMap RuleSpec RunningRule := ∅
  users : List QuotaRef := []
  pools : PoolMap := ∅
  hasDb : Bool := false
  started : Bool := false

structure World where
  runtime : Runtime := {}
  /-- The limits the accounting engine last set. -/
  remote : Option (Std.ExtTreeMap String Nat) := none
  quotas : Nat → UserQuota
  tasks : List Task := []
  /-- The id of the next object. -/
  next : Nat := 0
  /-- The binds issued by the latest `apply`. -/
  binds : List Bind := []

inductive LoadError where
  | taskFailed (e : String)
  | failed (e : String)
  deriving DecidableEq, Repr

inductive ApplyError where
  | bindTcp (listen : SocketAddr) (e : String)
  | bindUdp (listen : SocketAddr) (e : String)
  | load (e : LoadError)
  deriving DecidableEq, Repr

def ApplyError.message (address : SocketAddr → String) : ApplyError → String
  | bindTcp listen e => "cannot bind tcp " ++ address listen ++ ": " ++ e
  | bindUdp listen e => "cannot bind udp " ++ address listen ++ ": " ++ e
  | load (.taskFailed e) => "state load task failed: " ++ e
  | load (.failed e) => e

/-- What the outside answers during one `apply`. -/
structure Env where
  bindTcp : SocketAddr → Except String TcpListener
  bindUdp : SocketAddr → Except String UdpEndpoints
  load : Except LoadError (Std.ExtTreeMap String SavedUsage)
  /-- The hour when a new user's quota is created. -/
  hour : String → Int

abbrev Apply := EStateM ApplyError World

/-! ## Rules -/

def specOf (user : UserConfig) (rule : Rule) : RuleSpec where
  user := user.name
  listen := rule.listen
  protocol := rule.protocol
  targets := rule.target :: rule.fallback
  checkSecs := rule.checkSecs

/-- The specs of the enabled rules. -/
def specsOf (config : Config) : List RuleSpec :=
  config.users.flatMap fun user => (user.rules.filter (·.enabled)).map (specOf user)

def removedSpecs (rules : HashMap RuleSpec RunningRule) (specs : List RuleSpec) :
    List RuleSpec :=
  rules.keys.filter (· ∉ specs)

structure Spare where
  tcp : HashMap SocketAddr TcpListener := ∅
  udp : HashMap SocketAddr UdpEndpoints := ∅

/-- `if let Some(value) = value { map.insert(listen, value) }` -/
def insertSome {V : Type} (map : HashMap SocketAddr V) (listen : SocketAddr) :
    Option V → HashMap SocketAddr V
  | some value => map.insert listen value
  | none => map

def Spare.add (rules : HashMap RuleSpec RunningRule) (spare : Spare) (spec : RuleSpec) : Spare :=
  match rules.lookup spec with
  | some rule =>
    { tcp := insertSome spare.tcp spec.listen rule.tcp
      udp := insertSome spare.udp spec.listen rule.udp }
  | none => spare

def spareOf (rules : HashMap RuleSpec RunningRule) (removed : List RuleSpec) : Spare :=
  removed.foldl (Spare.add rules) {}

def issue (bind : Bind) : Apply Unit := modify fun w => { w with binds := w.binds ++ [bind] }

def bindSocket {S : Type} (transport : Transport) (bind : SocketAddr → Except String S)
    (error : SocketAddr → String → ApplyError) (listen : SocketAddr) : Apply S := do
  issue (transport, listen)
  match bind listen with
  | .error e => throw (error listen e)
  | .ok socket => pure socket

/-- One transport of a new rule: nothing, the spare socket, or a new one. -/
def takeSocket {S : Type} (transport : Transport) (bind : SocketAddr → Except String S)
    (error : SocketAddr → String → ApplyError) (listen : SocketAddr) (uses : Bool)
    (spare : Option S) : Apply (Option S) :=
  match uses, spare with
  | false, _ => pure none
  | true, some socket => pure (some socket)
  | true, none => do
    let socket ← bindSocket transport bind error listen
    return some socket

def takeTcp (env : Env) (spec : RuleSpec) (spare : Option TcpListener) :
    Apply (Option TcpListener) :=
  takeSocket .tcp env.bindTcp .bindTcp spec.listen spec.protocol.isTcp spare

def takeUdp (env : Env) (spec : RuleSpec) (spare : Option UdpEndpoints) :
    Apply (Option UdpEndpoints) :=
  takeSocket .udp env.bindUdp .bindUdp spec.listen spec.protocol.isUdp spare

/-- The sockets of the rules that are not running yet. The spare ones of a rule's address are
taken out of the maps whether or not its protocol needs them. -/
def prepare (env : Env) (rules : HashMap RuleSpec RunningRule) :
    List RuleSpec → Spare → Apply (List PreparedRule)
  | [], _ => pure []
  | spec :: specs, spare =>
    if spec ∈ rules then prepare env rules specs spare
    else do
      let tcp ← takeTcp env spec (spare.tcp.lookup spec.listen)
      let udp ← takeUdp env spec (spare.udp.lookup spec.listen)
      let rest ← prepare env rules specs
        { tcp := spare.tcp.erase spec.listen, udp := spare.udp.erase spec.listen }
      return ⟨spec, tcp, udp⟩ :: rest

/-! ## Users -/

/-- `UserSet::get`: collecting by name keeps the last of one name. -/
def getUser (users : List QuotaRef) (name : String) : Option QuotaRef :=
  users.reverse.find? (·.name = name)

def loadSaved (env : Env) (runtime : Runtime) (config : Config) :
    Apply (Std.ExtTreeMap String SavedUsage) :=
  let newUsers := config.users.any fun user => (getUser runtime.users user.name).isNone
  if runtime.hasDb && newUsers then
    match env.load with
    | .error e => throw (.load e)
    | .ok saved => pure saved
  else pure ∅

/-- What every user's quota is set to. -/
structure Settings where
  metering : Metering
  remote : Option (Std.ExtTreeMap String Nat)
  quotas : Std.ExtTreeMap String (Option Nat)
  saved : Std.ExtTreeMap String SavedUsage

def Settings.limitOf (settings : Settings) (name : String) (quota : UserQuota) : Option Nat :=
  match settings.remote with
  | some limits => some ((limits[name]?).getD quota.used)
  | none => settings.quotas.getD name none

def Settings.setLimit (settings : Settings) (name : String) (quota : UserQuota) : UserQuota :=
  let limit := settings.limitOf name quota
  if quota.limit ≠ limit then quota.setLimit limit else quota

def Settings.retune (settings : Settings) (name : String) (quota : UserQuota) : UserQuota :=
  let quota :=
    if quota.metering ≠ settings.metering then quota.setMetering settings.metering else quota
  settings.setLimit name quota

def Settings.create (settings : Settings) (name : String) (hour : Int) : UserQuota :=
  let usage := (settings.saved[name]?).getD {}
  settings.setLimit name
    (UserQuota.newMeteredAt name (settings.quotas.getD name none) usage settings.metering hour)

def settingsOf (config : Config) (w : World) (saved : Std.ExtTreeMap String SavedUsage) :
    Settings where
  metering := config.accounting.metering
  remote := config.accounting.activeRemote.bind fun _ => w.remote
  quotas := resolveQuotas config
  saved := saved

/-- A user present before keeps its object; a new one gets a new one. -/
def adoptUser (env : Env) (settings : Settings) (current : List QuotaRef) (w : World)
    (user : UserConfig) : QuotaRef × World :=
  match getUser current user.name with
  | some ref =>
    (ref, { w with
      quotas := Function.update w.quotas ref.id
        (settings.retune ref.name (w.quotas ref.id)) })
  | none =>
    (⟨w.next, user.name⟩, { w with
      quotas := Function.update w.quotas w.next (settings.create user.name (env.hour user.name))
      next := w.next + 1 })

def adoptUsers (env : Env) (settings : Settings) (current : List QuotaRef) :
    World → List UserConfig → List QuotaRef × World
  | w, [] => ([], w)
  | w, user :: users =>
    let (ref, w) := adoptUser env settings current w user
    let (refs, w) := adoptUsers env settings current w users
    (ref :: refs, w)

/-! ## Installing -/

/-- Dropping a rule closes its stop channel, which ends its tasks. -/
def removeRule (w : World) (spec : RuleSpec) : World :=
  match w.runtime.rules.lookup spec with
  | some rule =>
    { w with
      runtime := { w.runtime with rules := w.runtime.rules.erase spec }
      tasks := w.tasks.filter (·.stop ≠ rule.stop) }
  | none => w

def RuleSpec.hasFallback (spec : RuleSpec) : Bool := 1 < spec.targets.length

/-- The tasks of a rule, with the quota its traffic is metered into. -/
def tasksOf (spec : RuleSpec) (rule : RunningRule) (quota : QuotaRef) : List Task :=
  (if spec.hasFallback && spec.protocol.isTcp then
    [⟨rule.stop, .probe rule.pool spec.checkSecs⟩] else []) ++
  rule.tcp.toList.map (fun listener => ⟨rule.stop, .serveTcp listener rule.pool quota⟩) ++
  rule.udp.toList.map (fun endpoints => ⟨rule.stop, .serveUdp endpoints rule.pool quota⟩)

def start (w : World) (rule : PreparedRule) (quota : QuotaRef) : World :=
  let spec := rule.spec
  let cooldown :=
    if spec.hasFallback && !spec.protocol.isTcp then some spec.checkSecs else none
  let running : RunningRule :=
    { stop := w.next
      pool := ⟨w.next + 1, spec.user, spec.targets, cooldown⟩
      tcp := rule.tcp
      udp := rule.udp }
  { w with
    runtime := { w.runtime with rules := w.runtime.rules.insert spec running }
    tasks := w.tasks ++ tasksOf spec running quota
    next := w.next + 2 }

/-- Starts a rule with its owner's quota; an owner is always among the next users. -/
def startFor (users : List QuotaRef) (w : World) (rule : PreparedRule) : World :=
  match getUser users rule.spec.user with
  | some quota => start w rule quota
  | none => w

def poolRow (row : Sigma fun _ : RuleSpec => RunningRule) : (SocketAddr × Protocol) × PoolRef :=
  ((row.1.listen, row.1.protocol), row.2.pool)

def collectPools (rules : HashMap RuleSpec RunningRule) : PoolMap :=
  (rules.entries.map poolRow).foldl (fun pools row => pools.insert row.1 row.2) ∅

/-- Stops the removed rules, starts the added ones and publishes users and pools. -/
def swapRules (removed : List RuleSpec) (added : List PreparedRule) (users : List QuotaRef)
    (w : World) : World :=
  let w := removed.foldl removeRule w
  let w := added.foldl (startFor users) w
  { w with
    runtime := { w.runtime with
      users
      pools := collectPools w.runtime.rules
      started := true } }

/-- Everything `apply` does after its last failure point. -/
def install (env : Env) (config : Config) (added : List PreparedRule)
    (saved : Std.ExtTreeMap String SavedUsage) (w : World) : World :=
  let removed := removedSpecs w.runtime.rules (specsOf config)
  let (users, w) := adoptUsers env (settingsOf config w saved) w.runtime.users w config.users
  swapRules removed added users w

def apply (env : Env) (config : Config) : Apply Unit := do
  modify fun w => { w with binds := [] }
  let w ← get
  let rules := w.runtime.rules
  let specs := specsOf config
  let added ← prepare env rules specs (spareOf rules (removedSpecs rules specs))
  let saved ← loadSaved env w.runtime config
  modify (install env config added saved)

end PortsBox
